import SerialUsb.Memory.Copy
import SerialUsb.Protocol.Packet

/-!
# The firmware and its serial interrupt

The statics of `emu.c`, grouped by who works on them, and the receive interrupt
`USART1_RX_vect`. The interrupt blocks until its whole packet has arrived and
nothing else runs meanwhile, so it is one step on the packet's bytes.
-/

namespace SerialUsb

open Memory

/-- What is uploaded before the start. `pdesc` and `pindex` are offsets into the
arrays; `overrun` records a byte written past one of them. -/
structure Upload where
  descriptors : Vector UInt8 maxDescriptorsSize
  descIndex : Vector UInt8 (8 * maxDescriptors)
  endpoints : Vector UInt8 (3 * maxEndpoints)
  pdesc : ℕ
  pindex : ℕ
  started : Bool
  overrun : Bool
  deriving DecidableEq

structure ControlSlot where
  control : Vector UInt8 maxPacketValueSize
  controlReply : Bool
  controlStall : Bool
  controlReplyLen : UInt8
  deriving DecidableEq

/-- The bytes of `input`, the endpoint first, and `inputDataLen`. -/
structure InputBuffer where
  input : Vector UInt8 (1 + maxPayloadSizeEp)
  inputDataLen : UInt8
  deriving DecidableEq

structure Firmware where
  upload : Upload
  slot : ControlSlot
  input : InputBuffer
  halted : Bool
  deriving DecidableEq

def Firmware.boot : Firmware where
  upload := ⟨Vector.replicate _ 0, Vector.replicate _ 0, Vector.replicate _ 0, 0, 0,
    false, false⟩
  slot := ⟨Vector.replicate _ 0, false, false, 0⟩
  input := ⟨Vector.replicate _ 0, 0⟩
  halted := false

def ack (type : PacketType) : List UInt8 := [type.toByte, 0]

def Upload.readDescriptors (u : Upload) (value : List UInt8) : Upload :=
  { u with
    descriptors := copyAt u.descriptors u.pdesc value
    pdesc := u.pdesc + value.length
    overrun := u.overrun || decide (maxDescriptorsSize < u.pdesc + value.length) }

def Upload.readIndex (u : Upload) (value : List UInt8) : Upload :=
  { u with
    descIndex := copyAt u.descIndex u.pindex value
    pindex := u.pindex + value.length
    overrun := u.overrun || decide (8 * maxDescriptors < u.pindex + value.length) }

def Upload.readEndpoints (u : Upload) (value : List UInt8) : Upload :=
  { u with
    endpoints := copyAt u.endpoints 0 value
    started := true
    overrun := u.overrun || decide (3 * maxEndpoints < value.length) }

def ControlSlot.readControl (c : ControlSlot) (value : List UInt8) : ControlSlot :=
  { c with
    control := copyAt c.control 0 value
    controlReply := true
    controlReplyLen := UInt8.ofNat value.length }

def ControlSlot.readStall (c : ControlSlot) (value : List UInt8) : ControlSlot :=
  { c with
    control := copyAt c.control 0 value
    controlReply := true
    controlStall := true }

def InputBuffer.read (i : InputBuffer) (value : List UInt8) : InputBuffer :=
  ⟨copyAt i.input 0 value, UInt8.ofNat value.length - 1⟩

def interrupt (fw : Firmware) (type : PacketType) (value : List UInt8) :
    Firmware × List UInt8 :=
  match type with
  | .eTypeDescriptors =>
      ({ fw with upload := fw.upload.readDescriptors value }, ack .eTypeDescriptors)
  | .eTypeIndex => ({ fw with upload := fw.upload.readIndex value }, ack .eTypeIndex)
  | .eTypeEndpoints =>
      ({ fw with upload := fw.upload.readEndpoints value }, ack .eTypeEndpoints)
  | .eTypeReset => ({ fw with halted := true }, [])
  | .eTypeControl => ({ fw with slot := fw.slot.readControl value }, [])
  | .eTypeControlStall => ({ fw with slot := fw.slot.readStall value }, [])
  | .eTypeIn => ({ fw with input := fw.input.read value }, [])
  | .eTypeOut | .eTypeDebug => (fw, [])

/-- A run of `USART1_RX_vect` on the bytes that have arrived: the firmware after
it, the bytes it sends and the bytes it leaves. There is none while the packet is
incomplete, nor after the reset. -/
def receive (fw : Firmware) : List UInt8 → Option (Firmware × List UInt8 × List UInt8)
  | type :: len :: rest =>
      if fw.halted then none
      else
        match PacketType.ofByte? type with
        -- packet_type > E_TYPE_IN: the value is not read
        | none | some .eTypeOut | some .eTypeDebug => some (fw, [], rest)
        | some t =>
            if len.toNat ≤ rest.length then
              let (fw, sent) := interrupt fw t (rest.take len.toNat)
              some (fw, sent, rest.drop len.toNat)
            else none
  | _ => none

theorem not_halted_of_receive {fw : Firmware} {line : List UInt8}
    {result : Firmware × List UInt8 × List UInt8} (h : receive fw line = some result) :
    fw.halted = false := by
  by_contra hne
  rw [Bool.not_eq_false] at hne
  unfold receive at h
  split at h
  · rw [if_pos hne] at h
    exact absurd h (by simp)
  · exact absurd h (by simp)

end SerialUsb
