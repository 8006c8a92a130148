import SerialUsb.Framing.Stream

/-!
# The serial protocol

The constants, packet types and records of `protocol.h`, shared by the
firmware and the proxy. A packet on the line is a frame whose value fits
`MAX_PACKET_VALUE_SIZE` bytes.
-/

namespace SerialUsb

abbrev maxPacketSize : ℕ := 256

abbrev sizeofHeader : ℕ := 2

abbrev maxPacketValueSize : ℕ := maxPacketSize - sizeofHeader

abbrev maxDescriptorsSize : ℕ := 1024

abbrev maxDescriptors : ℕ := 32

abbrev maxEndpoints : ℕ := 6

abbrev maxPayloadSizeEp : ℕ := 64

@[simp] theorem maxPacketSize_eq : maxPacketSize = 256 := rfl

@[simp] theorem sizeofHeader_eq : sizeofHeader = 2 := rfl

@[simp] theorem maxPacketValueSize_eq : maxPacketValueSize = 254 := rfl

@[simp] theorem maxDescriptorsSize_eq : maxDescriptorsSize = 1024 := rfl

@[simp] theorem maxEndpoints_eq : maxEndpoints = 6 := rfl

@[simp] theorem maxPayloadSizeEp_eq : maxPayloadSizeEp = 64 := rfl

theorem length_cons_payload_le (endpoint : UInt8) {payload : List UInt8}
    (h : payload.length ≤ maxPayloadSizeEp) :
    (endpoint :: payload).length ≤ maxPacketValueSize := by
  rw [maxPayloadSizeEp_eq] at h
  rw [List.length_cons, maxPacketValueSize_eq]
  omega

inductive PacketType where
  | eTypeDescriptors
  | eTypeIndex
  | eTypeEndpoints
  | eTypeReset
  | eTypeControl
  | eTypeControlStall
  | eTypeIn
  | eTypeOut
  | eTypeDebug
  deriving DecidableEq, Repr

def PacketType.toByte : PacketType → UInt8
  | .eTypeDescriptors => 0
  | .eTypeIndex => 1
  | .eTypeEndpoints => 2
  | .eTypeReset => 3
  | .eTypeControl => 4
  | .eTypeControlStall => 5
  | .eTypeIn => 6
  | .eTypeOut => 7
  | .eTypeDebug => 8

def PacketType.ofByte? : UInt8 → Option PacketType
  | 0 => some .eTypeDescriptors
  | 1 => some .eTypeIndex
  | 2 => some .eTypeEndpoints
  | 3 => some .eTypeReset
  | 4 => some .eTypeControl
  | 5 => some .eTypeControlStall
  | 6 => some .eTypeIn
  | 7 => some .eTypeOut
  | 8 => some .eTypeDebug
  | _ => none

@[simp] theorem PacketType.ofByte?_toByte (t : PacketType) :
    PacketType.ofByte? t.toByte = some t := by
  cases t <;> rfl

theorem PacketType.eq_toByte_of_ofByte? {b : UInt8} {t : PacketType}
    (h : PacketType.ofByte? b = some t) : b = t.toByte := by
  unfold PacketType.ofByte? at h
  split at h <;> cases h <;> rfl

theorem PacketType.toByte_injective : Function.Injective PacketType.toByte := by
  intro a b h
  have hsome := congrArg PacketType.ofByte? h
  rw [ofByte?_toByte, ofByte?_toByte] at hsome
  exact Option.some.inj hsome

abbrev PacketFrame := Framing.Frame maxPacketValueSize

theorem maxPacketValueSize_lt : maxPacketValueSize < 256 := by decide

end SerialUsb
