import SerialUsb.Adapter.Receive
import SerialUsb.Adapter.Send
import SerialUsb.Proxy.Usb

/-!
# The proxy

The statics of `proxy.c` and the functions that work on them: the queue of IN
packets, the callbacks of the USB transfers and `process_packet`. A function of
the source that returns an `int` returns the new state and that `int`.
-/

namespace SerialUsb

open Memory

structure DescriptorIndex where
  offset : UInt16
  wValue : UInt16
  wIndex : UInt16
  wLength : UInt16
  deriving DecidableEq, Repr

def DescriptorIndex.bytes (d : DescriptorIndex) : List UInt8 :=
  le16 d.offset ++ le16 d.wValue ++ le16 d.wIndex ++ le16 d.wLength

structure EndpointConfig where
  number : UInt8
  type : UInt8
  size : UInt8
  deriving DecidableEq, Repr

def EndpointConfig.bytes (c : EndpointConfig) : List UInt8 := [c.number, c.type, c.size]

/-- An element of `inPackets`: the length and the bytes of an `s_endpointPacket`. -/
structure InPacket where
  length : ℕ
  endpoint : UInt8
  data : Vector UInt8 maxPayloadSizeEp
  deriving DecidableEq

def InPacket.sent (p : InPacket) : List UInt8 := (p.endpoint :: p.data.toList).take p.length

/-- The statics of `proxy.c`, the serial device of the adapter and the USB device.
`desc`, `descIndex`, `endpoints` and `inEpFifo` are the used parts of the arrays.
`fault` records a copy behind the end of the memory. -/
structure Proxy where
  desc : List UInt8
  descIndex : List DescriptorIndex
  endpoints : List EndpointConfig
  descIndexSent : Bool
  endpointsSent : Bool
  initTimer : Int
  inPending : UInt8
  serialToUsb : EndpointTable
  usbToSerial : EndpointTable
  inPackets : Vector InPacket endpointMaxNumber
  inEpFifo : List UInt8
  done : Bool
  fault : Bool
  serial : Serial
  usb : Usb

def inPacketIndex (endpoint : UInt8) : ℕ := (endpointNumber endpoint + 255) % 256

def Proxy.inPacket (p : Proxy) (endpoint : UInt8) : InPacket :=
  p.inPackets.getD (inPacketIndex endpoint) ⟨0, 0, Vector.replicate _ 0⟩

def Proxy.send (p : Proxy) (type : PacketType) (data : List UInt8) : Proxy × Int :=
  let (serial, ret) := adapterSend p.serial type data
  ({ p with serial := serial }, ret)

def Proxy.poll (p : Proxy) (endpoint : UInt8) : Proxy × Int :=
  let (usb, ret) := gusbPoll p.usb endpoint
  ({ p with usb := usb }, ret)

def Proxy.setLine (p : Proxy) (line : List UInt8) : Proxy :=
  { p with serial := { p.serial with line := line } }

def sendNextInPacket (p : Proxy) : Proxy × Int :=
  if p.inPending ≠ 0 then (p, 0)
  else
    match p.inEpFifo with
    | [] => (p, 0)
    | endpoint :: rest =>
        let (p, ret) := p.send .eTypeIn (p.inPacket endpoint).sent
        if ret < 0 then (p, -1)
        else ({ p with inPending := endpoint, inEpFifo := rest }, 0)

def queueInPacket (p : Proxy) (endpoint : UInt8) (buf : List UInt8) : Proxy × Int :=
  if p.inEpFifo.length = maxEndpoints then (p, -1)
  else
    let packet : InPacket :=
      { length := buf.length + 1
        endpoint := p.usbToSerial.get endpoint.toNat
        data := copyAt (p.inPacket endpoint).data 0 buf }
    ({ p with
        inPackets := p.inPackets.setIfInBounds (inPacketIndex endpoint) packet
        inEpFifo := p.inEpFifo ++ [endpoint] }, 0)

/-- `usb_read_callback`; `buf` holds `status` bytes when `status` is not negative. -/
def usbReadCallback (p : Proxy) (endpoint : UInt8) (buf : List UInt8) (status : Int) :
    Proxy × Int :=
  if status = TransferStatus.error.code then (p, -1)
  else if endpoint = 0 then
    if (maxPacketValueSize : Int) < status then ({ p with done := true }, -1)
    else
      let (p, ret) :=
        if 0 ≤ status then p.send .eTypeControl buf
        else p.send .eTypeControlStall []
      if ret < 0 then (p, -1) else (p, 0)
  else if (maxPayloadSizeEp : Int) < status then ({ p with done := true }, -1)
  else if 0 ≤ status then
    let (p, ret) := queueInPacket p endpoint buf
    if ret < 0 then ({ p with done := true }, -1)
    else
      let (p, ret) := sendNextInPacket p
      if ret < 0 then ({ p with done := true }, -1) else (p, 0)
  else (p, 0)

def usbWriteCallback (p : Proxy) (endpoint : UInt8) (status : Int) : Proxy × Int :=
  if status = TransferStatus.timedOut.code then (p, 0)
  else if status = TransferStatus.stall.code then
    if endpoint = 0 then
      let (p, ret) := p.send .eTypeControlStall []
      if ret < 0 then ({ p with done := true }, -1) else (p, 0)
    else (p, 0)
  else if status = TransferStatus.error.code then (p, -1)
  else if endpoint = 0 then
    let (p, ret) := p.send .eTypeControl []
    if ret < 0 then ({ p with done := true }, -1) else (p, 0)
  else (p, 0)

/-- The call `usb_callback` makes for a transfer that ends with `status`; the
results of the callbacks are dropped. -/
def callCallback (p : Proxy) (transfer : Transfer) (status : TransferStatus) : Proxy :=
  if status = .cancelled then p
  else if transfer.type = transferTypeControl then
    if transfer.buffer.headD 0 &&& 0x80 ≠ 0 then
      (usbReadCallback p transfer.endpoint status.data status.code).1
    else (usbWriteCallback p transfer.endpoint status.code).1
  else if endpointIn transfer.endpoint then
    (usbReadCallback p transfer.endpoint status.data status.code).1
  else (usbWriteCallback p transfer.endpoint status.code).1

/-- `usb_callback` for the transfer at position `i` of the table, which
`remove_transfer` takes out. -/
def usbCallback (p : Proxy) (i : ℕ) (status : TransferStatus) : Option Proxy :=
  p.usb.transfers[i]?.map fun transfer =>
    let p := callCallback p transfer status
    { p with usb := { p.usb with transfers := p.usb.transfers.eraseIdx i } }

def sendIndex (p : Proxy) : Proxy × Int :=
  if p.descIndexSent then (p, 0)
  else
    { p with descIndexSent := true }.send .eTypeIndex
      (p.descIndex.flatMap DescriptorIndex.bytes)

def sendEndpoints (p : Proxy) : Proxy × Int :=
  if p.endpointsSent then (p, 0)
  else
    { p with endpointsSent := true }.send .eTypeEndpoints
      (p.endpoints.flatMap EndpointConfig.bytes)

def pollEndpoints (p : Proxy) : List ℕ → Proxy × Int
  | [] => (p, 0)
  | i :: rest =>
      let endpoint := p.serialToUsb.get (0x80 ||| i)
      if endpoint ≠ 0 then
        let (p, ret) := p.poll endpoint
        if ret < 0 then (p, ret) else pollEndpoints p rest
      else pollEndpoints p rest

def pollAllEndpoints (p : Proxy) : Proxy × Int :=
  pollEndpoints p (List.range endpointMaxNumber)

/-- `send_out_packet`. For a packet without value `count` wraps to `UINT_MAX`. -/
def sendOutPacket (p : Proxy) (packet : SPacket) : Proxy × Int :=
  let endpoint := p.serialToUsb.get (packet.value.headD 0).toNat
  let count := unsignedSub packet.length.toNat 1
  let data := packet.value.drop 1
  let (usb, ret) := gusbWrite p.usb endpoint data count
  ({ p with usb := usb, fault := p.fault || writeFaults p.usb endpoint data count }, ret)

def translateIndex (p : Proxy) (packet : SPacket) : SPacket :=
  let wIndex := ofLe16 (packet.value.getD 4 0) (packet.value.getD 5 0)
  if packet.value.headD 0 &&& 0x1f = 0x02 ∧ wIndex ≠ 0 then
    ⟨copyAt packet.bytes 6 [p.serialToUsb.get wIndex.toNat, 0]⟩
  else packet

def isDeviceQualifier (packet : SPacket) : Prop :=
  packet.value.getD 0 0 = 0x80 ∧ packet.value.getD 1 0 = 6 ∧ packet.value.getD 3 0 = 6

instance (packet : SPacket) : Decidable (isDeviceQualifier packet) :=
  inferInstanceAs (Decidable (_ ∧ _))

/-- `send_control_packet`, with the packet as it leaves it. -/
def sendControlPacket (p : Proxy) (packet : SPacket) : Proxy × SPacket × Int :=
  let packet := translateIndex p packet
  if isDeviceQualifier packet then
    let (p, ret) := p.send .eTypeControlStall []
    (p, packet, ret)
  else
    let (usb, ret) := gusbWrite p.usb 0 packet.value packet.length.toNat
    ({ p with usb := usb }, packet, ret)

def ackIn (p : Proxy) : Proxy × Int :=
  if p.inPending ≠ 0 then
    let (p, ret) := p.poll p.inPending
    let p := { p with inPending := 0 }
    if ret ≠ -1 then sendNextInPacket p else (p, ret)
  else (p, 0)

def dispatchPacket (p : Proxy) (packet : SPacket) : Proxy × SPacket × Int :=
  match PacketType.ofByte? packet.type with
  | some .eTypeDescriptors => let (p, ret) := sendIndex p; (p, packet, ret)
  | some .eTypeIndex => let (p, ret) := sendEndpoints p; (p, packet, ret)
  | some .eTypeEndpoints =>
      let (p, ret) := pollAllEndpoints { p with initTimer := -1 }
      (p, packet, ret)
  | some .eTypeIn => let (p, ret) := ackIn p; (p, packet, ret)
  | some .eTypeOut => let (p, ret) := sendOutPacket p packet; (p, packet, ret)
  | some .eTypeControl => sendControlPacket p packet
  | some .eTypeReset => (p, packet, -1)
  | _ => (p, packet, 0)

def processPacket : PacketCallback Proxy := fun p packet =>
  let (p, packet, ret) := dispatchPacket p packet
  (if ret < 0 then { p with done := true } else p, packet, ret)

end SerialUsb
