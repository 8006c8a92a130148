import SerialUsb.Firmware.Outputs

/-!
# The OUT packets of the firmware

`ReceiveNextOutput` with `Endpoint_Read_Stream_LE`, in the steps between which the
controller can accept a packet: the choice of the endpoint, the two tests, each byte
that is read, each `Endpoint_ClearOUT`, `USB_USBTask` and the packet on the serial
line. An endpoint has one bank, which is free or holds a packet.
-/

namespace SerialUsb

/-- A bank that is not free: the packet, and the bytes of it that have not been
read. -/
structure Bank where
  packet : List UInt8
  unread : List UInt8
  deriving DecidableEq

/-- The banks by the number of the endpoint; `none` is a free bank. -/
abbrev Banks := UInt8 → Option Bank

/-- Where the main loop is in `ReceiveNextOutput`, with the entry of `endpoints` and
the bytes it has read. -/
inductive OutputPhase where
  | idle
  /-- before `Endpoint_IsOUTReceived` -/
  | selected (endpoint : EndpointConfig)
  /-- before `Endpoint_IsReadWriteAllowed` -/
  | received (endpoint : EndpointConfig)
  /-- in the loop of `Endpoint_Read_Stream_LE` -/
  | reading (endpoint : EndpointConfig) (data : List UInt8)
  /-- in `USB_USBTask`, behind the `Endpoint_ClearOUT` of a short packet -/
  | inTask (endpoint : EndpointConfig) (data : List UInt8)
  /-- before the `Endpoint_ClearOUT` of `ReceiveNextOutput` -/
  | returned (endpoint : EndpointConfig) (data : List UInt8) (short : Bool)
  /-- before the test of `length` -/
  | sending (endpoint : EndpointConfig) (data : List UInt8)
  deriving DecidableEq

structure OutputStep where
  outputs : Outputs
  banks : Banks
  phase : OutputPhase
  released : Option (UInt8 × List UInt8)
  sent : Option (UInt8 × List UInt8)
  bytes : List UInt8

/-- `Endpoint_ClearOUT`: the bank is free, whatever packet it held. -/
def clearOut (banks : Banks) (endpoint : UInt8) : Banks × Option (UInt8 × List UInt8) :=
  (Function.update banks endpoint none, (banks endpoint).map fun b => (endpoint, b.packet))

/-- The local `packet` with a payload: `header.type`, `header.length`, the endpoint
and the data. -/
def outBytes (endpoint : UInt8) (data : List UInt8) : List UInt8 :=
  [PacketType.eTypeOut.toByte, UInt8.ofNat data.length + 1, endpoint] ++ data

def receiveNextOutput (configs : List EndpointConfig) (outputs : Outputs) (banks : Banks) :
    OutputPhase → OutputStep
  | .idle =>
      match outputs.selectNext with
      | (outputs, none) => ⟨outputs, banks, .idle, none, none, []⟩
      | (outputs, some i) =>
          ⟨outputs, banks, .selected (configs.getD i.toNat ⟨0, 0, 0⟩), none, none, []⟩
  | .selected endpoint =>
      ⟨outputs, banks, if (banks endpoint.number).isSome then .received endpoint else .idle,
        none, none, []⟩
  | .received endpoint =>
      let unread := ((banks endpoint.number).map Bank.unread).getD []
      ⟨outputs, banks, if unread ≠ [] then .reading endpoint [] else .returned endpoint [] false,
        none, none, []⟩
  | .reading endpoint data =>
      if data.length < endpoint.size.toNat then
        match banks endpoint.number with
        | some ⟨packet, byte :: unread⟩ =>
            ⟨outputs, Function.update banks endpoint.number (some ⟨packet, unread⟩),
              .reading endpoint (data ++ [byte]), none, none, []⟩
        -- ENDPOINT_RWSTREAM_IncompleteTransfer: the bank is cleared here
        | _ =>
            let (banks, released) := clearOut banks endpoint.number
            ⟨outputs, banks, .inTask endpoint data, released, none, []⟩
      else ⟨outputs, banks, .returned endpoint data false, none, none, []⟩
  | .inTask endpoint data => ⟨outputs, banks, .returned endpoint data true, none, none, []⟩
  | .returned endpoint data _ =>
      let (banks, released) := clearOut banks endpoint.number
      ⟨outputs, banks, .sending endpoint data, released, none, []⟩
  | .sending endpoint data =>
      if data ≠ [] then
        ⟨outputs, banks, .idle, none, some (endpoint.number, data),
          outBytes endpoint.number data⟩
      else ⟨outputs, banks, .idle, none, none, []⟩

end SerialUsb
