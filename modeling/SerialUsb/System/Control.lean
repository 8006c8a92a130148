import SerialUsb.Firmware.Control
import SerialUsb.Firmware.Upload
import SerialUsb.Proxy.InPackets
import SerialUsb.Proxy.Traffic
import SerialUsb.Transition.Run

/-!
# The replies to control requests

The firmware and the proxy, joined by the two directions of the serial line. The target
host makes requests at any time the main loop is free, the time of the loop that waits
for a reply is over at any moment, the transfers of the proxy end in any order, and the
two parties read at any time.

Every byte on the line and every transfer carries the number of the request it belongs
to. Replies have no such number on the line: a reply that comes after its time is taken
for the next request. `control_matched` says that this is all that can go wrong: when
every request begins after all that belongs to the earlier ones has gone, each request
is completed by its own reply.
-/

namespace SerialUsb

open Framing Memory Transition

/-- The bytes of packets, each with the request that its packet belongs to. -/
def tagged (xs : List (Option ℕ × PacketFrame)) : List (UInt8 × Option ℕ) :=
  xs.flatMap fun x => x.2.encode.map fun b => (b, x.1)

/-- The two parties and the bytes on the way to the proxy. `requests` are those that were
forwarded, in order. `owners` has the request of each transfer of the table, `origins`
that of each byte on the line to the firmware; `taken` has the replies that the interrupt
has taken since the last request began. -/
structure ControlLink where
  session : Session Proxy
  exited : Bool
  fw : Firmware
  phase : ControlPhase
  toProxy : List (UInt8 × Option ℕ)
  requests : List HostRequest
  owners : List (Option ℕ)
  origins : List (Option ℕ)
  taken : List (Option ℕ × List UInt8)

def ControlLink.proxy (s : ControlLink) : Proxy := s.session.user

/-- The state in which the first request can come; `bytes` are still on the way to the
proxy. -/
def ControlLink.start (r : Receiver) (p : Proxy) (fw : Firmware) (bytes : List UInt8) :
    ControlLink where
  session := ⟨r, p, []⟩
  exited := false
  fw := fw
  phase := .idle
  toProxy := bytes.map fun b => (b, none)
  requests := []
  owners := List.replicate p.usb.transfers.length none
  origins := []
  taken := []

def ControlLink.setProxy (s : ControlLink) (p : Proxy) (origin : Option ℕ) : ControlLink :=
  { s with
    session := { s.session with user := p }
    owners := s.owners ++
      List.replicate (p.usb.transfers.length - s.proxy.usb.transfers.length) origin
    origins := s.origins ++
      List.replicate (p.serial.line.length - s.proxy.serial.line.length) origin }

/-- The request that the bytes the main loop sends belong to. -/
def ControlLink.origin (s : ControlLink) : Option ℕ :=
  match s.phase with
  | .sending q _ => if q.Forwarded then some (s.requests.length - 1) else none
  | _ => none

inductive ControlEvent where
  /-- the target host makes a request that LUFA does not handle -/
  | request (q : HostRequest)
  /-- a step of `EVENT_USB_Device_UnhandledControlRequest` -/
  | mainLoop (leave : Bool)
  /-- `ENDPOINT_Task` puts a packet on the line, and has worked on `input` -/
  | other (f : PacketFrame) (input : InputBuffer)
  /-- the interrupt takes a packet -/
  | interrupt
  /-- a `read` of the adapter returns `n` bytes -/
  | read (n : ℕ)
  /-- the transfer at a position of the table ends -/
  | complete (i : ℕ) (status : TransferStatus)
  /-- the proxy leaves its main loop -/
  | exit

def isReplyType (bytes : List UInt8) : Bool :=
  bytes.headD 0 = PacketType.eTypeControl.toByte ∨
    bytes.headD 0 = PacketType.eTypeControlStall.toByte

def ControlLink.next (s : ControlLink) : ControlEvent → Option ControlLink
  | .request q =>
      match s.phase with
      | .idle =>
          if s.fw.halted then none
          else
            let (slot, phase) := beginControlRequest s.fw.slot q
            some { s with fw := { s.fw with slot := slot }, phase := phase, taken := [] }
      | _ => none
  | .mainLoop leave =>
      if s.fw.halted then none
      else
        let step := unhandledControlRequest s.fw.slot leave s.phase
        some { s with
          fw := { s.fw with slot := step.slot }
          phase := step.phase
          toProxy := s.toProxy ++ step.sent.map fun b => (b, s.origin)
          requests := s.requests ++ step.forwarded.toList }
  | .other f input =>
      match s.phase with
      | .idle =>
          if s.fw.halted = false ∧ s.proxy.OtherPacket f then
            some { s with
              fw := { s.fw with input := input }
              toProxy := s.toProxy ++ f.encode.map fun b => (b, none) }
          else none
      | _ => none
  | .interrupt =>
      (receive s.fw s.proxy.serial.line).map fun (fw, sent, rest) =>
        let n := s.proxy.serial.line.length - rest.length
        { s with
          session := { s.session with user := s.proxy.setLine rest }
          fw := fw
          toProxy := s.toProxy ++ sent.map fun b => (b, none)
          origins := s.origins.drop n
          taken :=
            if isReplyType s.proxy.serial.line then
              s.taken ++ [(s.origins.headD none, s.proxy.serial.line.take n)]
            else s.taken }
  | .read n =>
      if s.proxy.done = true ∨ s.exited = true ∨ s.toProxy.length < n then none
      else
        let chunk := s.toProxy.take n
        (s.session.recv (fun _ => true) processPacket (chunk.map Prod.fst)).map fun session =>
          -- a packet that is complete belongs to the request of its last byte
          { s.setProxy session.user (chunk.getLast?.bind Prod.snd) with
            session := session, toProxy := s.toProxy.drop n }
  | .complete i status =>
      if s.proxy.done = true ∨ s.exited = true ∨ status = .cancelled then none
      else
        (usbCallback s.proxy i status).map fun p =>
          { s.setProxy p (s.owners.getD i none) with owners := s.owners.eraseIdx i }
  | .exit =>
      if s.proxy.done = true ∧ s.exited = false then
        some { s.setProxy (s.proxy.send .eTypeReset []).1 none with exited := true }
      else none

/-- While a request is acted on, the interrupt has taken exactly one reply since it
began: the one that the proxy has produced for it. The reply is still in the slot, and
the host gets its bytes. -/
def ControlLink.Matched (s : ControlLink) : Prop :=
  ∀ q, s.phase.acting = some q → ∃ f : PacketFrame,
    s.requests.getLast? = some q ∧
      s.taken = [(some (s.requests.length - 1), f.encode)] ∧
      s.fw.slot.Holds f ∧ s.phase.Sends f

/-- Nothing that belongs to a request is under way. -/
def ControlLink.Settled (s : ControlLink) : Prop :=
  (∀ b ∈ s.toProxy, b.2 = none) ∧ (∀ o ∈ s.owners, o = none) ∧ ∀ o ∈ s.origins, o = none

instance (s : ControlLink) : Decidable s.Settled := inferInstanceAs (Decidable (_ ∧ _))

/-- A request that is forwarded fits a packet and begins when nothing of the earlier
requests is under way. -/
def ControlLink.InTurn (s : ControlLink) : ControlEvent → Prop
  | .request q => q.Forwarded → q.Fits ∧ s.Settled
  | _ => True

instance (s : ControlLink) (e : ControlEvent) : Decidable (s.InTurn e) := by
  unfold ControlLink.InTurn
  cases e <;> infer_instance

/-- The setting before the first request: the acknowledgements of the start-up may be on
the way to the proxy, and nothing is on the way to the firmware. -/
structure ControlLink.Ready (r : Receiver) (p : Proxy) (bytes : List UInt8) : Prop where
  waiting : r.Waiting
  back : ∃ fs : List PacketFrame, (∀ f ∈ fs, p.OtherPacket f) ∧
    r.stored ++ bytes = fs.flatMap Frame.encode
  line : p.serial.line = []
  writes : p.serial.writes = []
  transfers : ∀ t ∈ p.usb.transfers, t.type = transferTypeInterrupt ∧ t.endpoint ≠ 0

theorem tagged_append (xs ys : List (Option ℕ × PacketFrame)) :
    tagged (xs ++ ys) = tagged xs ++ tagged ys := List.flatMap_append

theorem map_fst_tagged (xs : List (Option ℕ × PacketFrame)) :
    (tagged xs).map Prod.fst = (xs.map Prod.snd).flatMap Frame.encode := by
  unfold tagged
  rw [List.map_flatMap, List.flatMap_map]
  congr 1
  funext x
  rw [List.map_map]
  exact List.map_id _

theorem tagged_map (o : Option ℕ) (fs : List PacketFrame) :
    tagged (fs.map fun f => (o, f)) = (fs.flatMap Frame.encode).map fun b => (b, o) := by
  unfold tagged
  rw [List.flatMap_map, List.map_flatMap]

theorem tagged_eq_append {xs : List (Option ℕ × PacketFrame)} {a b : List (UInt8 × Option ℕ)}
    {f : PacketFrame} (h : a ++ b = tagged xs) (ha : a.map Prod.fst = f.encode) :
    ∃ o ys, xs = (o, f) :: ys ∧ a = f.encode.map (fun b => (b, o)) ∧ b = tagged ys := by
  cases xs with
  | nil =>
      have hnil := (List.append_eq_nil_iff.1 h).1
      rw [hnil] at ha
      exact absurd ha.symm f.encode_ne_nil
  | cons x ys =>
      have hbytes := congrArg (List.map Prod.fst) h
      rw [List.map_append, ha, map_fst_tagged, List.map_cons, List.flatMap_cons] at hbytes
      have htake := takeFrame_encode_append maxPacketValueSize_lt f (b.map Prod.fst)
      rw [hbytes, takeFrame_encode_append maxPacketValueSize_lt] at htake
      have hframe : x.2 = f := (Prod.mk.inj (Option.some.inj htake)).1
      have hlength : a.length = (x.2.encode.map fun b => (b, x.1)).length := by
        rw [List.length_map, hframe, ← ha, List.length_map]
      have hsplit : a ++ b = (x.2.encode.map fun b => (b, x.1)) ++ tagged ys := h
      obtain ⟨hfirst, hrest⟩ := List.append_inj hsplit hlength
      exact ⟨x.1, ys, by rw [← hframe], by rw [hfirst, hframe], hrest⟩

end SerialUsb
