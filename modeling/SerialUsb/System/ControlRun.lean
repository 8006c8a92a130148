import SerialUsb.System.ControlInvariant
import SerialUsb.System.ControlReplies

/-!
# The control requests of a run

What a run asks the device, how the transfers end, and which replies the interrupt takes, each
with the number of its request. Whatever the timing is, a request is asked at most once and in
its turn, as the target host made it, and the packet that comes back under its number is the
reply to it.
-/

namespace SerialUsb

open Framing Memory Transition

structure ControlEnd where
  request : ℕ
  transfer : Transfer
  status : TransferStatus

/-- The two parties, with the control transfers that were submitted, those that have ended, and
the replies that the interrupt has taken, each in the order of the run. -/
structure ControlRun where
  link : ControlLink
  asked : List (ℕ × Transfer)
  ends : List ControlEnd
  replies : List (Option ℕ × List UInt8)

def ControlLink.submitted (s t : ControlLink) : List (ℕ × Transfer) :=
  ((t.owners.zip t.proxy.usb.transfers).drop s.owners.length).filterMap fun x =>
    x.1.map fun k => (k, x.2)

def ControlLink.ends (s : ControlLink) : ControlEvent → List ControlEnd
  | .complete i status =>
      match s.owners.getD i none, s.proxy.usb.transfers[i]? with
      | some k, some transfer => [⟨k, transfer, status⟩]
      | _, _ => []
  | _ => []

def ControlRun.start (link : ControlLink) : ControlRun := ⟨link, [], [], []⟩

def ControlRun.next (s : ControlRun) (e : ControlEvent) : Option ControlRun :=
  (s.link.next e).map fun link =>
    { link := link
      asked := s.asked ++ s.link.submitted link
      ends := s.ends ++ s.link.ends e
      replies := s.replies ++ link.taken.drop s.link.taken.length }

/-- A request that is forwarded fits a packet. -/
def ControlEvent.Fits : ControlEvent → Prop
  | .request q => q.Forwarded → q.Fits
  | _ => True

def ControlRun.Answered (s : ControlRun) (k : ℕ) (f : PacketFrame) : Prop :=
  ∃ q, s.link.requests[k]? = some q ∧
    (q.setup.IsDeviceQualifier ∧ f.type = PacketType.eTypeControlStall.toByte ∧ f.value = [] ∨
      ∃ e ∈ s.ends, e.request = k ∧ q.reply e.status = some (f.type, f.value))

/-- What the device is asked and what the firmware is told, against the requests. -/
structure ControlRun.Transparent (serialToUsb : EndpointTable) (s : ControlRun) : Prop where
  /-- each request is asked at most once, and they are asked in order -/
  order : (s.asked.map Prod.fst).Pairwise (· < ·)
  asks : ∀ a ∈ s.asked, ∃ q, s.link.requests[a.1]? = some q ∧ q.Asks serialToUsb a.2
  /-- the device has no other control transfer -/
  owned : ∀ t ∈ s.link.proxy.usb.transfers, t.type = transferTypeControl →
    ∃ k, (k, t) ∈ s.asked
  ended : ∀ e ∈ s.ends, (e.request, e.transfer) ∈ s.asked
  endsOnce : (s.ends.map ControlEnd.request).Nodup
  /-- each request is replied to at most once -/
  repliesOnce : (s.replies.map Prod.fst).Nodup
  replies : ∀ x ∈ s.replies, ∃ k f, x = (some k, f.encode) ∧ s.Answered k f

def ControlRun.Upward (s : ControlRun) (x : Option ℕ × PacketFrame) : Prop :=
  match x.1 with
  | none => s.link.proxy.OtherPacket x.2
  | some k => ∃ q, s.link.requests[k]? = some q ∧ q.Forwarded ∧
      x.2.type = PacketType.eTypeControl.toByte ∧ x.2.value = q.setup.bytes ++ q.outData

def ControlRun.Downward (s : ControlRun) (x : Option ℕ × PacketFrame) : Prop :=
  match x.1 with
  | none => x.2.type = PacketType.eTypeIn.toByte ∨ x.2.type = PacketType.eTypeReset.toByte
  | some k => s.Answered k x.2 ∧ (x.2.type = PacketType.eTypeControl.toByte ∨
      x.2.type = PacketType.eTypeControlStall.toByte)

def ControlRun.Owns (s : ControlRun) (t : Transfer) (o : Option ℕ) : Prop :=
  match o with
  | none => t.type = transferTypeInterrupt ∧ t.endpoint ≠ 0
  | some k => (k, t) ∈ s.asked

def ControlRun.Submits (table : EndpointTable) (s : ControlRun) (o : Option ℕ) (u : Transfer) :
    Prop :=
  match o with
  | none => u.type = transferTypeInterrupt ∧ u.endpoint ≠ 0
  | some k => ∃ q, s.link.requests[k]? = some q ∧ q.Asks table u

/-- In how many places a request or its reply is, the replies that were taken included. -/
def ControlRun.places (s : ControlRun) (fs gs : List (Option ℕ × PacketFrame)) (k : ℕ) : ℕ :=
  (fs.map Prod.fst).count (some k) + s.link.owners.count (some k) +
    (gs.map Prod.fst).count (some k) + (s.replies.map Prod.fst).count (some k)

def ControlPhase.Takes : ControlPhase → Prop
  | .resetting q | .dataStage q =>
      q.setup.wLength.toNat ≤ maxControlTransferSize ∧ (q.Forwarded → q.Fits)
  | .sending q _ => maxControlTransferSize < q.setup.wLength.toNat ∨ q.Forwarded
  | _ => True

structure ControlRun.Inv (table : EndpointTable) (fs gs : List (Option ℕ × PacketFrame))
    (s : ControlRun) : Prop where
  waiting : s.link.session.receiver.Waiting
  announced : s.link.session.Announced
  writes : s.link.proxy.serial.writes = []
  serialToUsb : s.link.proxy.serialToUsb = table
  upstream : ∃ head, head.map Prod.fst = s.link.session.receiver.stored ∧
    head ++ s.link.toProxy ++ s.link.unsent = tagged fs
  upward : ∀ x ∈ fs, s.Upward x
  line : s.link.proxy.serial.line = (tagged gs).map Prod.fst
  origins : s.link.origins = (tagged gs).map Prod.snd
  downward : ∀ x ∈ gs, s.Downward x
  owners : List.Forall₂ s.Owns s.link.proxy.usb.transfers s.link.owners
  asks : ∀ a ∈ s.asked, ∃ q, s.link.requests[a.1]? = some q ∧ q.Asks table a.2
  ended : ∀ e ∈ s.ends, (e.request, e.transfer) ∈ s.asked
  order : (s.asked.map Prod.fst ++ fs.filterMap Prod.fst).Pairwise (· < ·)
  endsOnce : ∀ k, s.link.owners.count (some k) + (s.ends.map ControlEnd.request).count k ≤
    (s.asked.map Prod.fst).count k
  placesOnce : ∀ k, s.places fs gs k ≤ 1
  taken : s.link.taken ⊆ s.replies
  replies : ∀ x ∈ s.replies, ∃ k f, x = (some k, f.encode) ∧ s.Answered k f
  phase : s.link.phase.Takes

structure ControlRun.Extends (s t : ControlRun) : Prop where
  requests : s.link.requests <+: t.link.requests
  asked : s.asked ⊆ t.asked
  ends : s.ends ⊆ t.ends
  serialToUsb : t.link.proxy.serialToUsb = s.link.proxy.serialToUsb

section Extends

variable {s t : ControlRun} {k : ℕ}

theorem ControlRun.Extends.request (h : s.Extends t) {q : HostRequest}
    (hq : s.link.requests[k]? = some q) : t.link.requests[k]? = some q := by
  obtain ⟨rest, hrest⟩ := h.requests
  rw [← hrest, List.getElem?_append_left (List.getElem?_eq_some_iff.1 hq).1, hq]

theorem ControlRun.Extends.answered (h : s.Extends t) {f : PacketFrame} (hf : s.Answered k f) :
    t.Answered k f := by
  obtain ⟨q, hq, hreply⟩ := hf
  refine ⟨q, h.request hq, hreply.imp_right ?_⟩
  rintro ⟨e, he, hend⟩
  exact ⟨e, h.ends he, hend⟩

theorem ControlRun.Extends.upward (h : s.Extends t) {x : Option ℕ × PacketFrame}
    (hx : s.Upward x) : t.Upward x := by
  unfold ControlRun.Upward at hx ⊢
  split
  next hnone =>
    rw [hnone] at hx
    unfold Proxy.OtherPacket at hx ⊢
    rwa [h.serialToUsb]
  next hsome =>
    rw [hsome] at hx
    obtain ⟨q, hq, hpacket⟩ := hx
    exact ⟨q, h.request hq, hpacket⟩

theorem ControlRun.Extends.downward (h : s.Extends t) {x : Option ℕ × PacketFrame}
    (hx : s.Downward x) : t.Downward x := by
  unfold ControlRun.Downward at hx ⊢
  split
  next hnone =>
    rw [hnone] at hx
    exact hx
  next hsome =>
    rw [hsome] at hx
    exact ⟨h.answered hx.1, hx.2⟩

theorem ControlRun.Extends.owns (h : s.Extends t) {u : Transfer} {o : Option ℕ}
    (hu : s.Owns u o) : t.Owns u o := by
  cases o with
  | none => exact hu
  | some k => exact h.asked hu

theorem ControlRun.Extends.asks (h : s.Extends t) {table : EndpointTable} {a : ℕ × Transfer}
    (ha : ∃ q, s.link.requests[a.1]? = some q ∧ q.Asks table a.2) :
    ∃ q, t.link.requests[a.1]? = some q ∧ q.Asks table a.2 := by
  obtain ⟨q, hq, hasks⟩ := ha
  exact ⟨q, h.request hq, hasks⟩

end Extends

theorem zip_replicate_left {α β : Type*} (a : α) (l : List β) :
    (List.replicate l.length a).zip l = l.map fun b => (a, b) := by
  induction l with
  | nil => rfl
  | cons b l ih => simpa [List.replicate_succ] using ih

theorem ControlLink.submitted_eq_nil {s t : ControlLink} (h : t.owners.length ≤ s.owners.length) :
    s.submitted t = [] := by
  unfold ControlLink.submitted
  rw [List.drop_eq_nil_of_le, List.filterMap_nil]
  rw [List.length_zip]
  exact (Nat.min_le_left _ _).trans h

theorem ControlLink.submitted_setProxy {s t : ControlLink} {q : Proxy} {o : Option ℕ}
    {new : List PacketFrame} {ts : List Transfer} (hemits : s.proxy.Emits q new ts)
    (hlength : s.proxy.usb.transfers.length = s.owners.length) (hproxy : t.proxy = q)
    (howners : t.owners = (s.setProxy q o).owners) :
    s.submitted t = ts.filterMap fun u => o.map fun k => (k, u) := by
  unfold ControlLink.submitted
  rw [hproxy, howners, ControlLink.owners_setProxy hemits, hemits.transfers,
    List.zip_append hlength.symm, List.drop_left' (by simp [hlength]), zip_replicate_left,
    List.filterMap_map]
  rfl

end SerialUsb
