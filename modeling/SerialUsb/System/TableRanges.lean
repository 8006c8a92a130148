import SerialUsb.Adapter.Delivered
import SerialUsb.Proxy.TableAccesses
import SerialUsb.System.Service

/-!
# Runs in which the endpoint tables are in range

The proxy from `fix_endpoints` on, with the accesses that its steps make. Only endpoints
with a number are polled and written to, so `queue_in_packet` is always in range; the
others depend on the description and on the packets that the firmware sends.
-/

namespace SerialUsb

open Framing Memory Transition

def Transfer.Addressed (t : Transfer) : Prop := t.endpoint = 0 ∨ endpointNumber t.endpoint ≠ 0

def Proxy.Submits (p q : Proxy) : Prop := ∀ t ∈ q.usb.transfers, t ∈ p.usb.transfers ∨ t.Addressed

theorem Proxy.Submits.of_eq {p q : Proxy} (h : q.usb.transfers = p.usb.transfers) : p.Submits q :=
  fun _ ht => Or.inl (h ▸ ht)

theorem Proxy.Submits.trans {p q r : Proxy} (h : p.Submits q) (h' : q.Submits r) : p.Submits r := by
  intro t ht
  rcases h' t ht with hmem | haddressed
  · exact h t hmem
  · exact Or.inr haddressed

theorem Proxy.Submits.addressed {p q : Proxy} (h : p.Submits q)
    (hp : ∀ t ∈ p.usb.transfers, t.Addressed) : ∀ t ∈ q.usb.transfers, t.Addressed :=
  fun t ht => (h t ht).elim (hp t) id

theorem endpointNumber_of_getEndpoint {usb : Usb} {endpoint : UInt8} {directionIn : Bool}
    (h : getEndpoint usb endpoint directionIn ≠ none) : endpointNumber endpoint ≠ 0 := by
  intro hzero
  refine h ?_
  unfold getEndpoint
  split
  · rfl
  · rfl

theorem mem_submitTransfer {usb : Usb} {t t' : Transfer}
    (h : t' ∈ (submitTransfer usb t).1.transfers) : t' ∈ usb.transfers ∨ t' = t := by
  rcases submitTransfer_cases usb t with ⟨husb, _⟩ | ⟨husb, _⟩
  · rw [husb, List.mem_append, List.mem_singleton] at h
    exact h
  · exact Or.inl (husb ▸ h)

theorem Proxy.submits_poll (p : Proxy) (endpoint : UInt8) : p.Submits (p.poll endpoint).1 := by
  intro t ht
  change t ∈ (gusbPoll p.usb endpoint).1.transfers at ht
  unfold gusbPoll at ht
  cases hinfo : getEndpoint p.usb endpoint true with
  | none =>
      rw [hinfo] at ht
      exact Or.inl ht
  | some info =>
      rw [hinfo] at ht
      have hnumber : endpointNumber endpoint ≠ 0 :=
        endpointNumber_of_getEndpoint (by rw [hinfo]; exact Option.some_ne_none info)
      dsimp only at ht
      split at ht
      · refine (mem_submitTransfer ht).imp_right fun heq => ?_
        rw [heq]
        exact Or.inr hnumber
      · exact Or.inl ht

theorem Proxy.submits_gusbWrite (p : Proxy) (endpoint : UInt8) (buf : List UInt8) (count : ℕ)
    {q : Proxy} (hq : q.usb = (gusbWrite p.usb endpoint buf count).1) : p.Submits q := by
  intro t ht
  rw [hq] at ht
  unfold gusbWrite at ht
  split at ht
  next => exact Or.inl ht
  next hknown =>
    refine (mem_submitTransfer ht).imp_right fun heq => ?_
    rw [heq]
    rw [not_and_or, not_not] at hknown
    exact hknown.imp_right endpointNumber_of_getEndpoint

theorem submits_pollEndpoints (p : Proxy) (is : List ℕ) : p.Submits (pollEndpoints p is).1 := by
  induction is generalizing p with
  | nil => exact .of_eq rfl
  | cons i is ih =>
      have hpoll := p.submits_poll (p.serialToUsb.get (0x80 ||| i))
      rw [pollEndpoints]
      dsimp only
      split
      · split
        · exact hpoll
        · exact hpoll.trans (ih _)
      · exact ih p

theorem submits_ackIn (p : Proxy) : p.Submits (ackIn p).1 := by
  unfold ackIn
  split
  · dsimp only
    have hpoll := p.submits_poll p.inPending
    split
    · refine hpoll.trans (.of_eq ?_)
      exact congrArg Usb.transfers (usb_sendNextInPacket _)
    · exact hpoll
  · exact .of_eq rfl

theorem submits_dispatchPacket (p : Proxy) (packet : SPacket) :
    p.Submits (dispatchPacket p packet).1 := by
  have hsend : ∀ (q : Proxy) (type : PacketType) (data : List UInt8),
      p.usb = q.usb → p.Submits (q.send type data).1 :=
    fun q type data h => .of_eq (congrArg Usb.transfers h.symm)
  have hindex : p.Submits (sendIndex p).1 := by
    unfold sendIndex
    split
    · exact .of_eq rfl
    · exact hsend _ _ _ rfl
  have hendpoints : p.Submits (sendEndpoints p).1 := by
    unfold sendEndpoints
    split
    · exact .of_eq rfl
    · exact hsend _ _ _ rfl
  unfold dispatchPacket
  split
  · exact hindex
  · exact hendpoints
  · exact (Proxy.Submits.of_eq rfl).trans (submits_pollEndpoints { p with initTimer := -1 } _)
  · exact submits_ackIn p
  · exact p.submits_gusbWrite _ _ _ rfl
  · unfold sendControlPacket
    dsimp only
    split
    · exact hsend _ _ _ rfl
    · exact p.submits_gusbWrite _ _ _ rfl
  · exact .of_eq rfl
  · exact .of_eq rfl

theorem submits_processPacket (p : Proxy) (packet : SPacket) :
    p.Submits (processPacket p packet).1 := by
  have hdispatch := submits_dispatchPacket p packet
  unfold processPacket
  dsimp only
  split
  · exact hdispatch
  · exact hdispatch

theorem usb_usbReadCallback (p : Proxy) (endpoint : UInt8) (buf : List UInt8) (status : Int) :
    (usbReadCallback p endpoint buf status).1.usb = p.usb := by
  have hqueue := (keeps_queueInPacket p endpoint buf).2.1
  unfold usbReadCallback
  dsimp only
  split
  · rfl
  · split
    · split
      · rfl
      · split
        · split <;> rfl
        · split <;> rfl
    · split
      · rfl
      · split
        · split
          · exact hqueue
          · split
            · exact (usb_sendNextInPacket _).trans hqueue
            · exact (usb_sendNextInPacket _).trans hqueue
        · rfl

theorem usb_usbWriteCallback (p : Proxy) (endpoint : UInt8) (status : Int) :
    (usbWriteCallback p endpoint status).1.usb = p.usb := by
  unfold usbWriteCallback
  dsimp only
  split
  · rfl
  · split
    · split
      · split <;> rfl
      · rfl
    · split
      · rfl
      · split
        · split <;> rfl
        · rfl

theorem usb_callCallback (p : Proxy) (t : Transfer) (status : TransferStatus) :
    (callCallback p t status).usb = p.usb := by
  have hread := usb_usbReadCallback p t.endpoint status.data status.code
  have hwrite := usb_usbWriteCallback p t.endpoint status.code
  unfold callCallback
  split
  · rfl
  · split
    · split
      · exact hread
      · exact hwrite
    · split
      · exact hread
      · exact hwrite

structure TableUse where
  service : Service
  accesses : List TableAccess

def Service.accesses (s : Service) : ServiceEvent → List TableAccess
  | .complete i status =>
      match s.proxy.usb.transfers[i]? with
      | none => []
      | some t => callbackAccesses s.proxy t status
  | .bytes chunk =>
      match s.session.receiver.completed chunk with
      | none => []
      | some packet => packetAccesses s.proxy packet
  | .readError => []

def TableUse.next (realloc : ℕ → Bool) (s : TableUse) (e : ServiceEvent) : Option TableUse :=
  (s.service.next realloc e).map fun service => ⟨service, s.accesses ++ s.service.accesses e⟩

def TableUse.start (r : Receiver) (p : Proxy) (outside outside' : ℤ → UInt8)
    (cs : List Configuration) : TableUse :=
  let m := (fixEndpoints (EndpointMaps.start outside outside') cs).1
  let p := { p with
    serialToUsb := m.serialToUsb
    usbToSerial := m.usbToSerial
    endpoints := m.endpoints
    usb := { p.usb with transfers := [] } }
  { service := ⟨⟨r, p, []⟩, []⟩
    accesses := fixEndpointsAccesses (EndpointMaps.start outside outside') cs }

/-- Every access so far was in range. -/
def TableUse.InRange (s : TableUse) : Prop := AllInRange s.accesses

/-- The events that make no access out of range: a packet that is completed has addresses. -/
def TableUse.Fair (s : TableUse) : ServiceEvent → Prop
  | .bytes chunk => ∀ packet, s.service.session.receiver.completed chunk = some packet →
      packet.Addresses
  | _ => True

instance (s : TableUse) : (e : ServiceEvent) → Decidable (s.Fair e)
  | .bytes chunk => inferInstanceAs (Decidable (∀ packet,
      s.service.session.receiver.completed chunk = some packet → packet.Addresses))
  | .complete _ _ => inferInstanceAs (Decidable True)
  | .readError => inferInstanceAs (Decidable True)

def TableUse.Inv (s : TableUse) : Prop :=
  ∀ t ∈ s.service.proxy.usb.transfers, t.Addressed

theorem allInRange_readCallbackAccesses {p : Proxy} {endpoint : UInt8} (status : Int)
    (h : endpoint = 0 ∨ endpointNumber endpoint ≠ 0) :
    AllInRange (readCallbackAccesses p endpoint status) := by
  have hnone : AllInRange [] := fun _ hmem => absurd hmem List.not_mem_nil
  unfold readCallbackAccesses
  split
  next => exact hnone
  next hqueue =>
    rw [not_or, not_or] at hqueue
    have hnumber := h.resolve_left hqueue.2.1
    unfold queueAccesses
    split
    · exact hnone
    · refine List.forall_mem_cons.2 ⟨(macroAccess_byte_iff endpoint).2 hnumber, ?_⟩
      exact List.forall_mem_singleton.2 ((indexAccess_inRange_iff endpoint).2 hnumber)

theorem allInRange_callbackAccesses (p : Proxy) {t : Transfer} (status : TransferStatus)
    (h : t.Addressed) : AllInRange (callbackAccesses p t status) := by
  have hnone : AllInRange [] := fun _ hmem => absurd hmem List.not_mem_nil
  have hread := allInRange_readCallbackAccesses (p := p) status.code h
  unfold callbackAccesses
  split
  · exact hnone
  · split
    · split
      · exact hread
      · exact hnone
    · split
      · exact hread
      · exact hnone

section Step

variable {realloc : ℕ → Bool} {s s' : TableUse}

theorem TableUse.next_cases {e : ServiceEvent} (h : s.next realloc e = some s') :
    s.service.next realloc e = some s'.service ∧
      s'.accesses = s.accesses ++ s.service.accesses e := by
  obtain ⟨service, hservice, rfl⟩ := Option.map_eq_some_iff.1 h
  exact ⟨hservice, rfl⟩

/-- The accesses of an event are in range exactly when it is fair. -/
theorem TableUse.Inv.allInRange_iff (hinv : s.Inv) (e : ServiceEvent) :
    AllInRange (s.service.accesses e) ↔ s.Fair e := by
  have hnone : AllInRange [] := fun _ hmem => absurd hmem List.not_mem_nil
  cases e with
  | complete i status =>
      refine iff_of_true ?_ trivial
      unfold Service.accesses
      dsimp only
      cases ht : s.service.proxy.usb.transfers[i]? with
      | none => exact hnone
      | some t => exact allInRange_callbackAccesses _ status (hinv t (List.mem_of_getElem? ht))
  | bytes chunk =>
      unfold Service.accesses TableUse.Fair
      dsimp only
      cases hpacket : s.service.session.receiver.completed chunk with
      | none => exact iff_of_true hnone fun _ h => absurd h (by simp)
      | some packet =>
          refine (allInRange_packetAccesses_iff s.service.proxy packet).trans ?_
          simp
  | readError => exact iff_of_true hnone trivial

theorem TableUse.Inv.next (hinv : s.Inv) {e : ServiceEvent} (h : s.next realloc e = some s') :
    s'.Inv := by
  obtain ⟨_, _, hstep⟩ := Service.next_cases (TableUse.next_cases h).1
  unfold TableUse.Inv Service.proxy
  cases e with
  | complete i status =>
      obtain ⟨_, t, _, hsession, _⟩ := hstep
      rw [hsession]
      intro t' ht'
      have hmem := List.mem_of_mem_eraseIdx ht'
      rw [usb_callCallback] at hmem
      exact hinv t' hmem
  | bytes chunk =>
      rcases Session.user_recv_cases hstep.1 with huser | ⟨packet, huser⟩
      · rw [huser]
        exact hinv
      · rw [huser]
        exact (submits_processPacket s.service.proxy packet).addressed hinv
  | readError =>
      rw [hstep]
      exact hinv

end Step

/-- All accesses of a run are in range exactly when the description is numbered and every
packet that is delivered in the run has addresses. -/
theorem tableUse_inRange_iff {realloc : ℕ → Bool} {r : Receiver} {p : Proxy}
    {outside outside' : ℤ → UInt8} {cs : List Configuration} {es : List ServiceEvent}
    {s : TableUse}
    (hrun : exec (TableUse.next realloc) (TableUse.start r p outside outside' cs) es = some s) :
    Always (TableUse.next realloc) TableUse.InRange (TableUse.start r p outside outside' cs) es ↔
      Numbered cs ∧
        Along (TableUse.next realloc) TableUse.Fair (TableUse.start r p outside outside' cs)
          es := by
  have hstart : (TableUse.start r p outside outside' cs).InRange ↔ Numbered cs :=
    allInRange_fixEndpointsAccesses_iff outside outside' cs
  have hinv : (TableUse.start r p outside outside' cs).Inv :=
    fun _ ht => absurd ht List.not_mem_nil
  have hrest := fun hrange => always_iff_along (C := TableUse.Fair) (I := TableUse.Inv)
    (P := TableUse.InRange) (fun _ _ _ hs _ hnext => TableUse.Inv.next hs hnext)
    (fun s e t hs hrange hnext => by
      unfold TableUse.InRange at hrange ⊢
      rw [(TableUse.next_cases hnext).2, allInRange_append, TableUse.Inv.allInRange_iff hs e]
      exact and_iff_right hrange) hinv hrange hrun
  constructor
  · intro h
    exact ⟨hstart.1 h.head, (hrest h.head).1 h⟩
  · rintro ⟨hnumbered, halong⟩
    exact (hrest (hstart.2 hnumbered)).2 halong

/-- A request to the endpoint `0x81` and an OUT packet for the endpoint 1. -/
theorem tableUse_inRange_request :
    Always (TableUse.next fun _ => true) TableUse.InRange
      (TableUse.start Receiver.start oneInputProxy 0 0 [oneInput])
      [.bytes [], .bytes [4, 8], .bytes [2, 1, 0, 0, 0x81, 0, 0, 0], .bytes [7, 2],
        .bytes [1, 9]] := by
  have hrun : ((exec (TableUse.next fun _ => true)
      (TableUse.start Receiver.start oneInputProxy 0 0 [oneInput])
      [.bytes [], .bytes [4, 8], .bytes [2, 1, 0, 0, 0x81, 0, 0, 0], .bytes [7, 2],
        .bytes [1, 9]]).map fun s => s.accesses.length) = some 5 := by
    decide +kernel
  obtain ⟨s, hs, _⟩ := Option.map_eq_some_iff.1 hrun
  refine (tableUse_inRange_iff hs).2 ⟨⟨?_, ?_⟩, by decide +kernel⟩
  · decide +kernel
  · intro c hc
    obtain rfl := Option.some.inj hc
    decide +kernel

/-- The packet `E_TYPE_ENDPOINTS` of the firmware, with which it has taken the endpoints,
makes `poll_all_endpoints` read the element before the IN endpoints. -/
theorem tableUse_pollAllEndpoints :
    Numbered [oneInput] ∧
      ¬ Always (TableUse.next fun _ => true) TableUse.InRange
        (TableUse.start Receiver.start oneInputProxy 0 0 [oneInput])
        [.bytes [], .bytes [2, 0]] := by
  refine ⟨⟨by decide +kernel, ?_⟩, fun h => ?_⟩
  · intro c hc
    obtain rfl := Option.some.inj hc
    decide +kernel
  · have hrun : ((exec (TableUse.next fun _ => true)
        (TableUse.start Receiver.start oneInputProxy 0 0 [oneInput])
        [.bytes [], .bytes [2, 0]]).any fun s => decide (¬ AllInRange s.accesses)) = true := by
      decide +kernel
    obtain ⟨s, hs, hrange⟩ := (Option.any_eq_true _ _).1 hrun
    exact of_decide_eq_true hrange (h.last hs)

end SerialUsb
