import SerialUsb.Proxy.EndpointMaps
import SerialUsb.Proxy.Process

/-!
# What an event leaves to be served

An IN endpoint is served when it is polled, waits in the queue or has its packet at
the firmware. Each function of the proxy keeps the served endpoints, unless it ends
with an error; only the end of a poll without data takes one away.
-/

namespace SerialUsb

open Framing Memory

def Proxy.polled (p : Proxy) : List UInt8 := p.usb.transfers.map Transfer.endpoint

def Proxy.Queued (p : Proxy) (endpoint : UInt8) : Prop :=
  endpoint ∈ p.inEpFifo ∨ p.inPending = endpoint

/-- The endpoint is polled, queued or pending. -/
def Proxy.Served (p : Proxy) (endpoint : UInt8) : Prop :=
  endpoint ∈ p.polled ∨ p.Queued endpoint

instance (p : Proxy) (endpoint : UInt8) : Decidable (p.Served endpoint) :=
  inferInstanceAs (Decidable (_ ∨ _ ∨ _))

def Proxy.removeTransfer (p : Proxy) (i : ℕ) : Proxy :=
  { p with usb := { p.usb with transfers := p.usb.transfers.eraseIdx i } }

def Transfer.Valid (t : Transfer) : Prop :=
  (t.type = transferTypeControl ∧ t.endpoint = 0) ∨
    (t.type = transferTypeInterrupt ∧ t.endpoint ≠ 0)

structure Proxy.Stays (p q : Proxy) : Prop where
  valid : (∀ t ∈ p.usb.transfers, t.Valid) → ∀ t ∈ q.usb.transfers, t.Valid
  fault : q.fault = p.fault
  serialToUsb : q.serialToUsb = p.serialToUsb

structure Proxy.Keeps (p q : Proxy) : Prop extends p.Stays q where
  served : ∀ endpoint ≠ 0, p.Served endpoint → q.Served endpoint

theorem Proxy.Stays.trans {p q r : Proxy} (h : p.Stays q) (h' : q.Stays r) : p.Stays r where
  valid := fun hvalid => h'.valid (h.valid hvalid)
  fault := h'.fault.trans h.fault
  serialToUsb := h'.serialToUsb.trans h.serialToUsb

theorem Proxy.Keeps.refl (p : Proxy) : p.Keeps p := ⟨⟨fun h => h, rfl, rfl⟩, fun _ _ h => h⟩

theorem Proxy.Keeps.trans {p q r : Proxy} (h : p.Keeps q) (h' : q.Keeps r) : p.Keeps r where
  toStays := h.toStays.trans h'.toStays
  served := fun endpoint hne hserved => h'.served endpoint hne (h.served endpoint hne hserved)

theorem Proxy.Keeps.of_queued {p q : Proxy} (husb : q.usb.transfers = p.usb.transfers)
    (hqueued : ∀ endpoint ≠ 0, p.Queued endpoint → q.Queued endpoint)
    (hfault : q.fault = p.fault) (hmap : q.serialToUsb = p.serialToUsb) : p.Keeps q where
  valid := by
    rw [husb]
    exact fun h => h
  fault := hfault
  serialToUsb := hmap
  served := by
    intro endpoint hne hserved
    unfold Proxy.Served Proxy.polled
    rw [husb]
    exact hserved.imp_right (hqueued endpoint hne)

theorem Proxy.Keeps.of_eq {p q : Proxy} (husb : q.usb.transfers = p.usb.transfers)
    (hfifo : q.inEpFifo = p.inEpFifo) (hpending : q.inPending = p.inPending)
    (hfault : q.fault = p.fault) (hmap : q.serialToUsb = p.serialToUsb) : p.Keeps q := by
  refine .of_queued husb ?_ hfault hmap
  intro endpoint _ hqueued
  unfold Proxy.Queued
  rw [hfifo, hpending]
  exact hqueued

theorem Proxy.keeps_send (p : Proxy) (type : PacketType) (data : List UInt8) :
    p.Keeps (p.send type data).1 :=
  .of_eq rfl rfl rfl rfl rfl

theorem submitTransfer_cases (usb : Usb) (t : Transfer) :
    ((submitTransfer usb t).1.transfers = usb.transfers ++ [t] ∧ (submitTransfer usb t).2 = 0) ∨
      ((submitTransfer usb t).1.transfers = usb.transfers ∧ (submitTransfer usb t).2 = -1) := by
  unfold submitTransfer
  split
  · exact Or.inl ⟨rfl, rfl⟩
  · exact Or.inl ⟨rfl, rfl⟩
  · exact Or.inr ⟨rfl, rfl⟩

theorem Proxy.Keeps.of_append {p : Proxy} {usb : Usb} {ts : List Transfer}
    (husb : usb.transfers = p.usb.transfers ++ ts) (hvalid : ∀ t ∈ ts, t.Valid) :
    p.Keeps { p with usb := usb } where
  served := by
    intro endpoint _ hserved
    rcases hserved with hpolled | hrest
    · left
      unfold Proxy.polled at hpolled ⊢
      rw [husb, List.map_append]
      exact List.mem_append_left _ hpolled
    · exact Or.inr hrest
  valid := by
    intro hall t ht
    rw [husb] at ht
    rcases List.mem_append.1 ht with ht | ht
    · exact hall t ht
    · exact hvalid t ht
  fault := rfl
  serialToUsb := rfl

theorem getEndpoint_some {usb : Usb} {endpoint : UInt8} {info : EndpointInfo}
    (h : getEndpoint usb endpoint true = some info) :
    endpointIn endpoint = true ∧ endpointNumber endpoint ≠ 0 := by
  unfold getEndpoint at h
  split at h
  next => exact absurd h (by simp)
  next hin =>
    split at h
    next => exact absurd h (by simp)
    next hnumber => exact ⟨not_not.1 hin, hnumber⟩

theorem ne_zero_of_endpointNumber {endpoint : UInt8} (h : endpointNumber endpoint ≠ 0) :
    endpoint ≠ 0 := by
  rintro rfl
  exact h rfl

theorem gusbPoll_cases (usb : Usb) (endpoint : UInt8) :
    (∃ t : Transfer, t.endpoint = endpoint ∧ t.Valid ∧
        (gusbPoll usb endpoint).1.transfers = usb.transfers ++ [t] ∧
        (gusbPoll usb endpoint).2 = 0) ∨
      ((gusbPoll usb endpoint).1.transfers = usb.transfers ∧ (gusbPoll usb endpoint).2 = -1) := by
  unfold gusbPoll
  cases hinfo : getEndpoint usb endpoint true with
  | none => exact Or.inr ⟨rfl, rfl⟩
  | some info =>
      have hne := ne_zero_of_endpointNumber (getEndpoint_some hinfo).2
      by_cases htype : info.type = transferTypeInterrupt
      · dsimp only
        rw [if_pos htype]
        rcases submitTransfer_cases usb ⟨endpoint, transferTypeInterrupt,
          List.replicate info.size.toNat 0, info.size.toNat⟩ with h | h
        · exact Or.inl ⟨_, rfl, Or.inr ⟨rfl, hne⟩, h⟩
        · exact Or.inr h
      · dsimp only
        rw [if_neg htype]
        exact Or.inr ⟨rfl, rfl⟩

theorem Proxy.keeps_poll (p : Proxy) (endpoint : UInt8) : p.Keeps (p.poll endpoint).1 := by
  rcases gusbPoll_cases p.usb endpoint with ⟨t, _, hvalid, husb, _⟩ | ⟨husb, _⟩
  · refine .of_append husb fun t' ht' => ?_
    rw [List.mem_singleton.1 ht']
    exact hvalid
  · exact .of_eq husb rfl rfl rfl rfl

theorem gusbWrite_cases (usb : Usb) (endpoint : UInt8) (buf : List UInt8) (count : ℕ) :
    ∃ ts : List Transfer, ts.length ≤ 1 ∧
      (∀ t ∈ ts, t.endpoint = endpoint ∧
        t.type = if endpoint = 0 then transferTypeControl else transferTypeInterrupt) ∧
      (gusbWrite usb endpoint buf count).1.transfers = usb.transfers ++ ts := by
  unfold gusbWrite
  by_cases hinvalid : endpoint ≠ 0 ∧ getEndpoint usb endpoint false = none
  · rw [if_pos hinvalid]
    exact ⟨[], Nat.zero_le 1, by simp, (List.append_nil _).symm⟩
  · rw [if_neg hinvalid]
    dsimp only
    rcases submitTransfer_cases usb ⟨endpoint,
      if endpoint = 0 then transferTypeControl else transferTypeInterrupt,
      buf.take (writeCount endpoint buf count), writeCount endpoint buf count⟩ with h | h
    · refine ⟨_, le_refl 1, fun t ht => ?_, h.1⟩
      rw [List.mem_singleton.1 ht]
      exact ⟨rfl, rfl⟩
    · exact ⟨[], Nat.zero_le 1, by simp, h.1.trans (List.append_nil _).symm⟩

theorem usb_sendNextInPacket (p : Proxy) : (sendNextInPacket p).1.usb = p.usb := by
  unfold sendNextInPacket
  split
  · rfl
  · cases p.inEpFifo with
    | nil => rfl
    | cons endpoint rest =>
        dsimp only
        split
        · rfl
        · rfl

/-- The next packet that is sent moves from the queue to the firmware. -/
theorem queued_sendNextInPacket (p : Proxy) {endpoint : UInt8} (hne : endpoint ≠ 0)
    (h : p.Queued endpoint) : (sendNextInPacket p).1.Queued endpoint := by
  unfold sendNextInPacket
  split
  next => exact h
  next hpending =>
    cases hfifo : p.inEpFifo with
    | nil => exact h
    | cons first rest =>
        dsimp only
        split
        · exact h
        · rcases h with hqueued | hzero
          · rw [hfifo] at hqueued
            rcases List.mem_cons.1 hqueued with rfl | hrest
            · exact Or.inr rfl
            · exact Or.inl hrest
          · exact absurd (hzero.symm.trans (not_not.1 hpending)) hne

theorem keeps_sendNextInPacket (p : Proxy) : p.Keeps (sendNextInPacket p).1 := by
  refine .of_queued (congrArg Usb.transfers (usb_sendNextInPacket p))
    (fun _ hne => queued_sendNextInPacket p hne) ?_ ?_
  all_goals
    unfold sendNextInPacket
    split
    · rfl
    · cases p.inEpFifo with
      | nil => rfl
      | cons endpoint rest =>
          dsimp only
          split
          · rfl
          · rfl

theorem keeps_queueInPacket (p : Proxy) (endpoint : UInt8) (buf : List UInt8) :
    p.Keeps (queueInPacket p endpoint buf).1 ∧
      (queueInPacket p endpoint buf).1.usb = p.usb ∧
      ((queueInPacket p endpoint buf).2 < 0 ∨
        (queueInPacket p endpoint buf).1.Queued endpoint) := by
  unfold queueInPacket
  split
  · exact ⟨.refl p, rfl, Or.inl (show (-1 : Int) < 0 by decide)⟩
  · refine ⟨.of_queued rfl (fun o _ hqueued => ?_) rfl rfl, rfl, Or.inr (Or.inl ?_)⟩
    · exact hqueued.imp_left (List.mem_append_left _)
    · exact List.mem_append_right _ (List.mem_singleton_self _)

theorem keeps_pollEndpoints (p : Proxy) (is : List ℕ) : p.Keeps (pollEndpoints p is).1 := by
  induction is generalizing p with
  | nil => exact .refl p
  | cons i is ih =>
      have hpoll := p.keeps_poll (p.serialToUsb.get (0x80 ||| i))
      rw [pollEndpoints]
      dsimp only
      split
      · split
        · exact hpoll
        · exact hpoll.trans (ih _)
      · exact ih p

/-- The acknowledgement of a packet keeps the served endpoints, or fails. -/
theorem keeps_ackIn (p : Proxy) :
    p.Stays (ackIn p).1 ∧ ((ackIn p).2 < 0 ∨ p.Keeps (ackIn p).1) := by
  unfold ackIn
  split
  next hpending =>
    have hstays : p.Stays { (p.poll p.inPending).1 with inPending := 0 } :=
      ⟨(p.keeps_poll p.inPending).valid, rfl, rfl⟩
    dsimp only
    rcases gusbPoll_cases p.usb p.inPending with ⟨t, hendpoint, hvalid, husb, hret⟩ | ⟨_, hret⟩
    · have hret' : (p.poll p.inPending).2 = 0 := hret
      rw [hret', if_pos (by decide)]
      have hpolled : p.Keeps { (p.poll p.inPending).1 with inPending := 0 } := by
        refine ⟨hstays, ?_⟩
        intro o _ hserved
        change o ∈ (gusbPoll p.usb p.inPending).1.transfers.map Transfer.endpoint ∨ _
        rw [husb, List.map_append, List.mem_append, List.map_singleton, List.mem_singleton,
          hendpoint]
        rcases hserved with hpolled | hqueued | rfl
        · exact Or.inl (Or.inl hpolled)
        · exact Or.inr (Or.inl hqueued)
        · exact Or.inl (Or.inr rfl)
      have hkeeps := hpolled.trans (keeps_sendNextInPacket _)
      exact ⟨hkeeps.toStays, Or.inr hkeeps⟩
    · have hret' : (p.poll p.inPending).2 = -1 := hret
      rw [hret', if_neg (by decide)]
      exact ⟨hstays, Or.inl (show (-1 : Int) < 0 by decide)⟩
  next => exact ⟨(Proxy.Keeps.refl p).toStays, Or.inr (.refl p)⟩

/-- When `poll_all_endpoints` does not fail, it has polled every entry. -/
theorem polled_pollEndpoints {p : Proxy} {is : List ℕ} (h : 0 ≤ (pollEndpoints p is).2) {i : ℕ}
    (hi : i ∈ is) (hne : p.serialToUsb.get (0x80 ||| i) ≠ 0) :
    (pollEndpoints p is).1.Served (p.serialToUsb.get (0x80 ||| i)) := by
  induction is generalizing p with
  | nil => exact absurd hi List.not_mem_nil
  | cons j is ih =>
      rw [pollEndpoints] at h ⊢
      dsimp only at h ⊢
      by_cases hzero : p.serialToUsb.get (0x80 ||| j) = 0
      · rw [if_neg (not_not.2 hzero)] at h ⊢
        rcases List.mem_cons.1 hi with rfl | hi
        · exact absurd hzero hne
        · exact ih h hi hne
      · rw [if_pos hzero] at h ⊢
        by_cases hfails : (p.poll (p.serialToUsb.get (0x80 ||| j))).2 < 0
        · rw [if_pos hfails] at h
          exact absurd h (not_le.2 hfails)
        · rw [if_neg hfails] at h ⊢
          rcases List.mem_cons.1 hi with rfl | hi
          · refine (keeps_pollEndpoints _ is).served _ hne (Or.inl ?_)
            rcases gusbPoll_cases p.usb (p.serialToUsb.get (0x80 ||| i)) with
              ⟨t, hendpoint, _, husb, _⟩ | ⟨_, hret⟩
            · change _ ∈ (gusbPoll p.usb _).1.transfers.map Transfer.endpoint
              rw [husb, List.map_append, List.mem_append, List.map_singleton,
                List.mem_singleton]
              exact Or.inr hendpoint.symm
            · exact absurd (hret.trans_lt (by decide)) hfails
          · exact ih h hi hne

/-- The `memcpy` that `gusb_write` makes for an OUT packet goes past the packet. -/
def Proxy.outFaults (p : Proxy) (packet : SPacket) : Bool :=
  writeFaults p.usb (p.serialToUsb.get (packet.value.headD 0).toNat) (packet.value.drop 1)
    (unsignedSub packet.length.toNat 1)

theorem keeps_gusbWrite (p : Proxy) (endpoint : UInt8) (buf : List UInt8) (count : ℕ) :
    p.Keeps { p with usb := (gusbWrite p.usb endpoint buf count).1 } := by
  obtain ⟨ts, _, htype, husb⟩ := gusbWrite_cases p.usb endpoint buf count
  refine .of_append husb fun t ht => ?_
  obtain ⟨hendpoint, htype⟩ := htype t ht
  by_cases hzero : endpoint = 0
  · exact Or.inl ⟨htype.trans (if_pos hzero), hendpoint.trans hzero⟩
  · exact Or.inr ⟨htype.trans (if_neg hzero), hendpoint ▸ hzero⟩

theorem keeps_sendOutPacket {p : Proxy} {packet : SPacket} (h : p.outFaults packet = false) :
    p.Keeps (sendOutPacket p packet).1 := by
  have hfault : (sendOutPacket p packet).1 =
      { p with usb := (sendOutPacket p packet).1.usb } := by
    have hrest : (p.fault || p.outFaults packet) = p.fault := by rw [h, Bool.or_false]
    unfold sendOutPacket
    dsimp only
    unfold Proxy.outFaults at hrest
    rw [hrest]
  rw [hfault]
  exact keeps_gusbWrite p _ _ _

theorem keeps_sendControlPacket (p : Proxy) (packet : SPacket) :
    p.Keeps (sendControlPacket p packet).1 := by
  unfold sendControlPacket
  dsimp only
  split
  · exact p.keeps_send _ _
  · exact keeps_gusbWrite p 0 _ _

theorem keeps_dispatchPacket {p : Proxy} {packet : SPacket}
    (h : packet.type = PacketType.eTypeOut.toByte → p.outFaults packet = false) :
    p.Stays (dispatchPacket p packet).1 ∧
      ((dispatchPacket p packet).2.2 < 0 ∨ p.Keeps (dispatchPacket p packet).1) := by
  have of_keeps : ∀ {q : Proxy} {ret : Int}, p.Keeps q → p.Stays q ∧ (ret < 0 ∨ p.Keeps q) :=
    fun hq => ⟨hq.toStays, Or.inr hq⟩
  cases htype : PacketType.ofByte? packet.type with
  | none =>
      simp only [dispatchPacket, htype]
      exact of_keeps (.refl p)
  | some type =>
      cases type <;> simp only [dispatchPacket, htype]
      case eTypeDescriptors =>
        unfold sendIndex
        split
        · exact of_keeps (.refl p)
        · exact of_keeps (.of_eq rfl rfl rfl rfl rfl)
      case eTypeIndex =>
        unfold sendEndpoints
        split
        · exact of_keeps (.refl p)
        · exact of_keeps (.of_eq rfl rfl rfl rfl rfl)
      case eTypeEndpoints =>
        have htimer : p.Keeps { p with initTimer := -1 } := .of_eq rfl rfl rfl rfl rfl
        exact of_keeps (htimer.trans (keeps_pollEndpoints _ (List.range endpointMaxNumber)))
      case eTypeControl => exact of_keeps (keeps_sendControlPacket p packet)
      case eTypeIn => exact keeps_ackIn p
      case eTypeOut =>
        exact of_keeps (keeps_sendOutPacket (h (PacketType.eq_toByte_of_ofByte? htype)))
      all_goals exact of_keeps (.refl p)

/-- A packet keeps the served endpoints, or sets `done`. -/
theorem keeps_processPacket {p : Proxy} {packet : SPacket}
    (h : packet.type = PacketType.eTypeOut.toByte → p.outFaults packet = false) :
    p.Stays (processPacket p packet).1 ∧
      ((processPacket p packet).1.done = true ∨ p.Keeps (processPacket p packet).1) := by
  obtain ⟨hstays, hkeeps⟩ := keeps_dispatchPacket h
  unfold processPacket
  dsimp only
  split
  next => exact ⟨⟨hstays.valid, hstays.fault, hstays.serialToUsb⟩, Or.inl rfl⟩
  next hret => exact ⟨hstays, Or.inr (hkeeps.resolve_left hret)⟩

theorem fault_processPacket {p : Proxy} {packet : SPacket}
    (htype : packet.type = PacketType.eTypeOut.toByte) (h : p.outFaults packet = true) :
    (processPacket p packet).1.fault = true := by
  have hout : (sendOutPacket p packet).1.fault = true := by
    change (p.fault || p.outFaults packet) = true
    rw [h, Bool.or_true]
  have hdispatch : dispatchPacket p packet =
      ((sendOutPacket p packet).1, packet, (sendOutPacket p packet).2) := by
    unfold dispatchPacket
    rw [htype, PacketType.ofByte?_toByte]
  unfold processPacket
  rw [hdispatch]
  dsimp only
  split
  · exact hout
  · exact hout

end SerialUsb
