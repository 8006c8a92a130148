import SerialUsb.Adapter.Resume
import SerialUsb.Proxy.Callbacks
import SerialUsb.Proxy.EndpointRequests
import SerialUsb.Proxy.InPackets
import SerialUsb.Transition.Run

/-!
# What the proxy serves

The proxy behind `poll_all_endpoints` handles one event after the other: a transfer of
its table ends with any status, a `read` of the serial device returns any bytes or
fails. The results that the callbacks return are not looked at, the main loop only
tests `done`. `service_kept_iff` says which events leave something unserved.
-/

namespace SerialUsb

open Framing Memory Transition

/-- `fix_endpoints` gives no endpoint the IN address with the number 15, which
`poll_all_endpoints` does not look at. -/
theorem fixEndpoints_serialToUsb_last (outside outside' : ℤ → UInt8) (cs : List Configuration) :
    (fixEndpoints (EndpointMaps.start outside outside') cs).1.serialToUsb.get 0x8f = 0 := by
  have hstart : (EndpointMaps.start outside outside').serialToUsb.get 0x8f = 0 := by
    have hindex : 0 ≤ tableIndex 0x8f ∧ tableIndex 0x8f < 30 := by decide
    unfold EndpointTable.get EndpointMaps.start
    rw [dif_pos hindex]
    exact Vector.getElem_replicate _
  cases cs with
  | nil => exact hstart
  | cons c cs =>
      have htracks := tracks_fixEndpoints outside outside' c cs 0x8f (by decide)
      have hother : slot 0x8f ∉ (c.addresses.map fun q => (slot q.2, q.1)).map Prod.fst := by
        intro hmem
        rw [List.map_map] at hmem
        obtain ⟨q, hq, hslot⟩ := List.mem_map.1 hmem
        obtain ⟨e, he, rfl⟩ := List.mem_map.1 hq
        have hnumber := endpointNumber_targetAddress_le he
        have hlt := (targetAddress c.renumber e).toNat_lt
        change tableIndex (targetAddress c.renumber e).toNat = tableIndex 0x8f at hslot
        unfold endpointNumber at hnumber
        rw [maxEndpoints_eq] at hnumber
        rw [tableIndex_eq, tableIndex_eq] at hslot
        omega
      rw [(fixEndpoints_cons outside outside' c cs).2, backward, assignAll_of_not_mem hother]
        at htracks
      exact htracks.trans hstart

def Proxy.registered (p : Proxy) : List UInt8 :=
  ((List.range' 1 endpointMaxNumber).map fun i => p.serialToUsb.get (0x80 ||| i)).filter
    fun endpoint => endpointIn endpoint

theorem Proxy.ne_zero_of_mem_registered {p : Proxy} {endpoint : UInt8}
    (h : endpoint ∈ p.registered) : endpoint ≠ 0 := by
  rintro rfl
  exact absurd (List.mem_filter.1 h).2 (by decide)

structure Service where
  session : Session Proxy
  replies : List (List UInt8)

def Service.proxy (s : Service) : Proxy := s.session.user

def Service.start (r : Receiver) (p : Proxy) : Service :=
  ⟨⟨r, (pollAllEndpoints p).1, []⟩, []⟩

inductive ServiceEvent where
  /-- the transfer at a position of the table ends -/
  | complete (i : ℕ) (status : TransferStatus)
  /-- a `read` of the adapter returns bytes -/
  | bytes (chunk : List UInt8)
  /-- a `read` of the adapter fails -/
  | readError

/-- The main loop of `proxy_start`. Transfers are cancelled behind it only. -/
def Service.next (realloc : ℕ → Bool) (s : Service) (e : ServiceEvent) : Option Service :=
  if s.proxy.done = true ∨ s.proxy.fault = true then none
  else
    match e with
    | .complete i status =>
        if status = .cancelled then none
        else
          s.proxy.usb.transfers[i]?.bind fun t =>
            (usbCallback s.proxy i status).map fun p =>
              { session := { s.session with user := p }
                replies := s.replies ++
                  if t.type = transferTypeControl then [s.proxy.replied p] else [] }
    | .bytes chunk =>
        (s.session.recv realloc processPacket chunk).map fun session => { s with session := session }
    | .readError =>
        let res := adapterRecv realloc processPacket s.session.receiver s.proxy none
        some { s with session :=
          ⟨res.receiver, res.user, s.session.delivered ++ res.delivered.toList⟩ }

/-- Nothing is left unserved: the IN endpoints are polled, queued or pending, each
completed control transfer has put exactly one reply on the line, and the adapter
still receives. -/
structure Service.Serves (realloc : ℕ → Bool) (s : Service) : Prop where
  endpoints : ∀ endpoint ∈ s.proxy.registered, s.proxy.Served endpoint
  replies : ∀ bytes ∈ s.replies, IsReply bytes
  receives : s.session.receiver.Resumes realloc processPacket s.proxy

/-- The event was handled without a copy behind the end of the memory, and the proxy
ends or serves. -/
def Service.Kept (realloc : ℕ → Bool) (s : Service) : Prop :=
  s.proxy.fault = false ∧ (s.proxy.done = true ∨ s.Serves realloc)

/-- The events that leave nothing unserved. A control transfer is answered; the end of
a poll brings data, or its endpoint is served otherwise; no header announces 255
bytes; and an OUT packet has a value. -/
def Service.Safe (s : Service) : ServiceEvent → Prop
  | .complete i status => ∀ t, s.proxy.usb.transfers[i]? = some t →
      if t.type = transferTypeControl then t.Answered status s.proxy.serial.nextWrite
      else t.endpoint ∈ s.proxy.registered →
        (∃ data, status = .completed data) ∨ (s.proxy.removeTransfer i).Served t.endpoint
  | .bytes chunk => ¬ Oversized 254 (s.session.receiver.stored ++ chunk) ∧
      ∀ packet, s.session.receiver.completed chunk = some packet →
        packet.type = PacketType.eTypeOut.toByte → s.proxy.outFaults packet = false
  | .readError => True

instance decidableForallSome {α : Type*} (o : Option α) (P : α → Prop)
    [∀ a, Decidable (P a)] : Decidable (∀ a, o = some a → P a) :=
  match o with
  | none => isTrue (by simp)
  | some a => decidable_of_iff (P a) (by simp)

instance (status : TransferStatus) : Decidable (∃ data, status = .completed data) :=
  match status with
  | .completed data => isTrue ⟨data, rfl⟩
  | .timedOut => isFalse (by simp)
  | .stall => isFalse (by simp)
  | .cancelled => isFalse (by simp)
  | .error => isFalse (by simp)

instance (s : Service) (e : ServiceEvent) : Decidable (s.Safe e) := by
  unfold Service.Safe
  cases e <;> infer_instance

structure Service.Ready (r : Receiver) (p : Proxy) : Prop where
  waiting : r.Waiting
  fits : ¬ Oversized 254 r.stored
  polled : 0 ≤ (pollAllEndpoints p).2
  transfers : ∀ t ∈ p.usb.transfers, t.Valid
  tables : ∃ (outside outside' : ℤ → UInt8) (cs : List Configuration),
    p.serialToUsb = (fixEndpoints (EndpointMaps.start outside outside') cs).1.serialToUsb
  fault : p.fault = false

theorem Proxy.registered_congr {p q : Proxy} (h : q.serialToUsb = p.serialToUsb) :
    q.registered = p.registered := by
  unfold Proxy.registered
  rw [h]

theorem Proxy.Keeps.registered {p q : Proxy} (hkeeps : p.Keeps q)
    (h : ∀ endpoint ∈ p.registered, p.Served endpoint) :
    ∀ endpoint ∈ q.registered, q.Served endpoint := by
  rw [Proxy.registered_congr hkeeps.serialToUsb]
  intro endpoint hmem
  exact hkeeps.served endpoint (Proxy.ne_zero_of_mem_registered hmem) (h endpoint hmem)

theorem Proxy.served_removeTransfer {p : Proxy} {i : ℕ} {t : Transfer}
    (ht : p.usb.transfers[i]? = some t) {endpoint : UInt8} (hne : endpoint ≠ t.endpoint)
    (h : p.Served endpoint) : (p.removeTransfer i).Served endpoint := by
  rcases h with hpolled | hqueued
  · left
    obtain ⟨t', hmem, rfl⟩ := List.mem_map.1 hpolled
    obtain ⟨j, hj, hget⟩ := List.mem_iff_getElem.1 hmem
    have hij : j ≠ i := by
      rintro rfl
      rw [List.getElem?_eq_getElem hj, hget, Option.some.injEq] at ht
      exact hne (congrArg Transfer.endpoint ht)
    exact List.mem_map_of_mem (List.mem_eraseIdx_iff_getElem.2 ⟨j, hj, hij, hget⟩)
  · exact Or.inr hqueued

structure Service.Inv (s : Service) : Prop where
  waiting : s.session.receiver.Waiting
  valid : ∀ t ∈ s.proxy.usb.transfers, t.Valid

section Step

variable {realloc : ℕ → Bool} {s s' : Service}

theorem Service.next_cases {e : ServiceEvent} (h : s.next realloc e = some s') :
    s.proxy.done = false ∧ s.proxy.fault = false ∧
      match e with
      | .complete i status => status ≠ .cancelled ∧ ∃ t, s.proxy.usb.transfers[i]? = some t ∧
          let q := callCallback s.proxy t status
          s'.session = { s.session with user := q.removeTransfer i } ∧
            s'.replies = s.replies ++
              if t.type = transferTypeControl then [s.proxy.replied q] else []
      | .bytes chunk => s.session.recv realloc processPacket chunk = some s'.session ∧
          s'.replies = s.replies
      | .readError => s' = s := by
  unfold Service.next at h
  split at h
  next => exact absurd h (by simp)
  next hruns =>
    rw [not_or, Bool.not_eq_true, Bool.not_eq_true] at hruns
    refine ⟨hruns.1, hruns.2, ?_⟩
    cases e with
    | complete i status =>
        dsimp only at h ⊢
        by_cases hstatus : status = .cancelled
        · rw [if_pos hstatus] at h
          exact absurd h (by simp)
        · rw [if_neg hstatus] at h
          obtain ⟨t, ht, hmap⟩ := Option.bind_eq_some_iff.1 h
          obtain ⟨p, hp, rfl⟩ := Option.map_eq_some_iff.1 hmap
          unfold usbCallback at hp
          rw [ht, Option.map_some, Option.some.injEq] at hp
          subst hp
          exact ⟨hstatus, t, ht, rfl, rfl⟩
    | bytes chunk =>
        dsimp only at h ⊢
        obtain ⟨session, hsession, rfl⟩ := Option.map_eq_some_iff.1 h
        exact ⟨hsession, rfl⟩
    | readError =>
        dsimp only at h ⊢
        rw [← Option.some.inj h]
        unfold adapterRecv
        simp only [Option.toList_none, List.append_nil]
        rfl

theorem Proxy.valid_removeTransfer {p : Proxy} (h : ∀ t ∈ p.usb.transfers, t.Valid) (i : ℕ) :
    ∀ t ∈ (p.removeTransfer i).usb.transfers, t.Valid :=
  fun t ht => h t (List.mem_of_mem_eraseIdx ht)

/-- The end of a control transfer leaves nothing unserved when it is answered. -/
theorem Service.Serves.control (halloc : ∀ n, realloc n = true) (hinv : s.Inv)
    (hserves : s.Serves realloc) (hdone : s.proxy.done = false) (hfault : s.proxy.fault = false)
    {i : ℕ} {t : Transfer} (ht : s.proxy.usb.transfers[i]? = some t)
    (htype : t.type = transferTypeControl) (hzero : t.endpoint = 0) {status : TransferStatus}
    (hstatus : status ≠ .cancelled)
    (hsession : s'.session =
      { s.session with user := (callCallback s.proxy t status).removeTransfer i })
    (hreplies : s'.replies = s.replies ++ [s.proxy.replied (callCallback s.proxy t status)]) :
    s'.Kept realloc ↔ t.Answered status s.proxy.serial.nextWrite := by
  obtain ⟨hkeeps, husb, hanswered⟩ := answered_iff hdone htype hzero hstatus
  have hproxy : s'.proxy = (callCallback s.proxy t status).removeTransfer i :=
    congrArg Session.user hsession
  have hfault' : s'.proxy.fault = false := by
    rw [hproxy]
    exact hkeeps.fault.trans hfault
  have hreceiver : s'.session.receiver = s.session.receiver := by rw [hsession]
  have hmem : s.proxy.replied (callCallback s.proxy t status) ∈ s'.replies := by
    rw [hreplies]
    exact List.mem_append_right _ (List.mem_singleton_self _)
  have hserves' : IsReply (s.proxy.replied (callCallback s.proxy t status)) →
      s'.Serves realloc := by
    intro hreply
    constructor
    case endpoints =>
      rw [hproxy]
      intro endpoint hmem
      have hne := Proxy.ne_zero_of_mem_registered hmem
      refine Proxy.served_removeTransfer (husb ▸ ht) (hzero ▸ hne) ?_
      exact hkeeps.registered hserves.endpoints endpoint hmem
    case replies =>
      rw [hreplies]
      intro bytes hbytes
      rcases List.mem_append.1 hbytes with hold | hnew
      · exact hserves.replies bytes hold
      · rw [List.mem_singleton.1 hnew]
        exact hreply
    case receives =>
      rw [hreceiver]
      exact (Receiver.resumes_iff halloc hinv.waiting _).2
        ((Receiver.resumes_iff halloc hinv.waiting _).1 hserves.receives)
  rw [← hanswered]
  unfold Service.Kept
  rw [and_iff_right hfault', hproxy]
  exact or_congr_right ⟨fun h => h.replies _ hmem, hserves'⟩

/-- The end of another transfer leaves nothing unserved when it brings data or its
endpoint is served otherwise. -/
theorem Service.Serves.interrupt (halloc : ∀ n, realloc n = true) (hinv : s.Inv)
    (hserves : s.Serves realloc) (hdone : s.proxy.done = false) (hfault : s.proxy.fault = false)
    {i : ℕ} {t : Transfer} (ht : s.proxy.usb.transfers[i]? = some t)
    (htype : t.type = transferTypeInterrupt) (hne : t.endpoint ≠ 0) {status : TransferStatus}
    (hstatus : status ≠ .cancelled)
    (hsession : s'.session =
      { s.session with user := (callCallback s.proxy t status).removeTransfer i })
    (hreplies : s'.replies = s.replies) :
    s'.Kept realloc ↔ (t.endpoint ∈ s.proxy.registered →
      (∃ data, status = .completed data) ∨ (s.proxy.removeTransfer i).Served t.endpoint) := by
  have hproxy : s'.proxy = (callCallback s.proxy t status).removeTransfer i :=
    congrArg Session.user hsession
  have hserves' : (∀ endpoint ∈ s'.proxy.registered, s'.proxy.Served endpoint) →
      s'.Serves realloc := by
    intro hendpoints
    refine ⟨hendpoints, hreplies ▸ hserves.replies, ?_⟩
    have hreceiver : s'.session.receiver = s.session.receiver := by rw [hsession]
    rw [hreceiver]
    exact (Receiver.resumes_iff halloc hinv.waiting _).2
      ((Receiver.resumes_iff halloc hinv.waiting _).1 hserves.receives)
  rcases callCallback_interrupt s.proxy htype hne hstatus with
    ⟨hkeeps, husb, _, hdata, hqueued⟩ | ⟨hsame, hnone⟩
  · refine iff_of_true ⟨?_, ?_⟩ fun _ => Or.inl hdata
    · rw [hproxy]
      exact hkeeps.fault.trans hfault
    · refine hqueued.imp (fun h => hproxy ▸ h) fun hqueued => hserves' ?_
      rw [hproxy]
      intro endpoint hmem
      by_cases heq : endpoint = t.endpoint
      · exact heq ▸ Or.inr hqueued
      · exact Proxy.served_removeTransfer (husb ▸ ht) heq
          (hkeeps.registered hserves.endpoints endpoint hmem)
  · rw [hsame] at hproxy
    have hregistered : s'.proxy.registered = s.proxy.registered :=
      hproxy ▸ Proxy.registered_congr rfl
    have hrunning : ¬ s'.proxy.done = true := by
      rw [hproxy]
      exact hdone ▸ Bool.false_ne_true
    unfold Service.Kept
    rw [and_iff_right (hproxy ▸ hfault), or_iff_right hrunning]
    constructor
    · intro h hmem
      exact Or.inr (hproxy ▸ h.endpoints t.endpoint (hregistered ▸ hmem))
    · intro h
      refine hserves' fun endpoint hmem => ?_
      rw [hregistered] at hmem
      rw [hproxy]
      by_cases heq : endpoint = t.endpoint
      · subst heq
        rcases h hmem with ⟨data, hdata⟩ | hserved
        · exact absurd hdata (hnone (List.mem_filter.1 hmem).2 data)
        · exact hserved
      · exact Proxy.served_removeTransfer ht heq (hserves.endpoints endpoint hmem)

/-- Bytes leave nothing unserved when no header announces too much and no OUT packet
is empty. -/
theorem Service.Serves.bytes (halloc : ∀ n, realloc n = true) (hinv : s.Inv)
    (hserves : s.Serves realloc) (hdone : s.proxy.done = false) (hfault : s.proxy.fault = false)
    {chunk : List UInt8} (hrecv : s.session.recv realloc processPacket chunk = some s'.session)
    (hreplies : s'.replies = s.replies) :
    s'.Kept realloc ↔ s.Safe (.bytes chunk) := by
  have hdelivered := Session.delivered_recv hrecv
  have hwait' := Session.waiting_recv halloc hinv.waiting hrecv
  have hresumes := (Receiver.resumes_iff halloc hinv.waiting _).1 hserves.receives
  rcases Session.recv_cases halloc hinv.waiting hrecv with
    ⟨hover, _⟩ | ⟨_, hstored, huser, hnothing⟩ | ⟨_, hstored, p, hp, huser, hpacket⟩
  · exact absurd hover hresumes
  · have hproxy : s'.proxy = s.proxy := huser
    have hcompleted : s.session.receiver.completed chunk = none := by
      rw [hnothing, List.self_eq_append_right, Option.toList_eq_nil_iff] at hdelivered
      exact hdelivered
    have hrunning : ¬ s'.proxy.done = true := by
      rw [hproxy]
      exact hdone ▸ Bool.false_ne_true
    unfold Service.Kept Service.Safe
    dsimp only
    rw [and_iff_right (hproxy ▸ hfault), or_iff_right hrunning, hcompleted, ← hstored,
      ← Receiver.resumes_iff halloc hwait' s'.proxy]
    refine ⟨fun h => ⟨h.receives, fun _ hnone => absurd hnone (by simp)⟩, fun h => ⟨?_, ?_, h.1⟩⟩
    · exact hproxy ▸ hserves.endpoints
    · exact hreplies ▸ hserves.replies
  · have hproxy : s'.proxy = (processPacket s.proxy p).1 := huser
    have hcompleted := Session.completed_of_delivered hrecv hpacket
    have hfits : ¬ Oversized 254 (s.session.receiver.stored ++ chunk) := by
      rw [hp]
      exact p.frame.not_oversized maxPacketValueSize_lt
    by_cases hout : p.type = PacketType.eTypeOut.toByte → s.proxy.outFaults p = false
    · obtain ⟨hstays, hkeeps⟩ := keeps_processPacket hout
      refine iff_of_true ⟨?_, ?_⟩ ⟨hfits, fun packet hsome => ?_⟩
      · rw [hproxy]
        exact hstays.fault.trans hfault
      · refine hkeeps.imp (fun h => hproxy ▸ h) fun hkeeps => ⟨?_, ?_, ?_⟩
        · rw [hproxy]
          exact hkeeps.registered hserves.endpoints
        · exact hreplies ▸ hserves.replies
        · refine (Receiver.resumes_iff halloc hwait' _).2 ?_
          rw [hstored]
          exact id
      · rw [hcompleted, Option.some.injEq] at hsome
        exact hsome ▸ hout
    · rw [Classical.not_imp, Bool.not_eq_false] at hout
      refine iff_of_false (fun h => ?_) fun h => ?_
      · have hfaults := fault_processPacket hout.1 hout.2
        rw [← hproxy, h.1] at hfaults
        exact Bool.false_ne_true hfaults
      · have hnot := h.2 p hcompleted hout.1
        rw [hout.2] at hnot
        exact Bool.false_ne_true hnot.symm

theorem Service.Inv.next (halloc : ∀ n, realloc n = true) (hinv : s.Inv) {e : ServiceEvent}
    (hsafe : s.Safe e) (h : s.next realloc e = some s') : s'.Inv := by
  obtain ⟨hdone, _, hstep⟩ := Service.next_cases h
  cases e with
  | complete i status =>
      obtain ⟨hstatus, t, ht, hsession, _⟩ := hstep
      have hkeeps : s.proxy.Keeps (callCallback s.proxy t status) := by
        rcases hinv.valid t (List.mem_of_getElem? ht) with ⟨htype, hzero⟩ | ⟨htype, hne⟩
        · exact (answered_iff hdone htype hzero hstatus).1
        · rcases callCallback_interrupt s.proxy htype hne hstatus with ⟨hkeeps, _⟩ | ⟨hsame, _⟩
          · exact hkeeps
          · rw [hsame]
            exact .refl _
      constructor
      case waiting =>
        rw [hsession]
        exact hinv.waiting
      case valid =>
        rw [Service.proxy, hsession]
        exact Proxy.valid_removeTransfer (hkeeps.valid hinv.valid) i
  | bytes chunk =>
      obtain ⟨hrecv, _⟩ := hstep
      refine ⟨Session.waiting_recv halloc hinv.waiting hrecv, ?_⟩
      rcases Session.recv_cases halloc hinv.waiting hrecv with
        ⟨_, hsame⟩ | ⟨_, _, huser, _⟩ | ⟨_, _, p, _, huser, hpacket⟩
      · rw [Service.proxy, hsame]
        exact hinv.valid
      · rw [Service.proxy, huser]
        exact hinv.valid
      · have hcompleted := Session.completed_of_delivered hrecv hpacket
        rw [Service.proxy, huser]
        exact (keeps_processPacket (hsafe.2 p hcompleted)).1.valid hinv.valid
  | readError =>
      rw [hstep]
      exact hinv

/-- An event leaves nothing unserved exactly when it is safe. -/
theorem Service.kept_iff_safe (halloc : ∀ n, realloc n = true) (hinv : s.Inv)
    (hkept : s.Kept realloc) {e : ServiceEvent} (h : s.next realloc e = some s') :
    s'.Kept realloc ↔ s.Safe e := by
  obtain ⟨hdone, hfault, hstep⟩ := Service.next_cases h
  have hserves : s.Serves realloc :=
    hkept.2.resolve_left (hdone ▸ Bool.false_ne_true)
  cases e with
  | complete i status =>
      obtain ⟨hstatus, t, ht, hsession, hreplies⟩ := hstep
      have hsafe : s.Safe (.complete i status) ↔
          if t.type = transferTypeControl then t.Answered status s.proxy.serial.nextWrite
          else t.endpoint ∈ s.proxy.registered →
            (∃ data, status = .completed data) ∨ (s.proxy.removeTransfer i).Served t.endpoint := by
        refine ⟨fun h => h t ht, fun h t' ht' => ?_⟩
        rw [ht, Option.some.injEq] at ht'
        exact ht' ▸ h
      rw [hsafe]
      rcases hinv.valid t (List.mem_of_getElem? ht) with ⟨htype, hzero⟩ | ⟨htype, hne⟩
      · rw [if_pos htype] at hreplies ⊢
        exact hserves.control halloc hinv hdone hfault ht htype hzero hstatus hsession hreplies
      · have hnot : ¬ t.type = transferTypeControl := by
          rw [htype]
          decide
        rw [if_neg hnot, List.append_nil] at hreplies
        rw [if_neg hnot]
        exact hserves.interrupt halloc hinv hdone hfault ht htype hne hstatus hsession hreplies
  | bytes chunk => exact hserves.bytes halloc hinv hdone hfault hstep.1 hstep.2
  | readError => exact iff_of_true (hstep ▸ hkept) trivial

end Step

/-- Behind `poll_all_endpoints` every registered endpoint is polled. -/
theorem Service.Ready.served {r : Receiver} {p : Proxy} (h : Service.Ready r p) :
    ∀ endpoint ∈ (pollAllEndpoints p).1.registered,
      (pollAllEndpoints p).1.Served endpoint := by
  obtain ⟨outside, outside', cs, htables⟩ := h.tables
  have hmap : (pollAllEndpoints p).1.serialToUsb = p.serialToUsb :=
    (keeps_pollEndpoints p _).serialToUsb
  rw [Proxy.registered_congr hmap]
  intro endpoint hmem
  have hne := Proxy.ne_zero_of_mem_registered hmem
  obtain ⟨i, hi, rfl⟩ := List.mem_map.1 (List.mem_filter.1 hmem).1
  rw [List.mem_range'_1, endpointMaxNumber_eq] at hi
  by_cases hlast : i = 15
  · subst hlast
    rw [htables] at hne
    exact absurd (fixEndpoints_serialToUsb_last outside outside' cs) hne
  · exact polled_pollEndpoints h.polled
      (List.mem_range.2 (by rw [endpointMaxNumber_eq]; omega)) hne

theorem Service.Ready.kept {realloc : ℕ → Bool} (halloc : ∀ n, realloc n = true) {r : Receiver}
    {p : Proxy} (h : Service.Ready r p) : (Service.start r p).Kept realloc := by
  refine ⟨((keeps_pollEndpoints p _).fault).trans h.fault, Or.inr ⟨h.served, ?_, ?_⟩⟩
  · exact fun _ hmem => absurd hmem List.not_mem_nil
  · exact (Receiver.resumes_iff halloc h.waiting _).2 h.fits

/-- Nothing is left unserved in any state of a run exactly when every event of the run
is safe in the state it comes in. -/
theorem service_kept_iff {realloc : ℕ → Bool} (halloc : ∀ n, realloc n = true) {r : Receiver}
    {p : Proxy} (h : Service.Ready r p) {es : List ServiceEvent} {s : Service}
    (hrun : exec (Service.next realloc) (Service.start r p) es = some s) :
    Always (Service.next realloc) (Service.Kept realloc) (Service.start r p) es ↔
      Along (Service.next realloc) Service.Safe (Service.start r p) es := by
  have hinv : (Service.start r p).Inv :=
    ⟨h.waiting, (keeps_pollEndpoints p _).valid h.transfers⟩
  exact always_iff_along (I := Service.Inv) (fun _ _ _ hs hsafe hnext => hs.next halloc hsafe hnext)
    (fun _ _ _ hs hkept hnext => Service.kept_iff_safe halloc hs hkept hnext) hinv (h.kept halloc)
    hrun

theorem oneInputProxy_ready : Service.Ready Receiver.start oneInputProxy where
  waiting := Receiver.waiting_start
  fits := by decide +kernel
  polled := by decide +kernel
  transfers := fun _ ht => absurd ht List.not_mem_nil
  tables := ⟨0, 0, [oneInput], rfl⟩
  fault := rfl

/-- A poll with data, a control request with its reply, the acknowledgement of the
packet, and a read that fails. -/
theorem service_kept_request :
    ∃ s : Service, exec (Service.next fun _ => true)
        (Service.start Receiver.start oneInputProxy) [.complete 0 (.completed [7]), .bytes [],
          .bytes [4, 8], .bytes [0x80, 0, 0, 0, 0, 0, 2, 0], .complete 0 (.completed [1, 0]),
          .bytes [6, 0], .readError] = some s ∧
      s.replies = [[4, 2, 1, 0]] ∧
      Always (Service.next fun _ => true) (Service.Kept fun _ => true)
        (Service.start Receiver.start oneInputProxy) [.complete 0 (.completed [7]), .bytes [],
          .bytes [4, 8], .bytes [0x80, 0, 0, 0, 0, 0, 2, 0], .complete 0 (.completed [1, 0]),
          .bytes [6, 0], .readError] := by
  have hrun : (exec (Service.next fun _ => true) (Service.start Receiver.start oneInputProxy)
      [.complete 0 (.completed [7]), .bytes [], .bytes [4, 8],
        .bytes [0x80, 0, 0, 0, 0, 0, 2, 0], .complete 0 (.completed [1, 0]), .bytes [6, 0],
        .readError]).map Service.replies = some [[4, 2, 1, 0]] := by
    decide +kernel
  obtain ⟨s, hs, hreplies⟩ := Option.map_eq_some_iff.1 hrun
  exact ⟨s, hs, hreplies,
    (service_kept_iff (fun _ => rfl) oneInputProxy_ready hs).2 (by decide +kernel)⟩

/-- A poll that ends with a stall is not submitted again, and the proxy goes on. -/
theorem service_pollStalled :
    Service.Ready Receiver.start oneInputProxy ∧
    ∃ s : Service, exec (Service.next fun _ => true)
        (Service.start Receiver.start oneInputProxy) [.complete 0 .stall] = some s ∧
      s.proxy.done = false ∧ 0x81 ∈ s.proxy.registered ∧ ¬ s.proxy.Served 0x81 ∧
      ¬ s.Kept fun _ => true := by
  have hrun : ((exec (Service.next fun _ => true) (Service.start Receiver.start oneInputProxy)
      [.complete 0 .stall]).any fun s =>
        !s.proxy.done && decide (0x81 ∈ s.proxy.registered ∧ ¬ s.proxy.Served 0x81)) = true := by
    decide +kernel
  obtain ⟨s, hs, hlost⟩ := (Option.any_eq_true _ _).1 hrun
  rw [Bool.and_eq_true, Bool.not_eq_true', decide_eq_true_iff] at hlost
  obtain ⟨hdone, hmem, hnot⟩ := hlost
  refine ⟨oneInputProxy_ready, s, hs, hdone, hmem, hnot, fun hkept => ?_⟩
  exact hnot ((hkept.2.resolve_left (hdone ▸ Bool.false_ne_true)).endpoints _ hmem)

end SerialUsb
