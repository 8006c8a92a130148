import SerialUsb.System.Control

/-!
# Where a request is

The invariant behind `control_matched`. A request that is forwarded is under way in one
place: its packet, its transfer, its reply on the line or the reply that was taken. Every
step moves it on or drops it, and nothing but the next request makes another one, so that
it is at most one, for the request that was forwarded last.
-/

namespace SerialUsb

open Framing Memory Transition

def Owned (t : Transfer) (o : Option ℕ) : Prop :=
  (t.type = transferTypeControl ∧ t.endpoint = 0 ∧ o ≠ none) ∨
    (t.type = transferTypeInterrupt ∧ t.endpoint ≠ 0 ∧ o = none)

def ControlLink.unsent (s : ControlLink) : List (UInt8 × Option ℕ) :=
  match s.phase with
  | .sending _ bytes => bytes.map fun b => (b, s.origin)
  | _ => []

def ControlLink.tokens (s : ControlLink) (fs gs : List (Option ℕ × PacketFrame)) (k : ℕ) : ℕ :=
  (fs.map Prod.fst).count (some k) + s.owners.count (some k) +
    (gs.map Prod.fst).count (some k) + (s.taken.map Prod.fst).count (some k)

def ControlPhase.Expects (q : HostRequest) (phase : ControlPhase) : Prop :=
  (∃ unsent, phase = .sending q unsent) ∨ phase = .waiting q ∨ phase = .left q

/-- What the slot holds, by the phase of the main loop. -/
inductive ControlLink.Stage (s : ControlLink) (tokens : ℕ → ℕ) : Prop
  | idle (phase : s.phase = .idle) : Stage s tokens
  | resetting (q : HostRequest) (phase : s.phase = .resetting q)
      (short : q.setup.wLength.toNat ≤ maxControlTransferSize)
      (fresh : q.Forwarded → q.Fits ∧ (∀ k, tokens k = 0) ∧ s.taken = [] ∧
        s.fw.slot.controlReply = false) : Stage s tokens
  | dataStage (q : HostRequest) (phase : s.phase = .dataStage q)
      (short : q.setup.wLength.toNat ≤ maxControlTransferSize)
      (fresh : q.Forwarded → q.Fits ∧ (∀ k, tokens k = 0) ∧ s.taken = [] ∧
        s.fw.slot.controlReply = false ∧ s.fw.slot.controlStall = false) : Stage s tokens
  | debug (q : HostRequest) (unsent : List UInt8) (phase : s.phase = .sending q unsent)
      (long : maxControlTransferSize < q.setup.wLength.toNat) : Stage s tokens
  | unanswered (q : HostRequest) (phase : s.phase.Expects q) (forwarded : q.Forwarded)
      (last : s.requests.getLast? = some q) (taken : s.taken = [])
      (reply : s.fw.slot.controlReply = false) (stall : s.fw.slot.controlStall = false) :
      Stage s tokens
  | answered (q : HostRequest) (k : ℕ) (f : PacketFrame) (phase : s.phase.Expects q)
      (forwarded : q.Forwarded) (last : s.requests.getLast? = some q)
      (taken : s.taken = [(some k, f.encode)]) (holds : s.fw.slot.Holds f)
      (reply : s.fw.slot.controlReply = true) : Stage s tokens
  | acting (q : HostRequest) (k : ℕ) (f : PacketFrame) (phase : s.phase.acting = some q)
      (last : s.requests.getLast? = some q) (taken : s.taken = [(some k, f.encode)])
      (holds : s.fw.slot.Holds f) (sends : s.phase.Sends f) : Stage s tokens

def ControlLink.Upward (s : ControlLink) (x : Option ℕ × PacketFrame) : Prop :=
  match x.1 with
  | none => s.proxy.OtherPacket x.2
  | some _ => x.2.type = PacketType.eTypeControl.toByte

def Downward (x : Option ℕ × PacketFrame) : Prop :=
  match x.1 with
  | none => x.2.type = PacketType.eTypeIn.toByte ∨ x.2.type = PacketType.eTypeReset.toByte
  | some _ => x.2.type = PacketType.eTypeControl.toByte ∨
      x.2.type = PacketType.eTypeControlStall.toByte

structure ControlLink.Inv (fs gs : List (Option ℕ × PacketFrame)) (s : ControlLink) : Prop where
  waiting : s.session.receiver.Waiting
  writes : s.proxy.serial.writes = []
  upstream : ∃ head, head.map Prod.fst = s.session.receiver.stored ∧
    head ++ s.toProxy ++ s.unsent = tagged fs
  upward : ∀ x ∈ fs, s.Upward x
  line : s.proxy.serial.line = (tagged gs).map Prod.fst
  origins : s.origins = (tagged gs).map Prod.snd
  downward : ∀ x ∈ gs, Downward x
  owners : List.Forall₂ Owned s.proxy.usb.transfers s.owners
  once : ∀ k, s.tokens fs gs k ≤ if k + 1 = s.requests.length then 1 else 0
  stage : s.Stage (s.tokens fs gs)

theorem ControlPhase.Expects.acting_eq_none {q : HostRequest} {phase : ControlPhase}
    (h : phase.Expects q) : phase.acting = none := by
  rcases h with ⟨unsent, rfl⟩ | rfl | rfl
  · rfl
  · rfl
  · rfl

theorem tagged_concat (gs : List (Option ℕ × PacketFrame)) (o : Option ℕ)
    (new : List PacketFrame) :
    tagged (gs ++ new.map fun f => (o, f)) =
      tagged gs ++ (new.flatMap Frame.encode).map fun b => (b, o) := by
  rw [tagged_append, tagged_map]

theorem forall₂_owned_append {ts us : List Transfer} {os : List (Option ℕ)} {o : Option ℕ}
    (h : List.Forall₂ Owned ts os) (hus : ∀ t ∈ us, Owned t o) :
    List.Forall₂ Owned (ts ++ us) (os ++ List.replicate us.length o) := by
  refine List.rel_append h ?_
  induction us with
  | nil => exact .nil
  | cons u us ih =>
      rw [List.forall_mem_cons] at hus
      exact .cons hus.1 (ih hus.2)

theorem forall₂_eraseIdx {α β : Type*} {R : α → β → Prop} {as : List α} {bs : List β}
    (h : List.Forall₂ R as bs) (i : ℕ) : List.Forall₂ R (as.eraseIdx i) (bs.eraseIdx i) := by
  induction h generalizing i with
  | nil => exact .nil
  | cons hab hrest ih =>
      cases i with
      | zero => exact hrest
      | succ i => exact .cons hab (ih i)

theorem ControlLink.tokens_concat_none (s : ControlLink) (fs gs : List (Option ℕ × PacketFrame))
    (f : PacketFrame) (k : ℕ) : s.tokens (fs ++ [(none, f)]) gs k = s.tokens fs gs k := by
  unfold ControlLink.tokens
  rw [List.map_append, List.count_append, List.map_singleton, List.count_singleton]
  rfl

theorem ControlLink.tokens_concat_some (s : ControlLink) (fs gs : List (Option ℕ × PacketFrame))
    (f : PacketFrame) (j k : ℕ) :
    s.tokens (fs ++ [(some j, f)]) gs k = s.tokens fs gs k + if j = k then 1 else 0 := by
  unfold ControlLink.tokens
  rw [List.map_append, List.count_append, List.map_singleton, List.count_singleton]
  simp only [beq_iff_eq, Option.some.injEq]
  omega

theorem count_map_fst (o : Option ℕ) (new : List PacketFrame) (k : ℕ) :
    ((new.map fun f => (o, f)).map Prod.fst).count (some k) =
      if o = some k then new.length else 0 := by
  have hnew : (new.map fun f => (o, f)).map Prod.fst = List.replicate new.length o := by
    rw [List.map_map]
    exact List.map_const
  rw [hnew, List.count_replicate]
  simp only [beq_iff_eq]

theorem count_eraseIdx {os : List (Option ℕ)} {i : ℕ} (hi : i < os.length) (k : ℕ) :
    (os.eraseIdx i).count (some k) + (if os.getD i none = some k then 1 else 0) =
      os.count (some k) := by
  have hperm := (List.getElem_cons_eraseIdx_perm hi).count_eq (some k)
  rw [List.count_cons] at hperm
  rw [List.getD_eq_getElem?_getD, List.getElem?_eq_getElem hi, Option.getD_some, ← hperm]
  simp only [beq_iff_eq]

theorem getLast?_tagged_concat (xs : List (Option ℕ × PacketFrame)) (x : Option ℕ × PacketFrame) :
    ∃ b, (tagged (xs ++ [x])).getLast? = some (b, x.1) := by
  obtain ⟨b, hb⟩ := Option.ne_none_iff_exists'.1
    (mt List.getLast?_eq_none_iff.1 x.2.encode_ne_nil)
  have hx : tagged [x] = x.2.encode.map fun b => (b, x.1) := List.append_nil _
  refine ⟨b, ?_⟩
  rw [tagged_append, hx, List.getLast?_append_of_ne_nil _ (by simpa using x.2.encode_ne_nil),
    List.getLast?_map, hb]
  rfl

/-- A start of the packets that holds none of them ends before the last byte of the first
one. -/
theorem exists_mem_of_append_eq_tagged {a b : List (UInt8 × Option ℕ)}
    {xs ys : List (Option ℕ × PacketFrame)} {x : Option ℕ × PacketFrame}
    (h : a ++ b = tagged (xs ++ [x]) ++ tagged ys)
    (ha : ∀ (f : PacketFrame) (bytes : List UInt8), a.map Prod.fst ≠ f.encode ++ bytes) :
    ∃ byte, (byte, x.1) ∈ b := by
  have hnot : ∀ bytes, a ≠ tagged (xs ++ [x]) ++ bytes := by
    rintro bytes rfl
    cases xs with
    | nil =>
        refine ha x.2 (bytes.map Prod.fst) ?_
        rw [List.map_append, map_fst_tagged, List.nil_append, List.map_singleton,
          List.flatMap_singleton]
    | cons y ys =>
        refine ha y.2 (((ys ++ [x]).map Prod.snd).flatMap Frame.encode ++ bytes.map Prod.fst) ?_
        rw [List.map_append, map_fst_tagged, List.cons_append, List.map_cons, List.flatMap_cons,
          List.append_assoc]
  obtain ⟨byte, hlast⟩ := getLast?_tagged_concat xs x
  rcases List.append_eq_append_iff.1 h with ⟨bytes, hall, hrest⟩ | ⟨bytes, hall, _⟩
  · have hne : bytes ≠ [] := by
      rintro rfl
      rw [List.append_nil] at hall
      exact hnot [] (hall.symm.trans (List.append_nil _).symm)
    rw [hall, List.getLast?_append_of_ne_nil a hne] at hlast
    exact ⟨byte, hrest ▸ List.mem_append_left _ (List.mem_of_getLast? hlast)⟩
  · exact absurd hall (hnot bytes)

theorem ControlLink.unsent_eq_nil {s : ControlLink}
    (h : ∀ q b bytes, s.phase ≠ .sending q (b :: bytes)) : s.unsent = [] := by
  unfold ControlLink.unsent
  split
  next q bytes heq =>
    cases bytes with
    | nil => rfl
    | cons b bytes => exact absurd heq (h q b bytes)
  next => rfl

theorem ControlLink.Stage.mono {s t : ControlLink} {tokens tokens' : ℕ → ℕ}
    (h : s.Stage tokens) (hphase : t.phase = s.phase) (hslot : t.fw.slot = s.fw.slot)
    (hrequests : t.requests = s.requests) (htaken : t.taken = s.taken)
    (hle : ∀ k, tokens' k ≤ tokens k) : t.Stage tokens' := by
  have hzero : (∀ k, tokens k = 0) → ∀ k, tokens' k = 0 :=
    fun h k => Nat.le_zero.1 (h k ▸ hle k)
  cases h with
  | idle phase => exact .idle (hphase.trans phase)
  | resetting q phase short fresh =>
      refine .resetting q (hphase.trans phase) short fun hq => ?_
      obtain ⟨fits, none, taken, reply⟩ := fresh hq
      exact ⟨fits, hzero none, htaken.trans taken, hslot ▸ reply⟩
  | dataStage q phase short fresh =>
      refine .dataStage q (hphase.trans phase) short fun hq => ?_
      obtain ⟨fits, none, taken, reply, stall⟩ := fresh hq
      exact ⟨fits, hzero none, htaken.trans taken, hslot ▸ reply, hslot ▸ stall⟩
  | debug q unsent phase long => exact .debug q unsent (hphase.trans phase) long
  | unanswered q phase forwarded last taken reply stall =>
      exact .unanswered q (hphase ▸ phase) forwarded (hrequests ▸ last) (htaken.trans taken)
        (hslot ▸ reply) (hslot ▸ stall)
  | answered q k f phase forwarded last taken holds reply =>
      exact .answered q k f (hphase ▸ phase) forwarded (hrequests ▸ last) (htaken.trans taken)
        (hslot ▸ holds) (hslot ▸ reply)
  | acting q k f phase last taken holds sends =>
      exact .acting q k f (hphase ▸ phase) (hrequests ▸ last) (htaken.trans taken)
        (hslot ▸ holds) (hphase ▸ sends)

theorem ControlLink.Upward.congr {s t : ControlLink} {x : Option ℕ × PacketFrame}
    (h : s.Upward x) (hmap : t.proxy.serialToUsb = s.proxy.serialToUsb) : t.Upward x := by
  unfold ControlLink.Upward Proxy.OtherPacket at h ⊢
  rw [hmap]
  exact h

section Invariant

variable {s : ControlLink} {fs gs : List (Option ℕ × PacketFrame)}

/-- A request that is in some place is the last one. -/
theorem ControlLink.Inv.eq_length (h : s.Inv fs gs) {k : ℕ} (hk : 1 ≤ s.tokens fs gs k) :
    k + 1 = s.requests.length := by
  have honce := h.once k
  split at honce
  next hlast => exact hlast
  next => exact absurd (hk.trans honce) (by decide)

/-- While a reply is acted on, it is the only one that was taken, and its request is the
last one. -/
theorem ControlLink.Inv.matched (h : s.Inv fs gs) : s.Matched := by
  intro q hq
  have hne : ∀ {phase : ControlPhase}, s.phase = phase → phase.acting ≠ none := by
    rintro _ rfl
    rw [hq]
    exact Option.some_ne_none q
  cases h.stage with
  | idle phase => exact absurd rfl (hne phase)
  | resetting q' phase => exact absurd rfl (hne phase)
  | dataStage q' phase => exact absurd rfl (hne phase)
  | debug q' unsent phase => exact absurd rfl (hne phase)
  | unanswered q' phase => exact absurd phase.acting_eq_none (hne rfl)
  | answered q' k f phase => exact absurd phase.acting_eq_none (hne rfl)
  | acting q' k f phase last taken holds sends =>
      have htoken : 1 ≤ s.tokens fs gs k := by
        unfold ControlLink.tokens
        rw [taken, List.map_singleton, List.count_singleton_self]
        exact Nat.le_add_left 1 _
      obtain rfl := Option.some.inj (phase.symm.trans hq)
      refine ⟨f, last, ?_, holds, sends⟩
      rw [taken, ← h.eq_length htoken]
      rfl

/-- A request whose reply was taken is nowhere else. -/
theorem ControlLink.Inv.alone (h : s.Inv fs gs) {j : ℕ} {bytes : List UInt8}
    (htaken : s.taken = [(some j, bytes)]) {x : Option ℕ × PacketFrame} (hx : x ∈ gs) :
    x.1 = none := by
  by_contra hne
  obtain ⟨k, hk⟩ := Option.ne_none_iff_exists'.1 hne
  have hgs : 1 ≤ (gs.map Prod.fst).count (some k) :=
    List.one_le_count_iff.2 (hk ▸ List.mem_map_of_mem hx)
  have htoken : (s.taken.map Prod.fst).count (some j) = 1 := by
    rw [htaken, List.map_singleton, List.count_singleton_self]
  have hj : j + 1 = s.requests.length := h.eq_length <| by
    unfold ControlLink.tokens
    omega
  have hk' : k + 1 = s.requests.length := h.eq_length <| by
    unfold ControlLink.tokens
    omega
  obtain rfl : j = k := by omega
  have honce := h.once j
  rw [if_pos hj] at honce
  unfold ControlLink.tokens at honce
  omega

theorem ControlLink.Inv.bytes (h : s.Inv fs gs) :
    s.session.receiver.stored ++ s.toProxy.map Prod.fst ++ s.unsent.map Prod.fst =
      (fs.map Prod.snd).flatMap Frame.encode := by
  obtain ⟨head, hhead, hfs⟩ := h.upstream
  rw [← map_fst_tagged, ← hfs, List.map_append, List.map_append, hhead]

theorem ControlLink.Inv.not_oversized (h : s.Inv fs gs) :
    ¬ Oversized 254 s.session.receiver.stored := by
  intro hover
  have hall := (hover.append (s.toProxy.map Prod.fst)).append (s.unsent.map Prod.fst)
  rw [h.bytes] at hall
  cases fs with
  | nil => exact hall
  | cons x xs =>
      rw [List.map_cons, List.flatMap_cons] at hall
      exact x.2.not_oversized_append maxPacketValueSize_lt _ hall

/-- The bytes that complete a packet belong to its request. -/
theorem ControlLink.Inv.completes (h : s.Inv fs gs) {n : ℕ} {p : SPacket}
    (hp : s.session.receiver.stored ++ (s.toProxy.take n).map Prod.fst = p.frame.encode) :
    ∃ fs', fs = ((s.toProxy.take n).getLast?.bind Prod.snd, p.frame) :: fs' ∧
      s.toProxy.drop n ++ s.unsent = tagged fs' := by
  obtain ⟨head, hhead, hfs⟩ := h.upstream
  have hsplit : (head ++ s.toProxy.take n) ++ (s.toProxy.drop n ++ s.unsent) = tagged fs := by
    rw [← hfs, List.append_assoc, List.append_assoc, ← List.append_assoc (s.toProxy.take n),
      List.take_append_drop]
  have hfirst : (head ++ s.toProxy.take n).map Prod.fst = p.frame.encode := by
    rw [List.map_append, hhead, hp]
  obtain ⟨o, fs', hcons, hbytes, hrest⟩ := tagged_eq_append hsplit hfirst
  have hne : s.toProxy.take n ≠ [] := by
    intro hnil
    rw [hnil, List.map_nil, List.append_nil, ← List.append_nil p.frame.encode] at hp
    exact h.waiting.stored_ne p.frame [] hp
  have hlast : (s.toProxy.take n).getLast?.bind Prod.snd = o := by
    obtain ⟨b, hb⟩ := getLast?_tagged_concat [] (o, p.frame)
    have hone : tagged [(o, p.frame)] = p.frame.encode.map fun b => (b, o) := List.append_nil _
    rw [← List.getLast?_append_of_ne_nil head hne, hbytes, ← hone]
    exact congrArg (fun last => last.bind Prod.snd) hb
  exact ⟨fs', hlast ▸ hcons, hrest⟩

theorem ControlLink.Inv.tokens_of_settled (h : s.Inv fs gs) (hunsent : s.unsent = [])
    (hsettled : s.Settled) (k : ℕ) :
    (fs.map Prod.fst).count (some k) + s.owners.count (some k) +
      (gs.map Prod.fst).count (some k) = 0 := by
  obtain ⟨hproxy, howners, horigins⟩ := hsettled
  have hup : some k ∉ fs.map Prod.fst := by
    intro hmem
    obtain ⟨x, hx, hk⟩ := List.mem_map.1 hmem
    obtain ⟨xs, ys, rfl⟩ := List.append_of_mem hx
    obtain ⟨head, hhead, hfs⟩ := h.upstream
    rw [hunsent, List.append_nil, List.append_cons, tagged_append] at hfs
    obtain ⟨byte, hbyte⟩ := exists_mem_of_append_eq_tagged hfs (hhead ▸ h.waiting.stored_ne)
    exact Option.some_ne_none k (hk.symm.trans (hproxy _ hbyte))
  have hown : some k ∉ s.owners := fun hmem => Option.some_ne_none k (howners _ hmem)
  have hdown : some k ∉ gs.map Prod.fst := by
    intro hmem
    obtain ⟨x, hx, hk⟩ := List.mem_map.1 hmem
    have horigin : x.1 ∈ s.origins := by
      rw [h.origins]
      refine List.mem_map.2 ⟨(x.2.type, x.1), ?_, rfl⟩
      exact List.mem_flatMap.2 ⟨x, hx, List.mem_cons_self⟩
    exact Option.some_ne_none k (hk.symm.trans (horigins _ horigin))
  rw [List.count_eq_zero.2 hup, List.count_eq_zero.2 hown, List.count_eq_zero.2 hdown]

def Traffic (o : Option ℕ) (packets : List PacketFrame) (transfers : List Transfer) : Prop :=
  match o with
  | none => OtherTraffic packets transfers
  | some _ => ControlTraffic packets transfers

theorem Traffic.owned {o : Option ℕ} {new : List PacketFrame} {ts : List Transfer}
    (h : Traffic o new ts) : ∀ t ∈ ts, Owned t o := by
  intro t ht
  cases o with
  | none => exact Or.inr ⟨(h.2 t ht).1, (h.2 t ht).2, rfl⟩
  | some k => exact Or.inl ⟨(h.2.2 t ht).1, (h.2.2 t ht).2, Option.some_ne_none k⟩

theorem Traffic.downward {o : Option ℕ} {new : List PacketFrame} {ts : List Transfer}
    (h : Traffic o new ts) : ∀ x ∈ new.map fun f => (o, f), Downward x := by
  intro x hx
  obtain ⟨f, hf, rfl⟩ := List.mem_map.1 hx
  cases o with
  | none => exact h.1 f hf
  | some k => exact h.2.1 f hf

theorem Traffic.le_one {o : Option ℕ} {new : List PacketFrame} {ts : List Transfer}
    (h : Traffic o new ts) {k : ℕ} (hk : o = some k) : new.length + ts.length ≤ 1 := by
  subst hk
  exact h.1

section Proxy

variable {q : Proxy} {o : Option ℕ} {new : List PacketFrame} {ts : List Transfer}

theorem ControlLink.owners_setProxy (hemits : s.proxy.Emits q new ts) :
    (s.setProxy q o).owners = s.owners ++ List.replicate ts.length o := by
  change s.owners ++ List.replicate (q.usb.transfers.length - _) o = _
  rw [hemits.transfers, List.length_append, Nat.add_sub_cancel_left]

theorem ControlLink.origins_setProxy (hemits : s.proxy.Emits q new ts) :
    (s.setProxy q o).origins =
      s.origins ++ List.replicate (new.flatMap Frame.encode).length o := by
  change s.origins ++ List.replicate (q.serial.line.length - _) o = _
  rw [hemits.line, List.length_append, Nat.add_sub_cancel_left]

theorem ControlLink.tokens_setProxy (hemits : s.proxy.Emits q new ts) (k : ℕ) :
    (s.setProxy q o).tokens fs (gs ++ new.map fun f => (o, f)) k =
      s.tokens fs gs k + if o = some k then new.length + ts.length else 0 := by
  have htaken : (s.setProxy q o).taken = s.taken := rfl
  unfold ControlLink.tokens
  rw [ControlLink.owners_setProxy hemits, htaken, List.map_append, List.count_append,
    List.count_append, count_map_fst, List.count_replicate]
  simp only [beq_iff_eq]
  split <;> omega

/-- A step of the proxy for a request keeps what the invariant says about the line to the
firmware and about the table. -/
theorem ControlLink.Inv.setProxy (h : s.Inv fs gs) (hemits : s.proxy.Emits q new ts)
    (htraffic : Traffic o new ts) :
    q.serial.line = (tagged (gs ++ new.map fun f => (o, f))).map Prod.fst ∧
      (s.setProxy q o).origins = (tagged (gs ++ new.map fun f => (o, f))).map Prod.snd ∧
      (∀ x ∈ gs ++ new.map (fun f => (o, f)), Downward x) ∧
      List.Forall₂ Owned q.usb.transfers (s.setProxy q o).owners ∧
      ∀ k, (s.setProxy q o).tokens fs (gs ++ new.map fun f => (o, f)) k ≤
        s.tokens fs gs k + if o = some k then 1 else 0 := by
  refine ⟨?_, ?_, List.forall_mem_append.2 ⟨h.downward, htraffic.downward⟩, ?_, fun k => ?_⟩
  · rw [hemits.line, h.line, tagged_concat, List.map_append, List.map_map]
    exact congrArg _ (List.map_id _).symm
  · rw [ControlLink.origins_setProxy hemits, h.origins, tagged_concat, List.map_append,
      List.map_map]
    exact congrArg _ List.map_const.symm
  · rw [ControlLink.owners_setProxy hemits, hemits.transfers]
    exact forall₂_owned_append h.owners htraffic.owned
  · rw [ControlLink.tokens_setProxy hemits]
    split
    next hk => exact Nat.add_le_add_left (htraffic.le_one hk) _
    next => exact le_refl _

end Proxy

end Invariant

end SerialUsb
