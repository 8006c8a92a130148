import SerialUsb.Adapter.Receive

/-!
# The bytes of a delivered packet

A delivered packet is the buffer of the adapter as it stands: behind the value that its
length announces lie the bytes of earlier packets, or zeros in the first packet of all.
Whatever arrives, some sequence of reads takes it in.
-/

namespace SerialUsb

open Framing Memory Transition

section Session

variable {π : Type*} {realloc : ℕ → Bool} {cb : PacketCallback π} {s t : Session π}
  {chunk : List UInt8}

theorem Session.recv_stores (h : s.recv realloc cb chunk = some t) :
    t = s ∨ s.receiver.bread + chunk.length ≤ 256 ∧
      (t.receiver.packet = (s.receiver.store chunk).packet ∧ t.delivered = s.delivered ∨
        t.delivered = s.delivered ++ [(s.receiver.store chunk).packet]) := by
  unfold Session.recv at h
  split at h
  case isFalse => exact absurd h (by simp)
  case isTrue =>
    replace h := (Option.some.inj h).symm
    by_cases hfit : s.receiver.bread + chunk.length ≤ 256
    · right
      refine ⟨hfit, ?_⟩
      simp only [adapterRecv, maxPacketSize_eq, if_pos hfit] at h
      by_cases hdone : (s.receiver.store chunk).remaining = 0
      · simp only [if_pos hdone] at h
        subst h
        exact Or.inr rfl
      · simp only [if_neg hdone] at h
        subst h
        exact Or.inl ⟨rfl, List.append_nil _⟩
    · left
      simp only [adapterRecv, maxPacketSize_eq, if_neg hfit] at h
      subst h
      simp

theorem Session.user_recv_cases (h : s.recv realloc cb chunk = some t) :
    t.user = s.user ∨ ∃ p, t.user = (cb s.user p).1 := by
  unfold Session.recv at h
  split at h
  case isFalse => exact absurd h (by simp)
  case isTrue =>
    replace h := (Option.some.inj h).symm
    unfold adapterRecv at h
    subst h
    dsimp only
    split
    · split
      · exact Or.inr ⟨_, rfl⟩
      · exact Or.inl rfl
    · exact Or.inl rfl

theorem SPacket.toNat_length_of_stored {r : Receiver} (hle : r.bread ≤ 256)
    (h : r.stored = r.packet.frame.encode) :
    r.packet.length.toNat = r.packet.frame.value.length := by
  have hheader : 2 ≤ r.bread := by
    rw [← r.stored_length hle, h, Frame.encode_length]
    omega
  rw [r.stored_of_header hheader, Frame.encode] at h
  have hlength := (List.cons.inj (List.cons.inj h).2).1
  exact (congrArg UInt8.toNat hlength).trans
    (r.packet.frame.toNat_length maxPacketValueSize_lt)

def Session.Announced (s : Session π) : Prop :=
  ∀ p ∈ s.delivered, p.length.toNat = p.frame.value.length

theorem Session.Announced.recv (halloc : ∀ n, realloc n = true) (hwait : s.receiver.Waiting)
    (hs : s.Announced) (h : s.recv realloc cb chunk = some t) : t.Announced := by
  rcases Session.recv_stores h with rfl | ⟨hfit, ⟨_, hdelivered⟩ | hdelivered⟩
  · exact hs
  · intro p hp
    exact hs p (hdelivered ▸ hp)
  · intro p hp
    rw [hdelivered, List.mem_append, List.mem_singleton] at hp
    rcases hp with hp | rfl
    · exact hs p hp
    · rcases Session.recv_cases halloc hwait h with
        ⟨_, rfl⟩ | ⟨_, _, _, hsame⟩ | ⟨_, _, p, hencode, _, hmore⟩
      · exact absurd hdelivered (by simp)
      · exact absurd (hsame.symm.trans hdelivered) (by simp)
      · have hp := List.append_cancel_left (hdelivered.symm.trans hmore)
        rw [List.singleton_inj] at hp
        refine SPacket.toNat_length_of_stored (r := s.receiver.store chunk) hfit ?_
        rw [Receiver.stored_store hfit, hencode, hp]

/-- Until the first packet is complete the buffer holds zeros behind it. -/
structure Session.Fresh (s : Session π) : Prop where
  buffer : s.delivered = [] → Filled s.receiver.packet.bytes s.receiver.stored
  first : ∀ p, s.delivered.head? = some p → Filled p.bytes p.frame.encode

theorem Session.Fresh.recv (halloc : ∀ n, realloc n = true) (hwait : s.receiver.Waiting)
    (hs : s.Fresh) (h : s.recv realloc cb chunk = some t) : t.Fresh := by
  rcases Session.recv_stores h with rfl | ⟨hfit, hstores⟩
  · exact hs
  · have hfilled : s.delivered = [] →
        Filled (s.receiver.store chunk).packet.bytes (s.receiver.stored ++ chunk) := by
      intro hnone
      have hlength := s.receiver.stored_length hwait.bread_le
      have hcopy := (hs.buffer hnone).copyAt (hlength.symm ▸ hfit)
      rwa [hlength] at hcopy
    rcases Session.recv_cases halloc hwait h with
      ⟨_, rfl⟩ | ⟨_, hstored, _, hsame⟩ | ⟨_, _, p, hencode, _, hmore⟩
    · exact hs
    · refine ⟨fun hnone => ?_, fun p hp => hs.first p (hsame ▸ hp)⟩
      rcases hstores with ⟨hpacket, _⟩ | hdelivered
      · rw [hpacket, hstored]
        exact hfilled (hsame ▸ hnone)
      · exact absurd (hsame.symm.trans hdelivered) (by simp)
    · rcases hstores with ⟨_, hdelivered⟩ | hdelivered
      · exact absurd (hdelivered.symm.trans hmore) (by simp)
      · have hp := List.append_cancel_left (hdelivered.symm.trans hmore)
        rw [List.singleton_inj] at hp
        refine ⟨fun hnone => absurd (hdelivered.symm.trans hnone) (by simp), fun p' hp' => ?_⟩
        rw [hdelivered] at hp'
        cases hold : s.delivered with
        | nil =>
            rw [hold, List.nil_append, List.head?_cons, Option.some.injEq] at hp'
            rw [← hp', hp, ← hencode, ← hp]
            exact hfilled hold
        | cons p₀ ps =>
            rw [hold, List.cons_append, List.head?_cons] at hp'
            exact hs.first p' (by rw [hold, List.head?_cons, hp'])

theorem Session.run_announced (halloc : ∀ n, realloc n = true) {r : Receiver} {u : π}
    (hwait : r.Waiting) {chunks : List (List UInt8)}
    (hrun : exec (Session.recv realloc cb) ⟨r, u, []⟩ chunks = some t) : t.Announced := by
  have hinv : t.receiver.Waiting ∧ t.Announced := by
    refine exec_invariant (I := fun s => s.receiver.Waiting ∧ s.Announced) ?_
      ⟨hwait, fun p hp => absurd hp List.not_mem_nil⟩ hrun
    intro s chunk t hs h
    exact ⟨Session.waiting_recv halloc hs.1 h, hs.2.recv halloc hs.1 h⟩
  exact hinv.2

theorem Session.run_fresh (halloc : ∀ n, realloc n = true) {u : π}
    {chunks : List (List UInt8)}
    (hrun : exec (Session.recv realloc cb) (Session.start u) chunks = some t) : t.Fresh := by
  have hinv : t.receiver.Waiting ∧ t.Fresh := by
    refine exec_invariant (I := fun s => s.receiver.Waiting ∧ s.Fresh) ?_
      ⟨Receiver.waiting_start, fun _ => filled_nil _, fun p hp => absurd hp (by simp [start])⟩
      hrun
    intro s chunk t hs h
    exact ⟨Session.waiting_recv halloc hs.1 h, hs.2.recv halloc hs.1 h⟩
  exact hinv.2

theorem Session.exists_recv (h : chunk.length ≤ s.receiver.read.count) :
    ∃ t, s.recv realloc cb chunk = some t := by
  unfold Session.recv
  rw [if_pos h]
  exact ⟨_, rfl⟩

theorem Session.exists_run (halloc : ∀ n, realloc n = true) (cb : PacketCallback π)
    (hwait : s.receiver.Waiting) (hcount : s.receiver.read.count ≠ 0) (stream : List UInt8) :
    ∃ chunks t, chunks.flatten = stream ∧ exec (Session.recv realloc cb) s chunks = some t := by
  induction stream generalizing s with
  | nil => exact ⟨[], s, rfl, rfl⟩
  | cons b stream ih =>
      obtain ⟨v, hv⟩ : ∃ v, s.recv realloc cb [b] = some v :=
        Session.exists_recv (Nat.one_le_iff_ne_zero.2 hcount)
      obtain ⟨chunks, t, hstream, hrun⟩ := ih (Session.waiting_recv halloc hwait hv)
        (Session.count_recv halloc hwait hv)
      refine ⟨[b] :: chunks, t, ?_, ?_⟩
      · rw [List.flatten_cons, hstream]
        rfl
      · rw [exec_cons, hv]
        exact hrun

theorem Session.exists_run_start (halloc : ∀ n, realloc n = true) (cb : PacketCallback π) (u : π)
    (stream : List UInt8) :
    ∃ chunks t, chunks.flatten = stream ∧
      exec (Session.recv realloc cb) (Session.start u) chunks = some t := by
  obtain ⟨v, hv⟩ : ∃ v, (Session.start u).recv realloc cb [] = some v :=
    Session.exists_recv (Nat.zero_le _)
  obtain ⟨chunks, t, hstream, hrun⟩ := Session.exists_run halloc cb
    (Session.waiting_recv halloc Receiver.waiting_start hv)
    (Session.count_recv halloc Receiver.waiting_start hv) stream
  refine ⟨[] :: chunks, t, hstream, ?_⟩
  rw [exec_cons, hv]
  exact hrun

end Session

end SerialUsb
