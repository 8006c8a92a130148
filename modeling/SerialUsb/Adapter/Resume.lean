import SerialUsb.Adapter.Receive

/-!
# What is still received

A receiver resumes when the frame it is in can be completed such that the frame
behind it is delivered. `resumes_iff` says that only a header which announces more
bytes than the buffer holds keeps it from that: all that follows is dropped.
-/

namespace SerialUsb

open Framing Memory Transition

def Receiver.Resumes {π : Type*} (realloc : ℕ → Bool) (cb : PacketCallback π) (r : Receiver)
    (u : π) : Prop :=
  ∃ (rest : List UInt8) (current : Option PacketFrame), ∀ (f : PacketFrame)
    (chunks : List (List UInt8)) (t : Session π),
    exec (Session.recv realloc cb) ⟨r, u, []⟩ chunks = some t →
      chunks.flatten = rest ++ f.encode →
        t.delivered.map SPacket.frame = current.toList ++ [f]

def Receiver.completed (r : Receiver) (chunk : List UInt8) : Option SPacket :=
  if r.bread + chunk.length ≤ maxPacketSize ∧ (r.store chunk).remaining = 0 then
    some (r.store chunk).packet
  else none

/-- A read passes on the packet that it completes. -/
theorem Session.delivered_recv {π : Type*} {realloc : ℕ → Bool} {cb : PacketCallback π}
    {s t : Session π} {chunk : List UInt8} (h : s.recv realloc cb chunk = some t) :
    t.delivered = s.delivered ++ (s.receiver.completed chunk).toList := by
  unfold Session.recv at h
  split at h
  next =>
    obtain rfl := (Option.some.inj h).symm
    unfold adapterRecv Receiver.completed
    by_cases hfit : s.receiver.bread + chunk.length ≤ maxPacketSize
    · by_cases hdone : (s.receiver.store chunk).remaining = 0
      · simp only [hfit, hdone, and_self, if_true]
      · simp only [hfit, hdone, and_false, if_true, if_false]
    · simp only [hfit, false_and, if_false]
  next => exact absurd h (by simp)

theorem Session.completed_of_delivered {π : Type*} {realloc : ℕ → Bool} {cb : PacketCallback π}
    {s t : Session π} {chunk : List UInt8} (h : s.recv realloc cb chunk = some t) {p : SPacket}
    (hp : t.delivered = s.delivered ++ [p]) : s.receiver.completed chunk = some p := by
  rw [Session.delivered_recv h, List.append_cancel_left_eq] at hp
  cases hcase : s.receiver.completed chunk with
  | none =>
      rw [hcase] at hp
      exact absurd hp (by simp)
  | some p' =>
      rw [hcase, Option.toList_some, List.cons.injEq] at hp
      rw [hp.1]

theorem exists_rest {limit : ℕ} {s : List UInt8}
    (hover : ¬ Oversized limit s) (hlt : s.length < extent s) :
    ∃ (rest : List UInt8) (current : Option (Frame limit)),
      s ++ rest = current.toList.flatMap Frame.encode := by
  match s with
  | [] => exact ⟨[], none, rfl⟩
  | [type] => exact ⟨[0], some ⟨type, [], Nat.zero_le _⟩, rfl⟩
  | type :: length :: value =>
      have hle : length.toNat ≤ limit := not_lt.1 hover
      have hshort : value.length < length.toNat := by
        simp only [extent, List.length_cons] at hlt
        omega
      have hlength : (value ++ List.replicate (length.toNat - value.length) 0).length =
          length.toNat := by
        rw [List.length_append, List.length_replicate]
        omega
      refine ⟨List.replicate (length.toNat - value.length) 0,
        some ⟨type, _, hlength.trans_le hle⟩, ?_⟩
      simp [Frame.encode, UInt8.ofNat_toNat, hshort.le]

theorem Receiver.Waiting.one_le_count {r : Receiver} (h : r.Waiting)
    (hover : Oversized 254 r.stored) : 1 ≤ r.read.count := by
  have hlt := h.bread_lt
  rcases h.count_eq with hcount | ⟨hzero, _⟩
  · omega
  · have hnil : r.stored = [] := by rw [Receiver.stored, hzero, List.take_zero]
    rw [hnil] at hover
    exact hover.elim

theorem Session.exec_recv_oversized {π : Type*} {realloc : ℕ → Bool}
    (halloc : ∀ n, realloc n = true) {cb : PacketCallback π} {s : Session π}
    (hwait : s.receiver.Waiting) (hover : Oversized 254 s.receiver.stored)
    (bytes : List UInt8) :
    ∃ t, exec (Session.recv realloc cb) s (bytes.map fun b => [b]) = some t := by
  induction bytes generalizing s with
  | nil => exact ⟨s, rfl⟩
  | cons b bytes ih =>
      have hread : ∃ v, s.recv realloc cb [b] = some v := by
        unfold Session.recv
        have hcount : [b].length ≤ s.receiver.read.count := hwait.one_le_count hover
        rw [if_pos hcount]
        exact ⟨_, rfl⟩
      obtain ⟨v, hv⟩ := hread
      have hover' : Oversized 254 v.receiver.stored := by
        rcases Session.recv_cases halloc hwait hv with
          ⟨_, rfl⟩ | ⟨_, hstored, _⟩ | ⟨_, _, p, hp, _⟩
        · exact hover
        · exact hstored ▸ hover.append [b]
        · exact absurd (hp ▸ hover.append [b]) (p.frame.not_oversized maxPacketValueSize_lt)
      obtain ⟨t, ht⟩ := ih (Session.waiting_recv halloc hwait hv) hover'
      exact ⟨t, by rw [List.map_cons, exec_cons, hv]; exact ht⟩

/-- Only a header that announces too much keeps a receiver from resuming. -/
theorem Receiver.resumes_iff {π : Type*} {realloc : ℕ → Bool}
    (halloc : ∀ n, realloc n = true) {cb : PacketCallback π} {r : Receiver}
    (hwait : r.Waiting) (u : π) : r.Resumes realloc cb u ↔ ¬ Oversized 254 r.stored := by
  have hfollows : (⟨r, u, []⟩ : Session π).Follows r.stored := ⟨_, rfl, Or.inl rfl⟩
  have hframes : ∀ (chunks : List (List UInt8)) (t : Session π),
      exec (Session.recv realloc cb) ⟨r, u, []⟩ chunks = some t →
        frames maxPacketValueSize (r.stored ++ chunks.flatten) =
          t.delivered.map SPacket.frame := by
    intro chunks t hrun
    obtain ⟨hwait', hfollows', _⟩ := Session.exec_recv halloc hwait hfollows rfl hrun
    exact (hfollows'.frames_eq hwait').1
  constructor
  · rintro ⟨rest, current, hdelivers⟩ hover
    have f : PacketFrame := ⟨0, [], Nat.zero_le _⟩
    obtain ⟨t, ht⟩ : ∃ t, exec (Session.recv realloc cb) ⟨r, u, []⟩
        ((rest ++ f.encode).map fun b => [b]) = some t :=
      Session.exec_recv_oversized halloc hwait hover _
    have hflatten : ((rest ++ f.encode).map fun b => [b]).flatten = rest ++ f.encode :=
      List.flatMap_def.symm.trans (List.flatMap_singleton' _)
    have hnone := hframes _ t ht
    have hover' : Oversized maxPacketValueSize (r.stored ++ (rest ++ f.encode)) := hover.append _
    rw [hflatten, frames_of_oversized hover', hdelivers f _ t ht hflatten] at hnone
    simp at hnone
  · intro hover
    obtain ⟨rest, current, hrest⟩ := @exists_rest maxPacketValueSize _ hover
      (by rw [r.stored_length hwait.bread_le]; exact hwait.bread_lt)
    refine ⟨rest, current, ?_⟩
    intro f chunks t hrun hchunks
    rw [← hframes chunks t hrun, hchunks, ← List.append_assoc, hrest,
      frames_flatMap_append maxPacketValueSize_lt, ← List.append_nil f.encode,
      frames_encode_append maxPacketValueSize_lt, frames_of_takeFrame_none rfl]

end SerialUsb
