import Mathlib.Data.List.Basic
import Mathlib.Data.Nat.Notation

/-!
# Transfers cut into packets

A sender cuts its data into packets of `size` elements and marks the end with a packet that
is not full, an empty one if need be. A receiver that asked for at most `limit` elements
stops at a packet that is not full or when it has that many. Whatever it has read by then is
all of the data.
-/

namespace Segmentation

/-- The packets of a transfer, the short one at the end included. -/
def segments {α : Type*} (size : ℕ) (data : List α) : List (List α) :=
  if _h : 0 < size ∧ size ≤ data.length then
    data.take size :: segments size (data.drop size)
  else [data]
termination_by data.length
decreasing_by
  rw [List.length_drop]
  omega

/-- A receiver of at most `limit` elements is not owed another packet. -/
def Ended {α : Type*} (size limit : ℕ) (ps : List (List α)) : Prop :=
  limit ≤ ps.flatten.length ∨ ∃ p, ps.getLast? = some p ∧ p.length < size

instance {α : Type*} (size limit : ℕ) (ps : List (List α)) : Decidable (Ended size limit ps) :=
  match h : ps.getLast? with
  | none => decidable_of_iff (limit ≤ ps.flatten.length) (by simp [Ended, h])
  | some p =>
      decidable_of_iff (limit ≤ ps.flatten.length ∨ p.length < size) (by simp [Ended, h])

theorem segments_of_lt {α : Type*} {size : ℕ} {data : List α} (h : data.length < size) :
    segments size data = [data] := by
  rw [segments, dif_neg (by omega)]

theorem segments_nil {α : Type*} {size : ℕ} (hsize : 0 < size) :
    segments size ([] : List α) = [[]] := segments_of_lt hsize

theorem segments_of_le {α : Type*} {size : ℕ} (hsize : 0 < size) {data : List α}
    (h : size ≤ data.length) :
    segments size data = data.take size :: segments size (data.drop size) := by
  rw [segments, dif_pos ⟨hsize, h⟩]

theorem segments_eq_cons {α : Type*} {size : ℕ} (hsize : 0 < size) (data : List α) :
    segments size data =
      data.take size ::
        if size ≤ data.length then segments size (data.drop size) else [] := by
  by_cases h : size ≤ data.length
  · rw [segments_of_le hsize h, if_pos h]
  · rw [segments_of_lt (Nat.lt_of_not_le h), if_neg h, List.take_of_length_le (by omega)]

/-- Put together, the packets are the data; each of them but the last is full, and the last
is not. -/
theorem segments_spec {α : Type*} {size : ℕ} (hsize : 0 < size) (data : List α) :
    (segments size data).flatten = data ∧
      ∃ front last, segments size data = front ++ [last] ∧
        (∀ p ∈ front, p.length = size) ∧ last.length < size := by
  by_cases h : size ≤ data.length
  · have hlt : (data.drop size).length < data.length := by
      rw [List.length_drop]
      omega
    obtain ⟨hflatten, front, last, hsplit, hfull, hlast⟩ := segments_spec hsize (data.drop size)
    rw [segments_of_le hsize h]
    refine ⟨?_, data.take size :: front, last, ?_, ?_, hlast⟩
    · rw [List.flatten_cons, hflatten, List.take_append_drop]
    · rw [hsplit, List.cons_append]
    · rw [List.forall_mem_cons]
      exact ⟨List.length_take_of_le h, hfull⟩
  · rw [segments_of_lt (Nat.lt_of_not_le h)]
    exact ⟨by simp, [], data, rfl, by simp, Nat.lt_of_not_le h⟩
termination_by data.length

theorem length_le_of_mem_segments {α : Type*} {size : ℕ} (hsize : 0 < size) {data : List α}
    {p : List α} (h : p ∈ segments size data) : p.length ≤ size := by
  obtain ⟨_, front, last, hsplit, hfull, hlast⟩ := segments_spec hsize data
  rw [hsplit, List.mem_append, List.mem_singleton] at h
  rcases h with h | rfl
  · exact Nat.le_of_eq (hfull p h)
  · exact Nat.le_of_lt hlast

/-- What has been read at any time is a beginning of the data. -/
theorem flatten_isPrefix {α : Type*} {size : ℕ} (hsize : 0 < size) {data : List α}
    {ps : List (List α)} (h : ps <+: segments size data) : ps.flatten <+: data := by
  obtain ⟨rest, hrest⟩ := h
  have hdata := (segments_spec hsize data).1
  rw [← hrest, List.flatten_append] at hdata
  exact ⟨_, hdata⟩

theorem full_of_isPrefix {α : Type*} {size : ℕ} (hsize : 0 < size) {data : List α}
    {ps : List (List α)} {p : List α} (h : ps ++ [p] <+: segments size data) :
    ∀ q ∈ ps, q.length = size := by
  obtain ⟨rest, hrest⟩ := h
  obtain ⟨_, front, last, hsplit, hfull, _⟩ := segments_spec hsize data
  intro q hq
  apply hfull
  have hpre : ps <+: front := by
    have hps : ps ++ ([p] ++ rest) = front ++ [last] := by
      rw [← List.append_assoc, hrest, hsplit]
    have hall : ps <+: front ++ [last] := ⟨_, hps⟩
    apply List.prefix_of_prefix_length_le hall (List.prefix_append ..)
    have hlen := congrArg List.length hps
    simp only [List.length_append, List.length_singleton] at hlen
    omega
  exact hpre.subset hq

/-- A receiver that stops has all of the data, if it asked for no less. -/
theorem flatten_of_ended {α : Type*} {size limit : ℕ} (hsize : 0 < size) {data : List α}
    (hlimit : data.length ≤ limit) {ps : List (List α)} (h : ps <+: segments size data)
    (hend : Ended size limit ps) : ps.flatten = data := by
  have hpre := flatten_isPrefix hsize h
  rcases hend with hlen | ⟨p, hp, hshort⟩
  · exact hpre.eq_of_length_le (Nat.le_trans hlimit hlen)
  · -- only the last packet of all is short
    obtain ⟨front, rfl⟩ : ∃ front, ps = front ++ [p] := List.getLast?_eq_some_iff.1 hp
    obtain ⟨rest, hrest⟩ := h
    cases rest with
    | nil =>
        rw [List.append_nil] at hrest
        rw [hrest]
        exact (segments_spec hsize data).1
    | cons q rest =>
        have hmore : (front ++ [p]) ++ [q] <+: segments size data :=
          ⟨rest, by rw [← hrest, List.append_assoc, List.singleton_append]⟩
        have hfull := full_of_isPrefix hsize hmore p (by simp)
        omega

theorem ended_segments {α : Type*} {size : ℕ} (hsize : 0 < size) (limit : ℕ) (data : List α) :
    Ended size limit (segments size data) := by
  obtain ⟨_, front, last, hsplit, _, hlast⟩ := segments_spec hsize data
  refine Or.inr ⟨last, ?_, hlast⟩
  rw [hsplit, List.getLast?_concat]

end Segmentation
