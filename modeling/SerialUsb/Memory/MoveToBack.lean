import Mathlib.Data.List.Nodup

/-!
# Keys that move to the back

`moveToBack l k` takes the key `k` out of a list, if it is there, and puts it behind the
others. When the keys that are moved one after the other are in order, and every other key
of the list comes before them, a list in order stays in order.
-/

namespace Memory

variable {α : Type*} [DecidableEq α]

def moveToBack (l : List α) (k : α) : List α := l.filter (· ≠ k) ++ [k]

def moveAll (l : List α) (ks : List α) : List α := ks.foldl moveToBack l

@[simp] theorem moveAll_nil (l : List α) : moveAll l [] = l := rfl

theorem moveAll_cons (l : List α) (k : α) (ks : List α) :
    moveAll l (k :: ks) = moveAll (moveToBack l k) ks := rfl

theorem moveAll_eq (l : List α) {ks : List α} (h : ks.Nodup) :
    moveAll l ks = l.filter (· ∉ ks) ++ ks := by
  induction ks generalizing l with
  | nil => simp
  | cons k ks ih =>
      have hk : k ∉ ks := (List.nodup_cons.1 h).1
      rw [moveAll_cons, ih _ (List.nodup_cons.1 h).2, moveToBack, List.filter_append,
        List.filter_filter]
      simp [hk, Bool.and_comm]

theorem pairwise_moveAll {r : α → α → Prop} {l ks : List α} (hnodup : ks.Nodup)
    (hl : l.Pairwise r) (hks : ks.Pairwise r) (hbefore : ∀ a ∈ l, a ∉ ks → ∀ k ∈ ks, r a k) :
    (moveAll l ks).Pairwise r := by
  rw [moveAll_eq l hnodup, List.pairwise_append]
  refine ⟨hl.filter _, hks, fun a ha => ?_⟩
  obtain ⟨hmem, hnot⟩ := List.mem_filter.1 ha
  exact hbefore a hmem (of_decide_eq_true hnot)

theorem mem_moveAll {l ks : List α} (hnodup : ks.Nodup) {a : α} :
    a ∈ moveAll l ks ↔ a ∈ l ∨ a ∈ ks := by
  rw [moveAll_eq l hnodup]
  by_cases h : a ∈ ks
  · simp [h]
  · simp [h]

end Memory
