import Mathlib.Data.List.Nodup
import Mathlib.Logic.Function.Basic

/-!
# Two tables filled together

Two tables are filled from a list of pairs: for each pair the first table gets the
second component at the slot of the first, and the second table the first
component at the slot of the second. `inverse_iff` says when the tables are
inverse to each other on the pairs: exactly when no two pairs share a slot in
either table.
-/

namespace Memory

def assignAll {κ ν : Type*} [DecidableEq κ] (f : κ → ν) (l : List (κ × ν)) : κ → ν :=
  l.foldl (fun f p => Function.update f p.1 p.2) f

theorem assignAll_cons {κ ν : Type*} [DecidableEq κ] (f : κ → ν) (p : κ × ν)
    (l : List (κ × ν)) :
    assignAll f (p :: l) = assignAll (Function.update f p.1 p.2) l := rfl

theorem assignAll_of_not_mem {κ ν : Type*} [DecidableEq κ] {f : κ → ν} {l : List (κ × ν)}
    {k : κ} (h : k ∉ l.map Prod.fst) : assignAll f l k = f k := by
  induction l generalizing f with
  | nil => rfl
  | cons p l ih =>
      rw [List.map_cons, List.mem_cons, not_or] at h
      rw [assignAll_cons, ih h.2, Function.update_of_ne h.1]

theorem assignAll_of_nodup {κ ν : Type*} [DecidableEq κ] {f : κ → ν} {l : List (κ × ν)}
    (h : (l.map Prod.fst).Nodup) {p : κ × ν} (hp : p ∈ l) : assignAll f l p.1 = p.2 := by
  induction l generalizing f with
  | nil => exact absurd hp List.not_mem_nil
  | cons q l ih =>
      rw [List.map_cons, List.nodup_cons] at h
      rw [assignAll_cons]
      rcases List.mem_cons.1 hp with rfl | hp
      · rw [assignAll_of_not_mem h.1, Function.update_self]
      · exact ih h.2 hp

theorem assignAll_eq_or_mem {κ ν : Type*} [DecidableEq κ] (f : κ → ν) (l : List (κ × ν))
    (k : κ) : assignAll f l k = f k ∨ (k, assignAll f l k) ∈ l := by
  induction l generalizing f with
  | nil => exact Or.inl rfl
  | cons p l ih =>
      rw [assignAll_cons]
      rcases ih (Function.update f p.1 p.2) with h | h
      · rw [h]
        by_cases hk : k = p.1
        · subst hk
          rw [Function.update_self]
          exact Or.inr List.mem_cons_self
        · rw [Function.update_of_ne hk]
          exact Or.inl rfl
      · exact Or.inr (List.mem_cons_of_mem _ h)

/-- The value of a slot is that of the last assignment to it, if there is one. -/
theorem assignAll_eq_getLast {κ ν : Type*} [DecidableEq κ] (f : κ → ν) (l : List (κ × ν))
    (k : κ) :
    assignAll f l k = ((l.filter fun p => p.1 = k).getLast?.map Prod.snd).getD (f k) := by
  induction l generalizing f with
  | nil => rfl
  | cons p l ih =>
      rw [assignAll_cons, ih]
      by_cases hk : p.1 = k
      · rw [List.filter_cons_of_pos (by rwa [decide_eq_true_eq]), List.getLast?_cons, ← hk,
          Function.update_self]
        cases (l.filter fun q => decide (q.1 = p.1)).getLast? <;> rfl
      · rw [List.filter_cons_of_neg (by rwa [decide_eq_true_eq]),
          Function.update_of_ne (Ne.symm hk)]

theorem assignAll_of_last {κ ν : Type*} [DecidableEq κ] {f : κ → ν} {before after : List (κ × ν)}
    {p : κ × ν} (h : ∀ q ∈ after, q.1 = p.1 → q.2 = p.2) :
    assignAll f (before ++ p :: after) p.1 = p.2 := by
  have hsplit : assignAll f (before ++ p :: after) =
      assignAll (Function.update (assignAll f before) p.1 p.2) after :=
    List.foldl_append
  rw [hsplit]
  rcases assignAll_eq_or_mem (Function.update (assignAll f before) p.1 p.2) after p.1 with
    hkept | hmem
  · rw [hkept, Function.update_self]
  · exact h _ hmem rfl

theorem nodup_map_congr {α β γ : Type*} {l : List α} {f : α → β} {g : α → γ}
    (h : ∀ a ∈ l, ∀ b ∈ l, f a = f b ↔ g a = g b) : (l.map f).Nodup ↔ (l.map g).Nodup := by
  rw [List.Nodup, List.pairwise_map, List.Nodup, List.pairwise_map]
  exact List.Pairwise.iff_of_mem fun ha hb => not_congr (h _ ha _ hb)

section Inverse

variable {α κ : Type*} [DecidableEq κ] (slot : α → κ) (u s : κ → α) (l : List (α × α))

def forward : κ → α := assignAll u (l.map fun p => (slot p.1, p.2))

def backward : κ → α := assignAll s (l.map fun p => (slot p.2, p.1))

variable {slot u s l}

theorem forward_of_nodup (h : (l.map fun p => slot p.1).Nodup) {p : α × α} (hp : p ∈ l) :
    forward slot u l (slot p.1) = p.2 := by
  have hkeys : ((l.map fun p => (slot p.1, p.2)).map Prod.fst).Nodup := by
    rwa [List.map_map]
  exact assignAll_of_nodup hkeys (List.mem_map_of_mem (f := fun p => (slot p.1, p.2)) hp)

theorem backward_of_nodup (h : (l.map fun p => slot p.2).Nodup) {p : α × α} (hp : p ∈ l) :
    backward slot s l (slot p.2) = p.1 := by
  have hkeys : ((l.map fun p => (slot p.2, p.1)).map Prod.fst).Nodup := by
    rwa [List.map_map]
  exact assignAll_of_nodup hkeys (List.mem_map_of_mem (f := fun p => (slot p.2, p.1)) hp)

/-- The tables are inverse to each other on the pairs, and the second components
are distinct, exactly when no two pairs share a slot in either table. -/
theorem inverse_iff :
    ((l.map Prod.snd).Nodup ∧
      (∀ p ∈ l, backward slot s l (slot (forward slot u l (slot p.1))) = p.1) ∧
      ∀ p ∈ l, forward slot u l (slot (backward slot s l (slot p.2))) = p.2) ↔
    (l.map fun p => slot p.1).Nodup ∧ (l.map fun p => slot p.2).Nodup := by
  constructor
  · rintro ⟨hnodup, _, hfb⟩
    have hsecond : (l.map fun p => slot p.2).Nodup := by
      have hmap : (l.map fun p => slot p.2) = (l.map Prod.snd).map slot := by
        rw [List.map_map]
        rfl
      rw [hmap]
      refine hnodup.map_on ?_
      intro x hx y hy hxy
      obtain ⟨p, hp, rfl⟩ := List.mem_map.1 hx
      obtain ⟨q, hq, rfl⟩ := List.mem_map.1 hy
      rw [← hfb p hp, ← hfb q hq, hxy]
    have hforward : ∀ p ∈ l, forward slot u l (slot p.1) = p.2 := by
      intro p hp
      have h := hfb p hp
      rwa [backward_of_nodup hsecond hp] at h
    refine ⟨?_, hsecond⟩
    -- the second component is a function of the slot of the first
    have hmap : (l.map fun p => slot p.1).map (forward slot u l) = l.map Prod.snd := by
      rw [List.map_map]
      exact List.map_congr_left hforward
    exact List.Nodup.of_map _ (hmap ▸ hnodup)
  · rintro ⟨hfirst, hsecond⟩
    refine ⟨List.Nodup.of_map slot (by rwa [List.map_map]), fun p hp => ?_, fun p hp => ?_⟩
    · rw [forward_of_nodup hfirst hp, backward_of_nodup hsecond hp]
    · rw [backward_of_nodup hsecond hp, forward_of_nodup hfirst hp]

end Inverse

end Memory
