import Mathlib.Data.List.Basic
import Mathlib.Data.UInt

/-!
# Arrays with a count of one byte

An array that is reallocated to one element more than its count for each new element, with a
count of type `uint8_t`. From the 256th element on the count starts over, and the array with
it: `kept` is what is left of the elements that were put there.
-/

namespace Memory

@[ext] structure CountedArray (α : Type*) where
  count : UInt8
  elements : List α
  count_le : count.toNat ≤ elements.length

/-- The elements of a list behind the last multiple of 256. -/
def kept {α : Type*} (l : List α) : List α := l.drop (l.length / 256 * 256)

theorem length_kept {α : Type*} (l : List α) : (kept l).length = l.length % 256 := by
  rw [kept, List.length_drop]
  omega

theorem kept_of_lt {α : Type*} {l : List α} (h : l.length < 256) : kept l = l := by
  rw [kept, Nat.div_eq_of_lt h, Nat.zero_mul, List.drop_zero]

theorem kept_sublist {α : Type*} (l : List α) : (kept l).Sublist l := List.drop_sublist _ l

theorem kept_concat {α : Type*} (l : List α) (a : α) :
    kept (l ++ [a]) = if l.length % 256 = 255 then [] else kept l ++ [a] := by
  rw [kept, kept, List.length_append, List.length_singleton]
  by_cases hfull : l.length % 256 = 255
  · have hdiv : (l.length + 1) / 256 * 256 = l.length + 1 := by omega
    rw [if_pos hfull, hdiv, List.drop_of_length_le]
    rw [List.length_append, List.length_singleton]
  · have hdiv : (l.length + 1) / 256 = l.length / 256 := by omega
    rw [if_neg hfull, hdiv, List.drop_append_of_le_length (Nat.div_mul_le_self _ _)]

theorem map_modify {α β : Type*} {f : α → α} {g : α → β} (f' : β → β)
    (h : ∀ a, g (f a) = f' (g a)) (l : List α) (i : ℕ) :
    (l.modify i f).map g = (l.map g).modify i f' := by
  induction l generalizing i with
  | nil => cases i <;> rfl
  | cons a l ih =>
      cases i with
      | zero => exact congrArg (· :: l.map g) (h a)
      | succ i => exact congrArg (g a :: ·) (ih i)

theorem map_eq_map_zipIdx {α β : Type*} (l : List α) (f : α → β) :
    l.map f = l.zipIdx.map fun x => f x.1 := by
  conv_lhs => rw [← List.zipIdx_map_fst 0 l]
  rw [List.map_map]
  rfl

/-- A change of the element at an index is a change of the function of elements and indices. -/
theorem modify_map_zipIdx {α β : Type*} {l : List α} {g g' : α × ℕ → β} {i : ℕ} {f : β → β}
    (h : ∀ x ∈ l.zipIdx, g' x = if x.2 = i then f (g x) else g x) :
    (l.zipIdx.map g).modify i f = l.zipIdx.map g' := by
  refine List.ext_getElem? fun j => ?_
  rw [List.getElem?_modify, List.getElem?_map, List.getElem?_map]
  cases hx : l.zipIdx[j]? with
  | none => rfl
  | some x =>
      have hj : x.2 = j := by
        rw [List.getElem?_zipIdx] at hx
        obtain ⟨a, -, rfl⟩ := Option.map_eq_some_iff.1 hx
        exact Nat.zero_add j
      have hmem := List.mem_of_getElem? hx
      simp only [Option.map_some, Option.map_eq_map, h x hmem, hj, eq_comm (a := i)]

namespace CountedArray

variable {α β : Type*}

def empty : CountedArray α := ⟨0, [], Nat.le_refl _⟩

instance : Inhabited (CountedArray α) := ⟨empty⟩

/-- A new element: `realloc` to `count + 1` elements, and `++count`. -/
def push (l : CountedArray α) (a : α) : CountedArray α where
  count := l.count + 1
  elements := l.elements.take l.count.toNat ++ [a]
  count_le := by
    have hcount := l.count_le
    rw [List.length_append, List.length_take, List.length_singleton, UInt8.toNat_add]
    refine (Nat.mod_le _ _).trans ?_
    rw [Nat.min_eq_left hcount]
    exact Nat.le_refl _

def visible (l : CountedArray α) : List α := l.elements.take l.count.toNat

def modify (l : CountedArray α) (i : ℕ) (f : α → α) : CountedArray α where
  count := l.count
  elements := l.elements.modify i f
  count_le := l.count_le.trans_eq (List.length_modify ..).symm

def ofList (l : List α) : CountedArray α := l.foldl push empty

theorem ofList_concat (l : List α) (a : α) : ofList (l ++ [a]) = (ofList l).push a :=
  List.foldl_concat ..

theorem length_visible (l : CountedArray α) : l.visible.length = l.count.toNat := by
  rw [visible, List.length_take, Nat.min_eq_left l.count_le]

theorem visible_push (l : CountedArray α) (a : α) :
    (l.push a).visible = if l.count = 255 then [] else l.visible ++ [a] := by
  have hlt := l.count.toNat_lt
  have htake : (l.elements.take l.count.toNat).length = l.count.toNat := l.length_visible
  have hpush : (l.push a).visible =
      (l.elements.take l.count.toNat ++ [a]).take (l.count + 1).toNat := rfl
  rw [hpush]
  by_cases hfull : l.count = 255
  · have hzero : (l.count + 1).toNat = 0 := by
      rw [hfull]
      rfl
    rw [if_pos hfull, hzero, List.take_zero]
  · rw [if_neg hfull]
    have hne : l.count.toNat ≠ 255 := fun h => hfull (UInt8.toNat_inj.1 h)
    have hcount : (l.count + 1).toNat = l.count.toNat + 1 := by
      rw [UInt8.toNat_add]
      exact Nat.mod_eq_of_lt (by change l.count.toNat + 1 < 256; omega)
    refine List.take_of_length_le ?_
    rw [hcount, List.length_append, htake, List.length_singleton]

theorem count_ofList (l : List α) : (ofList l).count = UInt8.ofNat l.length := by
  induction l using List.reverseRecOn with
  | nil => rfl
  | append_singleton l a ih =>
      rw [ofList_concat, List.length_append, UInt8.ofNat_add, ← ih]
      rfl

theorem visible_ofList (l : List α) : (ofList l).visible = kept l := by
  induction l using List.reverseRecOn with
  | nil => exact List.take_nil.trans List.drop_nil.symm
  | append_singleton l a ih =>
      have hcount : (ofList l).count.toNat = l.length % 256 := by
        rw [count_ofList, UInt8.toNat_ofNat']
      have hfull : (ofList l).count = 255 ↔ l.length % 256 = 255 := by
        rw [← UInt8.toNat_inj, hcount]
        rfl
      rw [ofList_concat, visible_push, kept_concat, ih]
      exact if_congr hfull rfl rfl

theorem visible_modify (l : CountedArray α) (i : ℕ) (f : α → α) :
    (l.modify i f).visible = l.visible.modify i f := List.take_modify ..

end CountedArray

end Memory
