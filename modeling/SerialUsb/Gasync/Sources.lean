import Mathlib.Data.Int.Notation
import Mathlib.Data.Nat.Notation
import Mathlib.Logic.Function.Basic

/-!
# Event sources

The table of `gpoll.c` and the two functions that change it. A callback is a function pointer of
any kind, and `none` is NULL.
-/

namespace SerialUsb

abbrev maxSources : ℕ := 1024

/-- An element of `sources`; `pollin` and `pollout` are the bits of its `event`. -/
structure Source (κ : Type*) where
  user : ℤ
  fpRead : Option κ
  fpWrite : Option κ
  fpClose : Option κ
  pollin : Bool
  pollout : Bool
deriving DecidableEq

def Source.empty {κ : Type*} : Source κ := ⟨0, none, none, none, false, false⟩

structure Gpoll (κ : Type*) where
  sources : ℕ → Source κ
  maxSource : ℕ

def Gpoll.start {κ : Type*} : Gpoll κ := ⟨fun _ => Source.empty, 0⟩

def Source.register {κ : Type*} (source : Source κ) (user : ℤ)
    (fpRead fpWrite fpClose : Option κ) : Source κ where
  user := user
  fpRead := fpRead.or source.fpRead
  fpWrite := fpWrite.or source.fpWrite
  fpClose := fpClose
  pollin := source.pollin || fpRead.isSome
  pollout := source.pollout || fpWrite.isSome

def registerAccepts {κ : Type*} (fd : ℤ) (fpRead fpWrite fpClose : Option κ) : Bool :=
  fpClose.isSome && (fpRead.isSome || fpWrite.isSome) && decide (0 ≤ fd ∧ fd < maxSources)

def gpollRegisterFd {κ : Type*} (g : Gpoll κ) (fd user : ℤ)
    (fpRead fpWrite fpClose : Option κ) : Gpoll κ × ℤ :=
  if fpClose = none then (g, -1)
  else if fpRead = none ∧ fpWrite = none then (g, -1)
  else if fd < 0 ∨ maxSources ≤ fd then (g, -1)
  else
    (⟨Function.update g.sources fd.toNat
        ((g.sources fd.toNat).register user fpRead fpWrite fpClose),
      if (g.maxSource : ℤ) < fd then fd.toNat else g.maxSource⟩, 0)

def gpollRemoveFd {κ : Type*} (g : Gpoll κ) (fd : ℤ) : Gpoll κ :=
  if 0 ≤ fd ∧ fd < maxSources then
    { g with sources := Function.update g.sources fd.toNat Source.empty }
  else g

section

variable {κ : Type*} {fd user : ℤ} {fpRead fpWrite fpClose : Option κ}

theorem registerAccepts_iff :
    registerAccepts fd fpRead fpWrite fpClose = true ↔
      fpClose ≠ none ∧ ¬ (fpRead = none ∧ fpWrite = none) ∧ 0 ≤ fd ∧ fd < maxSources := by
  unfold registerAccepts
  cases fpClose <;> cases fpRead <;> cases fpWrite <;> simp

theorem gpollRegisterFd_of_refused (g : Gpoll κ)
    (h : registerAccepts fd fpRead fpWrite fpClose = false) :
    gpollRegisterFd g fd user fpRead fpWrite fpClose = (g, -1) := by
  have hnot := mt registerAccepts_iff.2 (Bool.eq_false_iff.1 h)
  unfold gpollRegisterFd
  split
  · rfl
  next hclose =>
    split
    · rfl
    next hcallbacks =>
      rw [if_pos]
      by_contra hbounds
      exact hnot ⟨hclose, hcallbacks, by omega⟩

theorem gpollRegisterFd_of_accepts (g : Gpoll κ)
    (h : registerAccepts fd fpRead fpWrite fpClose = true) :
    gpollRegisterFd g fd user fpRead fpWrite fpClose =
      (⟨Function.update g.sources fd.toNat
          ((g.sources fd.toNat).register user fpRead fpWrite fpClose),
        if (g.maxSource : ℤ) < fd then fd.toNat else g.maxSource⟩, 0) := by
  obtain ⟨hclose, hcallbacks, hlow, hhigh⟩ := registerAccepts_iff.1 h
  unfold gpollRegisterFd
  rw [if_neg hclose, if_neg hcallbacks, if_neg (by omega)]

theorem gpollRegisterFd_ret (g : Gpoll κ) :
    (gpollRegisterFd g fd user fpRead fpWrite fpClose).2 =
      if registerAccepts fd fpRead fpWrite fpClose then 0 else -1 := by
  split
  next h => rw [gpollRegisterFd_of_accepts g h]
  next h => rw [gpollRegisterFd_of_refused g (Bool.eq_false_iff.2 h)]

end

end SerialUsb
