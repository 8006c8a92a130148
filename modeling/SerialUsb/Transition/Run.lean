import Mathlib.Data.List.Basic
import Mathlib.Data.Option.Basic

/-!
# Runs of a partial transition function

`next s e` is the state after the event `e` in the state `s`, and `none` when
`e` cannot happen in `s`. `exec next s es` runs a whole list of events. A
property of the states a run visits is `Always`, a condition on the steps it
takes is `Along`; the rules below carry an invariant from one step to a run,
for all runs or for those whose steps meet a condition.
-/

namespace Transition

/-- The state after a list of events; `none` as soon as one cannot happen. -/
def exec {σ ε : Type*} (next : σ → ε → Option σ) : σ → List ε → Option σ
  | s, [] => some s
  | s, e :: es => (next s e).bind fun t => exec next t es

@[simp] theorem exec_nil {σ ε : Type*} (next : σ → ε → Option σ) (s : σ) :
    exec next s [] = some s := rfl

theorem exec_cons {σ ε : Type*} (next : σ → ε → Option σ) (s : σ) (e : ε)
    (es : List ε) :
    exec next s (e :: es) = (next s e).bind fun t => exec next t es := rfl

theorem exec_cons_eq_some {σ ε : Type*} {next : σ → ε → Option σ} {s u : σ}
    {e : ε} {es : List ε} (h : exec next s (e :: es) = some u) :
    ∃ t, next s e = some t ∧ exec next t es = some u := by
  rw [exec_cons, Option.bind_eq_some_iff] at h
  exact h

/-- What every step preserves, every run preserves. -/
theorem exec_invariant {σ ε : Type*} {next : σ → ε → Option σ} {I : σ → Prop}
    (hstep : ∀ s e t, I s → next s e = some t → I t) {s t : σ} {es : List ε}
    (hs : I s) (hrun : exec next s es = some t) : I t := by
  induction es generalizing s with
  | nil =>
      rw [exec_nil, Option.some.injEq] at hrun
      exact hrun ▸ hs
  | cons e es ih =>
      obtain ⟨u, hu, hrest⟩ := exec_cons_eq_some hrun
      exact ih (hstep s e u hs hu) hrest

/-- Where a part of the state has its own transition function, its run is the part of a run. -/
theorem exec_map {σ τ ε : Type*} {next : σ → ε → Option σ} {next' : τ → ε → Option τ}
    {f : σ → τ} (hstep : ∀ s e t, next s e = some t → next' (f s) e = some (f t)) {s t : σ}
    {es : List ε} (hrun : exec next s es = some t) : exec next' (f s) es = some (f t) := by
  induction es generalizing s with
  | nil => exact congrArg some (congrArg f (Option.some.inj hrun))
  | cons e es ih =>
      obtain ⟨u, hu, hrest⟩ := exec_cons_eq_some hrun
      rw [exec_cons, hstep s e u hu]
      exact ih hrest

/-- What every step preserves together with a step of `view`, every run preserves together
with the fold over its events. -/
theorem exec_foldl {σ ε α : Type*} {next : σ → ε → Option σ} {view : α → ε → α}
    {R : σ → α → Prop} (hstep : ∀ s a e t, R s a → next s e = some t → R t (view a e))
    {s t : σ} {a : α} {es : List ε} (hs : R s a) (hrun : exec next s es = some t) :
    R t (es.foldl view a) := by
  induction es generalizing s a with
  | nil =>
      rw [exec_nil, Option.some.injEq] at hrun
      exact hrun ▸ hs
  | cons e es ih =>
      obtain ⟨u, hu, hrest⟩ := exec_cons_eq_some hrun
      exact ih (hstep s a e u hs hu) hrest

/-- Every step of the run meets the condition `C` on the state it is taken in
and on its event. -/
def Along {σ ε : Type*} (next : σ → ε → Option σ) (C : σ → ε → Prop) :
    σ → List ε → Prop
  | _, [] => True
  | s, e :: es => C s e ∧ ∀ t, next s e = some t → Along next C t es

instance decidableAlong {σ ε : Type*} (next : σ → ε → Option σ) (C : σ → ε → Prop)
    [hC : ∀ s e, Decidable (C s e)] :
    (s : σ) → (es : List ε) → Decidable (Along next C s es)
  | _, [] => isTrue trivial
  | s, e :: es =>
      match h : next s e with
      | none =>
          decidable_of_iff (C s e)
            ⟨fun hc => ⟨hc, fun t ht => absurd (h.symm.trans ht) (by simp)⟩, And.left⟩
      | some t =>
          have := decidableAlong next C t es
          decidable_of_iff (C s e ∧ Along next C t es)
            ⟨fun hc => ⟨hc.1, fun _ hu => Option.some.inj (h.symm.trans hu) ▸ hc.2⟩,
              fun hc => ⟨hc.1, hc.2 t h⟩⟩

theorem along_of_forall {σ ε : Type*} {next : σ → ε → Option σ} {C : ε → Prop} {s : σ}
    {es : List ε} (h : ∀ e ∈ es, C e) : Along next (fun _ e => C e) s es := by
  induction es generalizing s with
  | nil => trivial
  | cons e es ih =>
      rw [List.forall_mem_cons] at h
      exact ⟨h.1, fun t _ => ih h.2⟩

theorem exec_invariant_along {σ ε : Type*} {next : σ → ε → Option σ}
    {C : σ → ε → Prop} {I : σ → Prop}
    (hstep : ∀ s e t, I s → C s e → next s e = some t → I t) {s t : σ}
    {es : List ε} (hs : I s) (halong : Along next C s es)
    (hrun : exec next s es = some t) : I t := by
  induction es generalizing s with
  | nil =>
      rw [exec_nil, Option.some.injEq] at hrun
      exact hrun ▸ hs
  | cons e es ih =>
      obtain ⟨u, hu, hrest⟩ := exec_cons_eq_some hrun
      exact ih (hstep s e u hs halong.1 hu) (halong.2 u hu) hrest

/-- The transition function that takes the steps that meet `C`, and no others. -/
def guarded {σ ε : Type*} (next : σ → ε → Option σ) (C : σ → ε → Prop)
    [∀ s e, Decidable (C s e)] (s : σ) (e : ε) : Option σ :=
  if C s e then next s e else none

theorem guarded_eq_some {σ ε : Type*} {next : σ → ε → Option σ} {C : σ → ε → Prop}
    [∀ s e, Decidable (C s e)] {s t : σ} {e : ε} :
    guarded next C s e = some t ↔ C s e ∧ next s e = some t :=
  Option.ite_none_right_eq_some

/-- Its runs are the runs along `C`. -/
theorem exec_guarded {σ ε : Type*} {next : σ → ε → Option σ} {C : σ → ε → Prop}
    [∀ s e, Decidable (C s e)] {s t : σ} {es : List ε} :
    exec (guarded next C) s es = some t ↔ Along next C s es ∧ exec next s es = some t := by
  induction es generalizing s with
  | nil => simp [Along]
  | cons e es ih =>
      constructor
      · intro h
        obtain ⟨u, hu, hrest⟩ := exec_cons_eq_some h
        obtain ⟨hC, hnext⟩ := guarded_eq_some.1 hu
        obtain ⟨halong, hrun⟩ := ih.1 hrest
        refine ⟨⟨hC, fun v hv => ?_⟩, by rw [exec_cons, hnext]; exact hrun⟩
        rwa [← Option.some.inj (hnext.symm.trans hv)]
      · rintro ⟨⟨hC, halong⟩, hrun⟩
        obtain ⟨u, hu, hrest⟩ := exec_cons_eq_some hrun
        rw [exec_cons, guarded_eq_some.2 ⟨hC, hu⟩]
        exact ih.2 ⟨halong u hu, hrest⟩

theorem along_of_guarded {σ ε : Type*} {next : σ → ε → Option σ} {C D : σ → ε → Prop}
    [∀ s e, Decidable (D s e)] {s : σ} {es : List ε} (hD : Along next D s es)
    (h : Along (guarded next D) C s es) : Along next C s es := by
  induction es generalizing s with
  | nil => trivial
  | cons e es ih =>
      refine ⟨h.1, fun t ht => ih (hD.2 t ht) (h.2 t ?_)⟩
      exact guarded_eq_some.2 ⟨hD.1, ht⟩

/-- Two conditions on steps that agree under an invariant, which the steps that meet the second
keep: a run meets both or neither. -/
theorem along_congr {σ ε : Type*} {next : σ → ε → Option σ} {C D : σ → ε → Prop}
    {I : σ → Prop} (hiff : ∀ s e, I s → (C s e ↔ D s e))
    (hkeep : ∀ s e t, I s → D s e → next s e = some t → I t) {s : σ} {es : List ε}
    (hs : I s) : Along next C s es ↔ Along next D s es := by
  induction es generalizing s with
  | nil => exact Iff.rfl
  | cons e es ih =>
      constructor
      · rintro ⟨hC, htail⟩
        have hD : D s e := (hiff s e hs).1 hC
        exact ⟨hD, fun t ht => (ih (hkeep s e t hs hD ht)).1 (htail t ht)⟩
      · rintro ⟨hD, htail⟩
        exact ⟨(hiff s e hs).2 hD, fun t ht => (ih (hkeep s e t hs hD ht)).2 (htail t ht)⟩

/-- Every state the run visits, the first and the last included, satisfies
`P`. -/
def Always {σ ε : Type*} (next : σ → ε → Option σ) (P : σ → Prop) :
    σ → List ε → Prop
  | s, [] => P s
  | s, e :: es => P s ∧ ∀ t, next s e = some t → Always next P t es

theorem Always.head {σ ε : Type*} {next : σ → ε → Option σ} {P : σ → Prop}
    {s : σ} {es : List ε} (h : Always next P s es) : P s := by
  cases es with
  | nil => exact h
  | cons e es => exact h.1

theorem Always.last {σ ε : Type*} {next : σ → ε → Option σ} {P : σ → Prop} {s t : σ}
    {es : List ε} (h : Always next P s es) (hrun : exec next s es = some t) : P t := by
  induction es generalizing s with
  | nil =>
      rw [exec_nil, Option.some.injEq] at hrun
      exact hrun ▸ h
  | cons e es ih =>
      obtain ⟨u, hu, hrest⟩ := exec_cons_eq_some hrun
      exact ih (h.2 u hu) hrest

/-- Under an invariant, a property is kept by exactly the steps that meet `C`:
then it holds all along a run exactly when every step of the run meets `C`. -/
theorem always_iff_along {σ ε : Type*} {next : σ → ε → Option σ}
    {C : σ → ε → Prop} {I P : σ → Prop}
    (hinv : ∀ s e t, I s → C s e → next s e = some t → I t)
    (hkeep : ∀ s e t, I s → P s → next s e = some t → (P t ↔ C s e))
    {s t : σ} {es : List ε} (hI : I s) (hP : P s)
    (hrun : exec next s es = some t) :
    Always next P s es ↔ Along next C s es := by
  induction es generalizing s with
  | nil => exact ⟨fun _ => trivial, fun _ => hP⟩
  | cons e es ih =>
      obtain ⟨u, hu, hrest⟩ := exec_cons_eq_some hrun
      have huniq : ∀ v, next s e = some v → v = u := by
        intro v hv
        exact Option.some.inj (hv.symm.trans hu)
      constructor
      · intro h
        have hPu : P u := (h.2 u hu).head
        have hC : C s e := (hkeep s e u hI hP hu).1 hPu
        refine ⟨hC, fun v hv => ?_⟩
        rw [huniq v hv]
        exact (ih (hinv s e u hI hC hu) hPu hrest).1 (h.2 u hu)
      · rintro ⟨hC, htail⟩
        have hPu : P u := (hkeep s e u hI hP hu).2 hC
        refine ⟨hP, fun v hv => ?_⟩
        rw [huniq v hv]
        exact (ih (hinv s e u hI hC hu) hPu hrest).2 (htail u hu)

end Transition
