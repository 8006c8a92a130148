import SerialUsb.Transition.Run

/-!
# Progress of a partial transition function

Some of the steps are said to advance. A measure that they lower, and that no step raises,
bounds their number in every run; and where one of them can be taken as long as a goal has not
been reached, the goal can be reached by steps that advance alone.
-/

namespace Transition

/-- How many steps of a run meet `C`. -/
def steps {σ ε : Type*} (next : σ → ε → Option σ) (C : σ → ε → Prop)
    [∀ s e, Decidable (C s e)] : σ → List ε → ℕ
  | _, [] => 0
  | s, e :: es =>
      (if C s e then 1 else 0) +
        match next s e with
        | some t => steps next C t es
        | none => 0

theorem steps_guarded {σ ε : Type*} {next : σ → ε → Option σ} {C D : σ → ε → Prop}
    [∀ s e, Decidable (C s e)] [∀ s e, Decidable (D s e)] {s : σ} {es : List ε}
    (h : Along next D s es) : steps (guarded next D) C s es = steps next C s es := by
  induction es generalizing s with
  | nil => rfl
  | cons e es ih =>
      rw [steps, steps, guarded, if_pos h.1]
      cases hnext : next s e with
      | none => rfl
      | some t => exact congrArg _ (ih (h.2 t hnext))

/-- No step raises the measure, and those that advance lower it. -/
structure Measures {σ ε : Type*} (next : σ → ε → Option σ) (C : σ → ε → Prop) (I : σ → Prop)
    (m : σ → ℕ) : Prop where
  keeps : ∀ s e t, I s → next s e = some t → I t
  le : ∀ s e t, I s → next s e = some t → m t ≤ m s
  lt : ∀ s e t, I s → next s e = some t → C s e → m t < m s

section Measures

variable {σ ε : Type*} {next : σ → ε → Option σ} {C : σ → ε → Prop} {I : σ → Prop} {m : σ → ℕ}

/-- Every run has at most as many steps that advance as the measure says at its start. -/
theorem Measures.steps_add_le [∀ s e, Decidable (C s e)] (h : Measures next C I m) {s t : σ}
    {es : List ε} (hs : I s) (hrun : exec next s es = some t) :
    steps next C s es + m t ≤ m s := by
  induction es generalizing s with
  | nil =>
      rw [exec_nil, Option.some.injEq] at hrun
      simp [hrun, steps]
  | cons e es ih =>
      obtain ⟨u, hu, hrest⟩ := exec_cons_eq_some hrun
      have htail := ih (h.keeps s e u hs hu) hrest
      have hle := h.le s e u hs hu
      rw [steps, hu]
      dsimp only
      split
      next hC =>
        have hlt := h.lt s e u hs hu hC
        omega
      next => omega

/-- Where a step can advance as long as the goal `G` has not been reached, it can be reached.
`J` is kept by the steps that are taken. -/
theorem Measures.reaches (h : Measures next C I m) {J G : σ → Prop}
    (hcan : ∀ s, I s → J s → ¬ G s → ∃ e t, C s e ∧ next s e = some t ∧ J t) {s : σ}
    (hs : I s) (hJ : J s) :
    ∃ es t, Along next C s es ∧ exec next s es = some t ∧ I t ∧ J t ∧ G t := by
  by_cases hG : G s
  · exact ⟨[], s, trivial, rfl, hs, hJ, hG⟩
  · obtain ⟨e, t, hC, ht, hJt⟩ := hcan s hs hJ hG
    have hlt := h.lt s e t hs ht hC
    obtain ⟨es, u, halong, hrun, hu⟩ := h.reaches hcan (h.keeps s e t hs ht) hJt
    refine ⟨e :: es, u, ⟨hC, fun v hv => ?_⟩, ?_, hu⟩
    · rwa [← Option.some.inj (ht.symm.trans hv)]
    · rw [exec_cons, ht]
      exact hrun
termination_by m s
decreasing_by exact hlt

/-- Where each event of a kind advances until the goal `G` has been reached, a run that has more
of them than the measure says has reached it. -/
theorem Measures.of_lt_countP {D : ε → Bool} {G : σ → Prop}
    (h : Measures next (fun s e => ¬ G s ∧ D e = true) I m)
    (hstable : ∀ s e t, next s e = some t → G s → G t) {s t : σ} {es : List ε} (hs : I s)
    (hrun : exec next s es = some t) (hcount : m s < es.countP D) : G t := by
  by_contra hnot
  have hbefore : ∀ {s es}, exec next s es = some t → ¬ G s := by
    intro s es hrun hG
    exact hnot (exec_invariant (fun s e t hG hnext => hstable s e t hnext hG) hG hrun)
  suffices hle : es.countP D + m t ≤ m s by omega
  clear hcount
  induction es generalizing s with
  | nil =>
      rw [exec_nil, Option.some.injEq] at hrun
      simp [hrun]
  | cons e es ih =>
      have hG := hbefore hrun
      obtain ⟨u, hu, hrest⟩ := exec_cons_eq_some hrun
      have htail := ih (h.keeps s e u hs hu) hrest
      have hle := h.le s e u hs hu
      rw [List.countP_cons]
      split
      next hD =>
        have hlt := h.lt s e u hs hu ⟨hG, hD⟩
        omega
      next => omega

end Measures

end Transition
