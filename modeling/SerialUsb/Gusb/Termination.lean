import SerialUsb.Gusb.Walk

/-!
# When the walks over the configurations end

`probe_configurations` ends for whatever outcomes of its calls exactly when it comes to no
sub-descriptor of length 0 that is accepted with everything before it.
-/

namespace SerialUsb

open Framing

variable {env : Environment} {d : GusbDevice}

/-- For whatever outcomes of the calls, the function returns 0 or -1 after at most
`wTotalLength` iterations for each configuration, each of them behind the one before. -/
def Terminates (raws : List RawConfiguration) : Prop :=
  ∀ env d, ∃ d' rs ret,
    probeConfigurations env (fun raw => raw.wTotalLength.toNat) d raws = some (d', rs, ret) ∧
      (ret = 0 ∨ ret = -1) ∧ ∀ r ∈ rs, r.visited.Pairwise (· < ·)

def NoneStuck (raws : List RawConfiguration) : Prop :=
  ∀ before raw after, raws = before ++ raw :: after →
    (∀ r ∈ before, r.AllAccepted r.positions) → raw.AllAccepted raw.positions →
    ∀ p ∈ raw.positions, raw.descriptorLength p ≠ 0

theorem noneStuck_cons {raw : RawConfiguration} {raws : List RawConfiguration} :
    NoneStuck (raw :: raws) ↔ (raw.AllAccepted raw.positions →
      (∀ p ∈ raw.positions, raw.descriptorLength p ≠ 0) ∧ NoneStuck raws) := by
  unfold NoneStuck
  rw [forall_split_cons]
  simp only [List.forall_mem_cons]
  constructor
  · rintro ⟨hfirst, hrest⟩ haccepted
    refine ⟨hfirst (fun r hr => absurd hr List.not_mem_nil) haccepted, ?_⟩
    exact fun before next after heq hbefore => hrest before next after heq ⟨haccepted, hbefore⟩
  · intro h
    refine ⟨fun _ haccepted => (h haccepted).1, fun before next after heq hbefore => ?_⟩
    exact (h hbefore.1).2 before next after heq hbefore.2

theorem exists_probeConfigurations {raws : List RawConfiguration} (h : NoneStuck raws)
    (env : Environment) (d : GusbDevice) :
    ∃ d' rs ret,
      probeConfigurations env (fun raw => raw.wTotalLength.toNat) d raws = some (d', rs, ret) ∧
        (ret = 0 ∨ ret = -1) ∧ ∀ r ∈ rs, r.visited.Pairwise (· < ·) := by
  induction raws generalizing d with
  | nil => exact ⟨d, [], 0, rfl, Or.inl rfl, fun r hr => absurd hr List.not_mem_nil⟩
  | cons raw raws ih =>
      rw [noneStuck_cons] at h
      rw [probeConfigurations]
      rcases probeConfiguration_cases env raw.wTotalLength.toNat d raw with
        ⟨-, d', s, heq⟩ | ⟨d', -, heq⟩
      · rw [heq]
        refine ⟨d', [⟨d', s, [], -1⟩], -1, rfl, Or.inr rfl, fun r hr => ?_⟩
        rw [List.mem_singleton.1 hr]
        exact List.Pairwise.nil
      · have hends : (∀ p ∈ raw.positions, raw.descriptorLength p ≠ 0) ∨
            ¬ (Probing.start raw).AcceptsAll
              ((Probing.start raw).tree.raw.positionsFrom raw.bLength) := by
          by_cases haccepted : raw.AllAccepted raw.positions
          · exact Or.inl (h haccepted).1
          · exact Or.inr fun hall => haccepted (raw.acceptsAll_positions_iff.1 hall)
        obtain ⟨r, hr, hprefix⟩ := probeLoop_returns (s := Probing.start raw) env d'
          (Nat.sub_le _ _) hends
        have hvisited : r.visited.Pairwise (· < ·) :=
          raw.pairwise_positions.sublist hprefix.sublist
        change probeLoop env raw.wTotalLength.toNat d' _ _ = _ at hr
        rw [heq, hr]
        rcases probeLoop_ret hr with hret | hret
        · have hwalked := walked_of_ret hr hret
          have haccepted := raw.acceptsAll_positions_iff.1 hwalked.accepted
          obtain ⟨d'', rs, ret, hrest, hrets, hall⟩ := ih (h haccepted).2 r.device
          refine ⟨d'', r :: rs, ret, ?_, hrets, fun q hq => ?_⟩
          · dsimp only
            rw [if_neg (by omega), hrest]
            rfl
          · rcases List.mem_cons.1 hq with rfl | hq
            · exact hvisited
            · exact hall q hq
        · refine ⟨r.device, [r], -1, if_pos (by omega), Or.inr rfl, fun q hq => ?_⟩
          rw [List.mem_singleton.1 hq]
          exact hvisited

theorem noneStuck_of_succeeds (hs : env.Succeeds) (iterations : RawConfiguration → ℕ)
    {raws : List RawConfiguration}
    (h : probeConfigurations env iterations d raws ≠ none) : NoneStuck raws := by
  induction raws generalizing d with
  | nil => exact forall_split_nil
  | cons raw raws ih =>
      rw [noneStuck_cons]
      intro haccepted
      rcases probeConfiguration_cases env (iterations raw) d raw with
        ⟨hfails, -⟩ | ⟨d', -, heq⟩
      · exact absurd hs hfails
      · have haccepts := raw.acceptsAll_positions_iff.2 haccepted
        rw [probeConfigurations, heq] at h
        constructor
        · intro p hp hzero
          rw [probeLoop_none hs haccepts ⟨p, hp, hzero⟩] at h
          exact h rfl
        · cases hr : probeLoop env (iterations raw) d' (Probing.start raw) raw.bLength with
          | none =>
              rw [hr] at h
              exact absurd rfl h
          | some r =>
              have hret := probeLoop_ret_zero hs haccepts hr
              rw [hr] at h
              dsimp only at h
              rw [if_neg (by omega)] at h
              exact ih fun hnone => h (by rw [hnone]; rfl)

/-- The function always ends exactly when no walk comes to an accepted descriptor of
length 0. -/
theorem terminates_iff (raws : List RawConfiguration) : Terminates raws ↔ NoneStuck raws := by
  constructor
  · intro h
    obtain ⟨d', rs, ret, heq, -⟩ := h Environment.empty GusbDevice.start
    exact noneStuck_of_succeeds Environment.empty_succeeds _ (Option.ne_none_iff_exists'.2 ⟨_, heq⟩)
  · exact exists_probeConfigurations

/-- Behind the configuration descriptor stand two zero bytes: an empty descriptor of type 0. -/
theorem not_terminates_empty_descriptor :
    ¬ Terminates [RawConfiguration.ofBytes [9, 2, 11, 0, 0, 1, 0, 0x80, 50, 0, 0]] := by
  intro h
  obtain ⟨d', rs, ret, heq, -⟩ := h Environment.empty GusbDevice.start
  cases (show none = some (d', rs, ret) from heq)

end SerialUsb
