import SerialUsb.Gusb.Layout
import SerialUsb.Gusb.Probe

/-!
# How the walk ends

The loop of `probe_configurations` goes over the positions of the sub-descriptors. It returns 0
behind the last of them when all are accepted, and -1 at one of them when a descriptor is
refused or a call fails. At a descriptor of length 0 that is accepted it stays forever.
-/

namespace SerialUsb

open Framing

def RawConfiguration.positionsFrom (r : RawConfiguration) (p : ℕ) : List ℕ :=
  records r.descriptorLength r.wTotalLength.toNat p

variable {env : Environment} {d : GusbDevice} {s : Probing} {p : ℕ} {iterations : ℕ}

theorem Probing.positionsFrom_of_zero (s : Probing) (hlt : p < s.tree.raw.wTotalLength.toNat)
    (hlen : s.tree.raw.descriptorLength p = 0) : s.tree.raw.positionsFrom p = [p] :=
  records_of_zero hlt hlen

theorem Probing.positionsFrom_of_lt (s : Probing) (hlt : p < s.tree.raw.wTotalLength.toNat)
    (hlen : s.tree.raw.descriptorLength p ≠ 0) :
    s.tree.raw.positionsFrom p = p ::
      (s.handle p).tree.raw.positionsFrom (p + s.tree.raw.descriptorLength p) := by
  rw [s.handle_raw]
  exact records_of_lt hlt hlen

/-- An iteration ends the loop with -1, or the loop goes on behind the descriptor. -/
theorem probeLoop_succ (env : Environment) (iterations : ℕ) (d : GusbDevice) (s : Probing)
    (h : p < s.tree.raw.wTotalLength.toNat) :
    (env.Succeeds → ¬ s.Accepts p) ∧
        (∃ d' s', probeLoop env (iterations + 1) d s p = some ⟨d', s', [p], -1⟩) ∨
      s.Accepts p ∧ ∃ d', d'.endpoints = d.endpoints.handle s.tree.raw p ∧
        probeLoop env (iterations + 1) d s p =
          (probeLoop env iterations d' (s.handle p) (p + s.tree.raw.descriptorLength p)).map
            fun r => { r with visited := p :: r.visited } := by
  have hcases := probeDescriptor_cases env d s p
  rw [probeLoop, if_pos h]
  generalize probeDescriptor env d s p = x at hcases
  obtain ⟨d', s', ret⟩ := x
  rcases hcases with ⟨hret, hrefused⟩ | ⟨hret, haccepts, hinfos⟩
  · have hneg : ret < 0 := by
      change ret = -1 at hret
      omega
    exact Or.inl ⟨hrefused, d', s', if_pos hneg⟩
  · obtain ⟨rfl, rfl⟩ := Prod.mk.inj hret
    exact Or.inr ⟨haccepts, d', hinfos, rfl⟩

theorem probeLoop_of_le (env : Environment) (iterations : ℕ) (d : GusbDevice)
    (h : s.tree.raw.wTotalLength.toNat ≤ p) :
    probeLoop env iterations d s p = some ⟨d, s, [], 0⟩ := by
  cases iterations <;> exact if_neg (Nat.not_lt.2 h)

theorem probeLoop_zero (env : Environment) (d : GusbDevice)
    (h : p < s.tree.raw.wTotalLength.toNat) : probeLoop env 0 d s p = none := if_pos h

theorem probeLoop_ret {r : ProbeResult} (h : probeLoop env iterations d s p = some r) :
    r.ret = 0 ∨ r.ret = -1 := by
  induction iterations generalizing d s p r with
  | zero =>
      by_cases hlt : p < s.tree.raw.wTotalLength.toNat
      · rw [probeLoop_zero env d hlt] at h
        cases h
      · rw [probeLoop_of_le env 0 d (Nat.not_lt.1 hlt)] at h
        exact Or.inl (congrArg ProbeResult.ret (Option.some.inj h)).symm
  | succ iterations ih =>
      by_cases hlt : p < s.tree.raw.wTotalLength.toNat
      · rcases probeLoop_succ env iterations d s hlt with ⟨-, d', s', heq⟩ | ⟨-, d', -, heq⟩
        · rw [heq] at h
          exact Or.inr (congrArg ProbeResult.ret (Option.some.inj h)).symm
        · rw [heq] at h
          obtain ⟨r', hr', rfl⟩ := Option.map_eq_some_iff.1 h
          exact ih (r := r') hr'
      · rw [probeLoop_of_le env _ d (Nat.not_lt.1 hlt)] at h
        exact Or.inl (congrArg ProbeResult.ret (Option.some.inj h)).symm

structure Walked (infos : EndpointInfos) (s : Probing) (p : ℕ) (r : ProbeResult) : Prop where
  advances : ∀ q ∈ s.tree.raw.positionsFrom p, s.tree.raw.descriptorLength q ≠ 0
  accepted : s.AcceptsAll (s.tree.raw.positionsFrom p)
  probing : r.probing = s.handleAll (s.tree.raw.positionsFrom p)
  endpoints : r.device.endpoints =
    (s.tree.raw.positionsFrom p).foldl (EndpointInfos.handle s.tree.raw) infos

theorem walked_of_le (h : s.tree.raw.wTotalLength.toNat ≤ p) :
    Walked d.endpoints s p ⟨d, s, [], 0⟩ := by
  have hnone : s.tree.raw.positionsFrom p = [] := records_of_le h
  constructor
  · rw [hnone]
    exact fun q hq => absurd hq List.not_mem_nil
  · rw [hnone]
    trivial
  · rw [hnone]
    rfl
  · rw [hnone]
    rfl

theorem walked_of_ret {r : ProbeResult} (h : probeLoop env iterations d s p = some r)
    (hret : r.ret = 0) : Walked d.endpoints s p r := by
  induction iterations generalizing d s p r with
  | zero =>
      by_cases hlt : p < s.tree.raw.wTotalLength.toNat
      · rw [probeLoop_zero env d hlt] at h
        cases h
      · rw [probeLoop_of_le env 0 d (Nat.not_lt.1 hlt)] at h
        rw [← Option.some.inj h]
        exact walked_of_le (Nat.not_lt.1 hlt)
  | succ iterations ih =>
      by_cases hlt : p < s.tree.raw.wTotalLength.toNat
      · rcases probeLoop_succ env iterations d s hlt with
          ⟨-, d', s', heq⟩ | ⟨haccepts, d', hinfos, heq⟩
        · rw [heq] at h
          rw [← Option.some.inj h] at hret
          exact absurd hret (show (-1 : Int) ≠ 0 by decide)
        · rw [heq] at h
          obtain ⟨r', hr', rfl⟩ := Option.map_eq_some_iff.1 h
          have hrest := ih hr' hret
          have hraw := s.handle_raw p
          by_cases hlen : s.tree.raw.descriptorLength p = 0
          · -- the rest of the walk starts at the same descriptor
            have hsame : (s.handle p).tree.raw.positionsFrom
                (p + s.tree.raw.descriptorLength p) = [p] := by
              rw [hraw, hlen]
              exact records_of_zero hlt hlen
            have hne := hrest.advances p (by rw [hsame]; exact List.mem_cons_self)
            rw [hraw] at hne
            exact absurd hlen hne
          · have hsplit := s.positionsFrom_of_lt hlt hlen
            refine ⟨?_, ?_, ?_, ?_⟩
            · rw [hsplit]
              intro q hq
              rcases List.mem_cons.1 hq with rfl | hq
              · exact hlen
              · exact hraw ▸ hrest.advances q hq
            · rw [hsplit]
              exact ⟨haccepts, hrest.accepted⟩
            · rw [hsplit]
              exact hrest.probing
            · have hend := hrest.endpoints
              rw [hraw] at hend
              rw [hsplit, hraw, List.foldl_cons, ← hinfos]
              exact hend
      · rw [probeLoop_of_le env _ d (Nat.not_lt.1 hlt)] at h
        rw [← Option.some.inj h]
        exact walked_of_le (Nat.not_lt.1 hlt)

/-- A walk without an accepted descriptor of length 0 ends, and each of its iterations is at
the next position. -/
theorem probeLoop_returns (env : Environment) (d : GusbDevice)
    (hfuel : s.tree.raw.wTotalLength.toNat - p ≤ iterations)
    (h : (∀ q ∈ s.tree.raw.positionsFrom p, s.tree.raw.descriptorLength q ≠ 0) ∨
      ¬ s.AcceptsAll (s.tree.raw.positionsFrom p)) :
    ∃ r, probeLoop env iterations d s p = some r ∧
      r.visited <+: s.tree.raw.positionsFrom p := by
  induction iterations generalizing d s p with
  | zero =>
      have hle : s.tree.raw.wTotalLength.toNat ≤ p := by omega
      exact ⟨_, probeLoop_of_le env 0 d hle, List.nil_prefix⟩
  | succ iterations ih =>
      by_cases hlt : p < s.tree.raw.wTotalLength.toNat
      · have hraw := s.handle_raw p
        by_cases hlen : s.tree.raw.descriptorLength p = 0
        · have hlast := s.positionsFrom_of_zero hlt hlen
          rw [hlast] at h ⊢
          rcases probeLoop_succ env iterations d s hlt with ⟨-, d', s', heq⟩ | ⟨haccepts, -⟩
          · exact ⟨_, heq, List.prefix_refl _⟩
          · rcases h with h | h
            · exact absurd hlen (h p List.mem_cons_self)
            · exact absurd ⟨haccepts, trivial⟩ h
        · have hsplit := s.positionsFrom_of_lt hlt hlen
          rw [hsplit] at h ⊢
          rcases probeLoop_succ env iterations d s hlt with
            ⟨-, d', s', heq⟩ | ⟨haccepts, d', -, heq⟩
          · exact ⟨_, heq, List.prefix_append [p] _⟩
          · have hfuel' : (s.handle p).tree.raw.wTotalLength.toNat -
                (p + s.tree.raw.descriptorLength p) ≤ iterations := by
              rw [hraw]
              omega
            have hrest : (∀ q ∈ (s.handle p).tree.raw.positionsFrom
                (p + s.tree.raw.descriptorLength p),
                (s.handle p).tree.raw.descriptorLength q ≠ 0) ∨
                ¬ (s.handle p).AcceptsAll ((s.handle p).tree.raw.positionsFrom
                  (p + s.tree.raw.descriptorLength p)) := by
              rcases h with h | h
              · rw [hraw] at h ⊢
                exact Or.inl fun q hq => h q (List.mem_cons_of_mem p hq)
              · exact Or.inr fun hacc => h ⟨haccepts, hacc⟩
            obtain ⟨r, hr, hprefix⟩ := ih (d := d') hfuel' hrest
            refine ⟨{ r with visited := p :: r.visited }, ?_, ?_⟩
            · rw [heq, hr]
              rfl
            · exact List.prefix_cons_inj p |>.2 hprefix
      · exact ⟨_, probeLoop_of_le env _ d (Nat.not_lt.1 hlt), List.nil_prefix⟩

/-- Once at an accepted descriptor of length 0, the loop never returns. -/
theorem probeLoop_stuck (hs : env.Succeeds) (haccepts : s.Accepts p)
    (hlen : s.tree.raw.descriptorLength p = 0) (hlt : p < s.tree.raw.wTotalLength.toNat) :
    probeLoop env iterations d s p = none := by
  induction iterations generalizing d s with
  | zero => exact probeLoop_zero env d hlt
  | succ iterations ih =>
      have hraw := s.handle_raw p
      rcases probeLoop_succ env iterations d s hlt with ⟨hrefused, -⟩ | ⟨-, d', -, heq⟩
      · exact absurd haccepts (hrefused hs)
      · have hagain := ih (d := d') (Probing.accepts_handle haccepts) (hraw ▸ hlen) (hraw ▸ hlt)
        rw [heq, hlen, Nat.add_zero, hagain]
        rfl

theorem probeLoop_none (hs : env.Succeeds) (haccepts : s.AcceptsAll (s.tree.raw.positionsFrom p))
    (hzero : ∃ q ∈ s.tree.raw.positionsFrom p, s.tree.raw.descriptorLength q = 0) :
    probeLoop env iterations d s p = none := by
  have hlt : p < s.tree.raw.wTotalLength.toNat := by
    obtain ⟨q, hq, -⟩ := hzero
    have hbounds := bounds_of_mem_records hq
    omega
  induction iterations generalizing d s p with
  | zero => exact probeLoop_zero env d hlt
  | succ iterations ih =>
      have hraw := s.handle_raw p
      by_cases hlen : s.tree.raw.descriptorLength p = 0
      · have hlast := s.positionsFrom_of_zero hlt hlen
        rw [hlast] at haccepts
        exact probeLoop_stuck hs haccepts.1 hlen hlt
      · have hsplit := s.positionsFrom_of_lt hlt hlen
        rw [hsplit] at haccepts hzero
        rcases probeLoop_succ env iterations d s hlt with ⟨hrefused, -⟩ | ⟨-, d', -, heq⟩
        · exact absurd haccepts.1 (hrefused hs)
        · obtain ⟨q, hq, hq0⟩ := hzero
          have hne : q ≠ p := fun h => hlen (h ▸ hq0)
          have hq' := List.mem_of_ne_of_mem hne hq
          have hlt' : p + s.tree.raw.descriptorLength p <
              (s.handle p).tree.raw.wTotalLength.toNat := by
            have hbounds := bounds_of_mem_records hq'
            omega
          have hnone := ih (d := d') haccepts.2 ⟨q, hq', hraw ▸ hq0⟩ hlt'
          rw [heq, hnone]
          rfl

theorem probeLoop_ret_zero (hs : env.Succeeds)
    (haccepts : s.AcceptsAll (s.tree.raw.positionsFrom p)) {r : ProbeResult}
    (h : probeLoop env iterations d s p = some r) : r.ret = 0 := by
  induction iterations generalizing d s p r with
  | zero =>
      by_cases hlt : p < s.tree.raw.wTotalLength.toNat
      · rw [probeLoop_zero env d hlt] at h
        cases h
      · rw [probeLoop_of_le env 0 d (Nat.not_lt.1 hlt)] at h
        exact (congrArg ProbeResult.ret (Option.some.inj h)).symm
  | succ iterations ih =>
      by_cases hlt : p < s.tree.raw.wTotalLength.toNat
      · have hraw := s.handle_raw p
        by_cases hlen : s.tree.raw.descriptorLength p = 0
        · have hlast := s.positionsFrom_of_zero hlt hlen
          rw [hlast] at haccepts
          rw [probeLoop_stuck hs haccepts.1 hlen hlt] at h
          cases h
        · have hsplit := s.positionsFrom_of_lt hlt hlen
          rw [hsplit] at haccepts
          rcases probeLoop_succ env iterations d s hlt with ⟨hrefused, -⟩ | ⟨-, d', -, heq⟩
          · exact absurd haccepts.1 (hrefused hs)
          · rw [heq] at h
            obtain ⟨r', hr', rfl⟩ := Option.map_eq_some_iff.1 h
            exact ih (r := r') haccepts.2 hr'
      · rw [probeLoop_of_le env _ d (Nat.not_lt.1 hlt)] at h
        exact (congrArg ProbeResult.ret (Option.some.inj h)).symm

theorem RawConfiguration.pairwise_positions (raw : RawConfiguration) :
    raw.positions.Pairwise (· < ·) :=
  pairwise_records ..

theorem RawConfiguration.acceptsAll_positions_iff (raw : RawConfiguration) :
    (Probing.start raw).AcceptsAll ((Probing.start raw).tree.raw.positionsFrom raw.bLength) ↔
      raw.AllAccepted raw.positions :=
  RawConfiguration.acceptsAll_start_iff raw.pairwise_positions

theorem probeConfiguration_cases (env : Environment) (iterations : ℕ) (d : GusbDevice)
    (raw : RawConfiguration) :
    ¬ env.Succeeds ∧ (∃ d' s, probeConfiguration env iterations d raw = some ⟨d', s, [], -1⟩) ∨
      ∃ d', d'.endpoints = d.endpoints ∧ probeConfiguration env iterations d raw =
        probeLoop env iterations d' (Probing.start raw) raw.bLength := by
  unfold probeConfiguration GusbDevice.allocate
  dsimp only
  split
  · refine Or.inr ⟨_, ?_, rfl⟩
    split
    · exact getStringDescriptor_endpoints env _ _
    · rfl
  next hfailed => exact Or.inl ⟨fun hs => hfailed (hs.1 _), _, _, rfl⟩

theorem probeConfiguration_ret {raw : RawConfiguration} {r : ProbeResult}
    (h : probeConfiguration env iterations d raw = some r) : r.ret = 0 ∨ r.ret = -1 := by
  rcases probeConfiguration_cases env iterations d raw with ⟨-, d', s, heq⟩ | ⟨d', -, heq⟩
  · rw [heq] at h
    exact Or.inr (congrArg ProbeResult.ret (Option.some.inj h)).symm
  · rw [heq] at h
    exact probeLoop_ret h

theorem probeConfigurations_ret {iterations : RawConfiguration → ℕ}
    {raws : List RawConfiguration} {d' : GusbDevice} {rs : List ProbeResult} {ret : Int}
    (h : probeConfigurations env iterations d raws = some (d', rs, ret)) :
    ret = 0 ∨ ret = -1 := by
  induction raws generalizing d rs with
  | nil => exact Or.inl (Prod.mk.inj (Prod.mk.inj (Option.some.inj h)).2).2.symm
  | cons raw raws ih =>
      rw [probeConfigurations] at h
      cases hr : probeConfiguration env (iterations raw) d raw with
      | none =>
          rw [hr] at h
          cases h
      | some r =>
          rw [hr] at h
          dsimp only at h
          by_cases hneg : r.ret < 0
          · rw [if_pos hneg] at h
            exact Or.inr (Prod.mk.inj (Prod.mk.inj (Option.some.inj h)).2).2.symm
          · rw [if_neg hneg] at h
            obtain ⟨⟨d'', rest, ret'⟩, hrest, heq⟩ := Option.map_eq_some_iff.1 h
            obtain ⟨rfl, -, rfl⟩ : d'' = d' ∧ r :: rest = rs ∧ ret' = ret := by simpa using heq
            exact ih hrest

theorem probeConfiguration_of_advances (hs : env.Succeeds) {raw : RawConfiguration}
    (haccepted : raw.AllAccepted raw.positions)
    (hadvances : ∀ p ∈ raw.positions, raw.descriptorLength p ≠ 0)
    (hiterations : raw.wTotalLength.toNat ≤ iterations) (d : GusbDevice) :
    ∃ r, probeConfiguration env iterations d raw = some r ∧ r.ret = 0 := by
  rcases probeConfiguration_cases env iterations d raw with ⟨hfails, -⟩ | ⟨d', -, heq⟩
  · exact absurd hs hfails
  · obtain ⟨r, hr, -⟩ := probeLoop_returns (s := Probing.start raw) env d'
      ((Nat.sub_le _ _).trans hiterations) (Or.inl hadvances)
    exact ⟨r, heq.trans hr, probeLoop_ret_zero hs (raw.acceptsAll_positions_iff.2 haccepted) hr⟩

structure Parsed (raw : RawConfiguration) (r : ProbeResult) : Prop where
  advances : ∀ p ∈ raw.positions, raw.descriptorLength p ≠ 0
  accepted : raw.AllAccepted raw.positions
  built : Built raw raw.positions r.probing

theorem parsed_of_ret {raw : RawConfiguration} {r : ProbeResult}
    (h : probeConfiguration env iterations d raw = some r) (hret : r.ret = 0) :
    Parsed raw r ∧ r.device.endpoints =
      raw.positions.foldl (EndpointInfos.handle raw) d.endpoints := by
  rcases probeConfiguration_cases env iterations d raw with ⟨-, d', s, heq⟩ | ⟨d', hinfos, heq⟩
  · rw [heq] at h
    rw [← Option.some.inj h] at hret
    exact absurd hret (show (-1 : Int) ≠ 0 by decide)
  · rw [heq] at h
    have hwalked := walked_of_ret h hret
    have haccepted := raw.acceptsAll_positions_iff.1 hwalked.accepted
    refine ⟨⟨hwalked.advances, haccepted, ?_⟩, ?_⟩
    · rw [hwalked.probing]
      exact Built.of_start raw.pairwise_positions haccepted
    · rw [← hinfos]
      exact hwalked.endpoints

/-- A run that returns 0 has parsed every configuration, and the table of `gusb.c` holds what
the endpoint descriptors say, in the order of the walks. -/
theorem parsed_of_probeConfigurations {iterations : RawConfiguration → ℕ}
    {raws : List RawConfiguration} {d' : GusbDevice} {rs : List ProbeResult}
    (h : probeConfigurations env iterations d raws = some (d', rs, 0)) :
    List.Forall₂ Parsed raws rs ∧ d'.endpoints =
      raws.foldl (fun t raw => raw.positions.foldl (EndpointInfos.handle raw) t) d.endpoints := by
  induction raws generalizing d rs with
  | nil =>
      obtain ⟨rfl, rfl, -⟩ := Option.some.inj h
      exact ⟨List.Forall₂.nil, rfl⟩
  | cons raw raws ih =>
      rw [probeConfigurations] at h
      cases hr : probeConfiguration env (iterations raw) d raw with
      | none =>
          rw [hr] at h
          cases h
      | some r =>
          rw [hr] at h
          dsimp only at h
          by_cases hneg : r.ret < 0
          · rw [if_pos hneg] at h
            cases h
          · rw [if_neg hneg] at h
            obtain ⟨⟨d'', rest, ret⟩, hrest, heq⟩ := Option.map_eq_some_iff.1 h
            obtain ⟨rfl, rfl, rfl⟩ : d'' = d' ∧ r :: rest = rs ∧ ret = 0 := by simpa using heq
            have hret : r.ret = 0 := by
              rcases probeConfiguration_ret hr with hzero | hminus
              · exact hzero
              · omega
            obtain ⟨hparsed, hinfos⟩ := parsed_of_ret hr hret
            obtain ⟨hall, hends⟩ := ih hrest
            refine ⟨List.Forall₂.cons hparsed hall, ?_⟩
            rw [hends, hinfos]
            rfl

end SerialUsb
