import Mathlib.Data.List.Pairwise
import SerialUsb.Proxy.RawEndpoints

/-!
# What the proxy reads of the rewritten configurations

`fix_endpoints` on the bytes agrees with `fix_endpoints` on the values that are read from them,
when the endpoint descriptors do not lie over each other. This is so in a parsed tree whose
endpoint descriptors announce at least four bytes.
-/

namespace SerialUsb

open Framing

/-- The address of each of two endpoint descriptors is outside of the fields of the other. -/
def Apart (p q : ℕ) : Prop := p + 4 ≤ q ∨ q + 4 ≤ p

theorem Apart.symm {p q : ℕ} (h : Apart p q) : Apart q p := Or.symm h

theorem RawConfiguration.endpoint_congr {r r' : RawConfiguration} {q : ℕ}
    (h : ∀ i, q + 2 ≤ i → i ≤ q + 5 → r.byte i = r'.byte i) : r.endpoint q = r'.endpoint q := by
  unfold RawConfiguration.endpoint RawConfiguration.word
  rw [h (q + 2) (by omega) (by omega), h (q + 3) (by omega) (by omega),
    h (q + 4) (by omega) (by omega), h (q + 4 + 1) (by omega) (by omega)]

theorem RawConfiguration.endpoint_setByte {r : RawConfiguration} {p q : ℕ} (h : Apart p q)
    (b : UInt8) : (r.setByte (p + 2) b).endpoint q = r.endpoint q := by
  apply RawConfiguration.endpoint_congr
  intro i hle hle'
  apply r.setByte_byte_of_ne
  rcases h with h | h <;> omega

theorem RawConfiguration.endpoint_setByte_self (r : RawConfiguration) (p : ℕ) (b : UInt8) :
    (r.setByte (p + 2) b).endpoint p = { r.endpoint p with bEndpointAddress := b } := by
  have hkept : ∀ i, p + 3 ≤ i → (r.setByte (p + 2) b).byte i = r.byte i := by
    intro i hi
    apply r.setByte_byte_of_ne
    omega
  unfold RawConfiguration.endpoint RawConfiguration.word
  rw [r.setByte_byte, hkept (p + 3) (by omega), hkept (p + 4) (by omega),
    hkept (p + 4 + 1) (by omega)]

section Loop

variable (configurationIndex : ℕ) (renumber : Bool)

theorem endpoint_foldl_fixEndpointAt {ps : List ℕ} {q : ℕ} (h : ∀ p ∈ ps, Apart p q)
    (x : EndpointMaps × RawConfiguration) :
    (ps.foldl (fixEndpointAt configurationIndex renumber) x).2.endpoint q =
      x.2.endpoint q := by
  apply RawConfiguration.endpoint_congr
  intro i hle hle'
  apply foldl_fixEndpointAt_of_ne
  intro p hp
  rcases h p hp with h | h <;> omega

theorem foldl_fixEndpointAt_eq {ps : List ℕ} (h : ps.Pairwise Apart)
    (x : EndpointMaps × RawConfiguration) :
    (ps.foldl (fixEndpointAt configurationIndex renumber) x).1 =
        (forEach (fixEndpoint configurationIndex renumber) x.1 (ps.map x.2.endpoint)).1 ∧
      ps.map (ps.foldl (fixEndpointAt configurationIndex renumber) x).2.endpoint =
        (forEach (fixEndpoint configurationIndex renumber) x.1 (ps.map x.2.endpoint)).2 := by
  induction ps generalizing x with
  | nil => exact ⟨rfl, rfl⟩
  | cons p ps ih =>
      obtain ⟨hfirst, hrest⟩ := List.pairwise_cons.1 h
      obtain ⟨number, address, -, -, hfixed, -⟩ :=
        fixEndpoint_cases configurationIndex renumber x.1 (x.2.endpoint p)
      have hstep : fixEndpointAt configurationIndex renumber x p =
          ((fixEndpoint configurationIndex renumber x.1 (x.2.endpoint p)).1,
            x.2.setByte (p + 2) address) := by
        have hbyte := congrArg EndpointDescriptor.bEndpointAddress hfixed
        exact Prod.ext rfl (congrArg (x.2.setByte (p + 2)) hbyte)
      have hread : ps.map (x.2.setByte (p + 2) address).endpoint = ps.map x.2.endpoint :=
        List.map_congr_left fun q hq => RawConfiguration.endpoint_setByte (hfirst q hq) address
      have hself := endpoint_foldl_fixEndpointAt configurationIndex renumber
        (fun q hq => (hfirst q hq).symm) (fixEndpointAt configurationIndex renumber x p)
      obtain ⟨hmaps, hvalues⟩ := ih hrest (fixEndpointAt configurationIndex renumber x p)
      rw [List.foldl_cons, List.map_cons, List.map_cons, forEach_cons, hself]
      rw [hstep] at hmaps hvalues ⊢
      dsimp only at hmaps hvalues ⊢
      rw [hread] at hmaps hvalues
      rw [RawConfiguration.endpoint_setByte_self, hvalues, hfixed]
      exact ⟨hmaps, rfl⟩

end Loop

structure PConfiguration.Readable (c : PConfiguration) : Prop where
  apart : c.endpoints.Pairwise Apart
  three_le : ∀ p ∈ c.endpoints, 3 ≤ p

/-- One configuration: the maps, and what is read of the descriptors behind the loop. -/
theorem PConfiguration.Readable.fixConfigurationAt {c : PConfiguration} (h : c.Readable)
    (configurationIndex : ℕ) (m : EndpointMaps) :
    (SerialUsb.fixConfigurationAt configurationIndex m c).1 =
        (fixConfiguration configurationIndex m c.read).1 ∧
      (SerialUsb.fixConfigurationAt configurationIndex m c).2.read.endpoints =
        (fixConfiguration configurationIndex m c.read).2.endpoints := by
  have hloop := fixConfigurationAt_eq configurationIndex m h.three_le
  have hmaps := congrArg Prod.fst hloop
  have hraw := congrArg Prod.snd hloop
  obtain ⟨hvalues, hendpoints⟩ := fixConfiguration_eq configurationIndex m c.read
  obtain ⟨hfst, hsnd⟩ := foldl_fixEndpointAt_eq configurationIndex c.renumber h.apart
    ({ m with number := 0 }, c.raw)
  have hcount : (SerialUsb.fixConfigurationAt configurationIndex m c).2.raw.bNumInterfaces =
      c.raw.bNumInterfaces := by
    dsimp only at hraw
    rw [hraw]
    apply foldl_fixEndpointAt_of_ne
    intro p hp
    have hthree := h.three_le p hp
    omega
  have hsame : (SerialUsb.fixConfigurationAt configurationIndex m c).2.endpoints =
      c.endpoints := by
    unfold PConfiguration.endpoints
    rw [hcount]
    rfl
  constructor
  · rw [hvalues, c.endpoints_read]
    exact hmaps.trans hfst
  · rw [hendpoints, PConfiguration.endpoints_read, hsame, c.endpoints_read]
    dsimp only at hraw
    rw [hraw]
    exact hsnd

def RawConfiguration.LongEndpoints (r : RawConfiguration) : Prop :=
  ∀ e ∈ r.positions, r.isEndpoint e → 4 ≤ r.descriptorLength e

theorem Parsed.readable {raw : RawConfiguration} {r : ProbeResult} (h : Parsed raw r)
    (hlong : raw.LongEndpoints) : r.probing.tree.Readable where
  apart := by
    -- of two positions the descriptor at one ends before the other
    have hbefore : raw.positions.Pairwise fun p q =>
        p + raw.descriptorLength p ≤ q ∨ q + raw.descriptorLength q ≤ p :=
      (pairwise_records_add _ _ _).imp Or.inl
    have hsymm : Std.Symm fun p q =>
        p + raw.descriptorLength p ≤ q ∨ q + raw.descriptorLength q ≤ p := ⟨fun _ _ => Or.symm⟩
    refine h.nodup_endpoints.pairwise_of_forall_ne fun p hp q hq hne => ?_
    obtain ⟨hp, hpe, -⟩ := h.built.of_mem_endpoints hp
    obtain ⟨hq, hqe, -⟩ := h.built.of_mem_endpoints hq
    have hplong := hlong p hp hpe
    have hqlong := hlong q hq hqe
    unfold Apart
    rcases hbefore.forall hp hq hne with hle | hle
    · left
      omega
    · right
      omega
  three_le := fun _ => h.three_le_of_mem

theorem fixConfigurationsAt_read {cs : List PConfiguration} (h : ∀ c ∈ cs, c.Readable)
    (configurationIndex : ℕ) (m : EndpointMaps) :
    (fixConfigurationsAt configurationIndex m cs).1 =
        (fixConfigurations configurationIndex m (cs.map PConfiguration.read)).1 ∧
      (fixConfigurationsAt configurationIndex m cs).2.map (fun c => c.read.endpoints) =
        (fixConfigurations configurationIndex m (cs.map PConfiguration.read)).2.map
          Configuration.endpoints := by
  induction cs generalizing configurationIndex m with
  | nil => exact ⟨rfl, rfl⟩
  | cons c cs ih =>
      rw [List.forall_mem_cons] at h
      obtain ⟨hmaps, hendpoints⟩ := h.1.fixConfigurationAt configurationIndex m
      obtain ⟨hrest, hrests⟩ := ih h.2 (configurationIndex + 1)
        (fixConfigurationAt configurationIndex m c).1
      rw [hmaps] at hrest hrests
      rw [List.map_cons, fixConfigurationsAt, fixConfigurations]
      dsimp only
      rw [List.map_cons, List.map_cons, hmaps, hendpoints, hrests]
      exact ⟨hrest, rfl⟩

theorem readable_of_parsed {raws : List RawConfiguration} {rs : List ProbeResult}
    (h : List.Forall₂ Parsed raws rs) (hlong : ∀ raw ∈ raws, raw.LongEndpoints) :
    ∀ c ∈ rs.map fun r => r.probing.tree, c.Readable := by
  induction h with
  | nil => exact fun c hc => absurd hc List.not_mem_nil
  | cons hparsed _ ih =>
      rw [List.forall_mem_cons] at hlong
      rw [List.map_cons]
      exact List.forall_mem_cons.2 ⟨hparsed.readable hlong.1, ih hlong.2⟩

/-- What `fix_endpoints` does to the bytes of parsed trees is what it does to the values that are
read from them. -/
theorem fixEndpointsAt_read {env : Environment} {iterations : RawConfiguration → ℕ}
    {d d' : GusbDevice} {raws : List RawConfiguration} {rs : List ProbeResult}
    (h : probeConfigurations env iterations d raws = some (d', rs, 0))
    (hlong : ∀ raw ∈ raws, raw.LongEndpoints) (m : EndpointMaps) :
    (fixEndpointsAt m (rs.map fun r => r.probing.tree)).1 =
        (fixEndpoints m (rs.map fun r => r.probing.tree.read)).1 ∧
      (fixEndpointsAt m (rs.map fun r => r.probing.tree)).2.map (fun c => c.read.endpoints) =
        (fixEndpoints m (rs.map fun r => r.probing.tree.read)).2.map Configuration.endpoints := by
  have hreadable := readable_of_parsed (parsed_of_probeConfigurations h).1 hlong
  have hread := fixConfigurationsAt_read hreadable 0 { m with endpoints := [] }
  rw [List.map_map] at hread
  exact hread

end SerialUsb
