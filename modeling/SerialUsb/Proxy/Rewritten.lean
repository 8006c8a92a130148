import SerialUsb.Proxy.RawEndpoints

/-!
# The rewritten configurations

What `fix_endpoints` leaves of the bytes of a parsed tree. Nothing but addresses changes, and
an address keeps its direction. The number is counted over all endpoints of a configuration,
so that the sixteenth of them gets a bit that does not belong to the number.
-/

namespace SerialUsb

/-- An endpoint address with a number and without reserved bits. -/
def ValidAddress (address : UInt8) : Prop :=
  endpointNumber address ≠ 0 ∧ address &&& 0x70 = 0

instance (address : UInt8) : Decidable (ValidAddress address) :=
  inferInstanceAs (Decidable (_ ∧ _))

/-- What a configuration promises when it has been rewritten to another one. -/
structure PConfiguration.Rewritten (c c' : PConfiguration) : Prop where
  directions : ∀ p ∈ c.endpoints, endpointIn (c'.raw.endpoint p).bEndpointAddress =
    endpointIn (c.raw.endpoint p).bEndpointAddress
  valid : ∀ p ∈ c.endpoints, ValidAddress (c'.raw.endpoint p).bEndpointAddress
  distinct : c.renumber = true →
    (c.endpoints.map fun p => endpointNumber (c'.raw.endpoint p).bEndpointAddress).Nodup
  untouched : ∀ i, (∀ p ∈ c.endpoints, i ≠ p + 2) → c'.raw.byte i = c.raw.byte i

theorem address_of_lt (address : UInt8) {n : ℕ} (h : n < 16) :
    endpointNumber ((address &&& 0x80) ||| UInt8.ofNat n) = n ∧
      endpointIn ((address &&& 0x80) ||| UInt8.ofNat n) = endpointIn address ∧
      ((address &&& 0x80) ||| UInt8.ofNat n) &&& 0x70 = 0 := by
  have hbyte : ∀ (address : UInt8), ∀ n < 16,
      endpointNumber ((address &&& 0x80) ||| UInt8.ofNat n) = n ∧
        endpointIn ((address &&& 0x80) ||| UInt8.ofNat n) = endpointIn address ∧
        ((address &&& 0x80) ||| UInt8.ofNat n) &&& 0x70 = 0 := by
    rintro ⟨⟨address⟩⟩
    revert address
    decide +kernel
  exact hbyte address n h

theorem not_validAddress_sixteen (address : UInt8) :
    ¬ ValidAddress ((address &&& 0x80) ||| UInt8.ofNat 16) := by
  obtain ⟨⟨address⟩⟩ := address
  revert address
  decide +kernel

section Configuration

variable {c c' : PConfiguration}

theorem PConfiguration.rawAfter_address (hnodup : c.endpoints.Nodup) {n : ℕ} {y : ℕ × ℕ}
    (hy : y ∈ (c.endpoints.take n).zipIdx 1) :
    ((c.rawAfter n).endpoint y.1).bEndpointAddress =
      targetAddress c.renumber (c.raw.endpoint y.1, y.2) := by
  rw [← foldl_take_fixEndpointAt hnodup 0 (EndpointMaps.start 0 0) n]
  exact foldl_fixEndpointAt_address 0 c.renumber (hnodup.sublist (List.take_sublist n _))
    (_, c.raw) 0 (by cases c.renumber <;> rfl) hy

theorem PConfiguration.rawAfter_of_ne (hnodup : c.endpoints.Nodup) {n i : ℕ}
    (h : ∀ p ∈ c.endpoints, i ≠ p + 2) : (c.rawAfter n).byte i = c.raw.byte i := by
  rw [← foldl_take_fixEndpointAt hnodup 0 (EndpointMaps.start 0 0) n]
  exact foldl_fixEndpointAt_of_ne _ _ fun p hp => h p (List.mem_of_mem_take hp)

theorem PConfiguration.exists_place {p : ℕ} (hp : p ∈ c.endpoints) :
    ∃ k, (p, k) ∈ c.endpoints.zipIdx 1 ∧ 1 ≤ k ∧ k ≤ c.endpoints.length := by
  obtain ⟨j, hj, hget⟩ := List.getElem_of_mem hp
  refine ⟨1 + j, ?_, by omega, by omega⟩
  rw [List.mk_add_mem_zipIdx_iff_getElem?, List.getElem?_eq_getElem hj, hget]

section Rewrite

variable (hnodup : c.endpoints.Nodup) (hc' : c'.raw = c.rawAfter c.endpoints.length)
include hnodup hc'

theorem PConfiguration.rewritten_address {y : ℕ × ℕ} (hy : y ∈ c.endpoints.zipIdx 1) :
    (c'.raw.endpoint y.1).bEndpointAddress =
      targetAddress c.renumber (c.raw.endpoint y.1, y.2) := by
  rw [hc']
  apply rawAfter_address hnodup
  rwa [List.take_length]

theorem PConfiguration.rewritten_untouched {i : ℕ} (hi : ∀ p ∈ c.endpoints, i ≠ p + 2) :
    c'.raw.byte i = c.raw.byte i := by
  rw [hc']
  exact rawAfter_of_ne hnodup hi

theorem PConfiguration.rewritten_of_not_renumber (hrenumber : c.renumber = false)
    (hvalid : ∀ p ∈ c.endpoints, ValidAddress (c.raw.endpoint p).bEndpointAddress) :
    c.Rewritten c' := by
  have hkept : ∀ p ∈ c.endpoints, (c'.raw.endpoint p).bEndpointAddress =
      (c.raw.endpoint p).bEndpointAddress := by
    intro p hp
    obtain ⟨k, hk, -⟩ := exists_place hp
    rw [rewritten_address hnodup hc' hk, hrenumber]
    rfl
  constructor
  case directions => exact fun p hp => congrArg endpointIn (hkept p hp)
  case valid =>
    intro p hp
    rw [hkept p hp]
    exact hvalid p hp
  case distinct => exact fun h => absurd (hrenumber.symm.trans h) Bool.false_ne_true
  case untouched => exact fun i => rewritten_untouched hnodup hc'

theorem PConfiguration.rewritten_of_renumber (hrenumber : c.renumber = true)
    (hle : c.endpoints.length ≤ 15) : c.Rewritten c' := by
  have haddress : ∀ y ∈ c.endpoints.zipIdx 1, (c'.raw.endpoint y.1).bEndpointAddress =
      ((c.raw.endpoint y.1).bEndpointAddress &&& 0x80) ||| UInt8.ofNat y.2 := by
    intro y hy
    rw [rewritten_address hnodup hc' hy, hrenumber]
    rfl
  have hplaces : ∀ y ∈ c.endpoints.zipIdx 1, y.2 ≠ 0 ∧ y.2 < 16 := by
    intro y hy
    obtain ⟨hone, hlt, -⟩ := List.mem_zipIdx hy
    omega
  constructor
  case directions =>
    intro p hp
    obtain ⟨k, hk, -⟩ := exists_place hp
    rw [haddress _ hk]
    exact (address_of_lt _ (hplaces _ hk).2).2.1
  case valid =>
    intro p hp
    obtain ⟨k, hk, -⟩ := exists_place hp
    obtain ⟨hnumber, -, hreserved⟩ :=
      address_of_lt (c.raw.endpoint p).bEndpointAddress (hplaces _ hk).2
    rw [haddress _ hk]
    exact ⟨hnumber.trans_ne (hplaces _ hk).1, hreserved⟩
  case distinct =>
    intro _
    have hnumbers : (c.endpoints.map fun p =>
        endpointNumber (c'.raw.endpoint p).bEndpointAddress) =
        (c.endpoints.zipIdx 1).map Prod.snd := by
      conv_lhs => rw [← List.zipIdx_map_fst 1 c.endpoints]
      rw [List.map_map]
      refine List.map_congr_left fun y hy => ?_
      refine (congrArg endpointNumber (haddress y hy)).trans ?_
      exact (address_of_lt _ (hplaces y hy).2).1
    rw [hnumbers, List.zipIdx_map_snd]
    exact List.nodup_range'
  case untouched => exact fun i => rewritten_untouched hnodup hc'

/-- The sixteenth endpoint gets an address that is not valid. -/
theorem PConfiguration.length_le_of_rewritten (hrenumber : c.renumber = true)
    (h : c.Rewritten c') : c.endpoints.length ≤ 15 := by
  by_contra hlt
  have hindex : 15 < c.endpoints.length := by omega
  have hplace : (c.endpoints[15], 16) ∈ c.endpoints.zipIdx 1 :=
    List.mk_add_mem_zipIdx_iff_getElem?.2 (List.getElem?_eq_getElem hindex)
  have hsixteen := h.valid _ (List.getElem_mem hindex)
  rw [rewritten_address hnodup hc' hplace, hrenumber] at hsixteen
  exact not_validAddress_sixteen _ hsixteen

/-- A configuration with valid addresses is rewritten as promised exactly when it is not
renumbered or has at most 15 endpoints. -/
theorem PConfiguration.rewritten_iff
    (hvalid : ∀ p ∈ c.endpoints, ValidAddress (c.raw.endpoint p).bEndpointAddress) :
    c.Rewritten c' ↔ (c.renumber = true → c.endpoints.length ≤ 15) := by
  cases hrenumber : c.renumber with
  | false =>
      refine ⟨fun _ h => absurd h Bool.false_ne_true, fun _ => ?_⟩
      exact rewritten_of_not_renumber hnodup hc' hrenumber hvalid
  | true =>
      refine ⟨fun h _ => length_le_of_rewritten hnodup hc' hrenumber h, fun h => ?_⟩
      exact rewritten_of_renumber hnodup hc' hrenumber (h rfl)

end Rewrite

end Configuration

theorem fixConfigurationsAt_forall₂ {cs : List PConfiguration}
    (h : ∀ c ∈ cs, c.endpoints.Nodup ∧ ∀ p ∈ c.endpoints, 3 ≤ p) (configurationIndex : ℕ)
    (m : EndpointMaps) :
    List.Forall₂ (fun c c' => c' = { c with raw := c.rawAfter c.endpoints.length }) cs
      (fixConfigurationsAt configurationIndex m cs).2 := by
  induction cs generalizing configurationIndex m with
  | nil => exact List.Forall₂.nil
  | cons c cs ih =>
      obtain ⟨hnodup, hthree⟩ := h c List.mem_cons_self
      refine List.Forall₂.cons ?_ (ih (fun c' hc' => h c' (List.mem_cons_of_mem c hc')) _ _)
      exact congrArg Prod.snd (fixConfigurationAt_spec configurationIndex m hnodup hthree)

theorem pointers_of_parsed {raws : List RawConfiguration} {rs : List ProbeResult}
    (h : List.Forall₂ Parsed raws rs) :
    ∀ c ∈ rs.map fun r => r.probing.tree, c.endpoints.Nodup ∧ ∀ p ∈ c.endpoints, 3 ≤ p := by
  induction h with
  | nil => exact fun c hc => absurd hc List.not_mem_nil
  | cons hparsed _ ih =>
      intro c hc
      rcases List.mem_cons.1 hc with rfl | hc
      · exact ⟨hparsed.nodup_endpoints, fun p => hparsed.three_le_of_mem⟩
      · exact ih c hc

/-- After `fix_endpoints` on a parsed tree, a configuration whose addresses are valid is
rewritten as promised exactly when it is not renumbered or has at most 15 endpoints. -/
theorem rewritten_fixEndpointsAt_iff {env : Environment} {iterations : RawConfiguration → ℕ}
    {d d' : GusbDevice} {raws : List RawConfiguration} {rs : List ProbeResult}
    (h : probeConfigurations env iterations d raws = some (d', rs, 0)) (m : EndpointMaps) :
    List.Forall₂ (fun c c' =>
        (∀ p ∈ c.endpoints, ValidAddress (c.raw.endpoint p).bEndpointAddress) →
          (c.Rewritten c' ↔ (c.renumber = true → c.endpoints.length ≤ 15)))
      (rs.map fun r => r.probing.tree)
      (fixEndpointsAt m (rs.map fun r => r.probing.tree)).2 := by
  have hpointers := pointers_of_parsed (parsed_of_probeConfigurations h).1
  have hrewritten := (List.forall₂_and_left _ _).2
    ⟨hpointers, fixConfigurationsAt_forall₂ hpointers 0 { m with endpoints := [] }⟩
  refine hrewritten.imp fun c c' hc hvalid => ?_
  obtain ⟨⟨hnodup, -⟩, rfl⟩ := hc
  exact PConfiguration.rewritten_iff hnodup rfl hvalid

def sixteenEndpoints : RawConfiguration := RawConfiguration.ofBytes
  ([9, 2, 130, 0, 1, 1, 0, 0x80, 50, 9, 4, 0, 0, 16, 255, 0, 0, 0] ++
    (List.range 16).flatMap fun n =>
      [7, 5, if n < 15 then 0x81 + UInt8.ofNat n else 0x01, 2, 64, 0, 0])

theorem rewritten_fixEndpointsAt_iff_sixteenEndpoints : ∃ d' rs,
    probeConfigurations Environment.empty (fun _ => 130) GusbDevice.start [sixteenEndpoints] =
        some (d', rs, 0) ∧
      List.Forall₂ (fun c c' =>
          (∀ p ∈ c.endpoints, ValidAddress (c.raw.endpoint p).bEndpointAddress) →
            (c.Rewritten c' ↔ (c.renumber = true → c.endpoints.length ≤ 15)))
        (rs.map fun r => r.probing.tree)
        (fixEndpointsAt (EndpointMaps.start 0 0) (rs.map fun r => r.probing.tree)).2 := by
  obtain ⟨d', rs, h⟩ : ∃ d' rs, probeConfigurations Environment.empty (fun _ => 130)
    GusbDevice.start [sixteenEndpoints] = some (d', rs, 0) := ⟨_, _, rfl⟩
  exact ⟨d', rs, h, rewritten_fixEndpointsAt_iff h (EndpointMaps.start 0 0)⟩

set_option maxRecDepth 4000 in
/-- The last of the sixteen endpoints gets the address `0x10`. -/
theorem not_rewritten_sixteenEndpoints :
    ¬ ∀ env iterations d raws d' rs m, probeConfigurations env iterations d raws =
        some (d', rs, 0) →
      List.Forall₂ (fun c c' =>
          (∀ p ∈ c.endpoints, ValidAddress (c.raw.endpoint p).bEndpointAddress) →
            c.Rewritten c')
        (rs.map fun r => r.probing.tree) (fixEndpointsAt m (rs.map fun r => r.probing.tree)).2 := by
  intro h
  rcases h Environment.empty (fun _ => 130) GusbDevice.start [sixteenEndpoints] _ _
    (EndpointMaps.start 0 0) rfl with _ | ⟨hrewritten, -⟩
  have hvalid := (hrewritten (by decide +kernel)).valid 123 (by decide +kernel)
  exact absurd hvalid (by decide +kernel)

end SerialUsb
