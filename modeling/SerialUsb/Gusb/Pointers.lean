import SerialUsb.Gusb.Walk
import SerialUsb.Proxy.FixEndpoints

/-!
# The pointers into a configuration

The endpoint descriptors of a tree, in the order of the loops of the proxy. In a tree that was
parsed they are different descriptors, and none of them lies over the configuration descriptor.
-/

namespace SerialUsb

open Framing Memory

def PConfiguration.endpoints (c : PConfiguration) : List ℕ :=
  (List.range c.raw.bNumInterfaces.toNat).flatMap fun number =>
    (c.interface number).altInterfaces.visible.flatMap fun a => a.endpoints.visible

def PConfiguration.read (c : PConfiguration) : Configuration where
  wTotalLength := c.raw.wTotalLength
  raw := (List.range c.raw.wTotalLength.toNat).map c.raw.byte
  interfaces := (List.range c.raw.bNumInterfaces.toNat).map fun number =>
    ⟨(c.interface number).altInterfaces.visible.map fun a =>
      ⟨a.endpoints.visible.map c.raw.endpoint⟩⟩
  length_raw := by rw [List.length_map, List.length_range]

theorem PConfiguration.endpoints_read (c : PConfiguration) :
    c.read.endpoints = c.endpoints.map c.raw.endpoint := by
  unfold Configuration.endpoints PConfiguration.endpoints PConfiguration.read
  rw [List.flatMap_map, List.map_flatMap]
  refine List.flatMap_congr fun number _ => ?_
  rw [List.flatMap_map, List.map_flatMap]

section Built

variable {raw : RawConfiguration} {ps : List ℕ} {s : Probing}

theorem Built.endpoints_eq (h : Built raw ps s) :
    s.tree.endpoints = (List.range raw.bNumInterfaces.toNat).flatMap fun number =>
      (kept (raw.settings ps number)).zipIdx.flatMap fun x =>
        kept (raw.attached ps number x.2 x.1) := by
  unfold PConfiguration.endpoints
  rw [h.raw_eq]
  refine List.flatMap_congr fun number hnumber => ?_
  have hrecords := congrArg (List.flatMap fun y : ℕ × CountedArray ℕ => y.2.visible)
    (h.records number (List.mem_range.1 hnumber))
  rw [List.flatMap_map, List.flatMap_map] at hrecords
  refine hrecords.trans (List.flatMap_congr fun x _ => ?_)
  exact CountedArray.visible_ofList _

theorem Built.of_mem_endpoints (h : Built raw ps s) {e : ℕ} (he : e ∈ s.tree.endpoints) :
    e ∈ ps ∧ raw.isEndpoint e ∧ ∃ q, raw.owner ps e = some q := by
  rw [h.endpoints_eq] at he
  obtain ⟨number, -, he⟩ := List.mem_flatMap.1 he
  obtain ⟨x, -, he⟩ := List.mem_flatMap.1 he
  obtain ⟨hmem, hendpoint, -, hindices⟩ := RawConfiguration.mem_attached.1
    ((kept_sublist _).subset he)
  obtain ⟨q, howner, -⟩ := Option.map_eq_some_iff.1 hindices
  exact ⟨hmem, hendpoint, q, howner⟩

theorem Built.nodup_endpoints (h : Built raw ps s) (hps : ps.Nodup) :
    s.tree.endpoints.Nodup := by
  have hindices : ∀ {number : ℕ} {x : ℕ × ℕ} {e : ℕ},
      e ∈ kept (raw.attached ps number x.2 x.1) → raw.ownerIndices ps e = some (number, x.2) :=
    fun he => (RawConfiguration.mem_attached.1 ((kept_sublist _).subset he)).2.2.2
  rw [h.endpoints_eq, List.nodup_flatMap]
  refine ⟨fun number _ => ?_, ?_⟩
  · rw [List.nodup_flatMap]
    refine ⟨fun x _ => ((hps.filter _).sublist (kept_sublist _)), ?_⟩
    have hplaces : ((kept (raw.settings ps number)).zipIdx.map Prod.snd).Nodup := by
      rw [List.zipIdx_map_snd]
      exact List.nodup_range'
    refine (List.pairwise_map.1 hplaces).imp fun hne => ?_
    intro e hx hy
    have heq := Option.some.inj ((hindices hx).symm.trans (hindices hy))
    exact hne (Prod.mk.inj heq).2
  · refine List.nodup_range.imp fun hne => ?_
    intro e hx hy
    obtain ⟨x, -, hx⟩ := List.mem_flatMap.1 hx
    obtain ⟨y, -, hy⟩ := List.mem_flatMap.1 hy
    have heq := Option.some.inj ((hindices hx).symm.trans (hindices hy))
    exact hne (Prod.mk.inj heq).1

end Built

def RawConfiguration.tree (raw : RawConfiguration) : PConfiguration where
  raw := raw
  interfaces := (List.range raw.bNumInterfaces.toNat).map fun number =>
    ⟨CountedArray.ofList ((kept (raw.settings raw.positions number)).zipIdx.map fun x =>
      ⟨x.1, none, CountedArray.ofList (raw.attached raw.positions number x.2 x.1)⟩)⟩

theorem RawConfiguration.endpoints_tree (raw : RawConfiguration) :
    raw.tree.endpoints = (List.range raw.bNumInterfaces.toNat).flatMap fun number =>
      (kept (raw.settings raw.positions number)).zipIdx.flatMap fun x =>
        kept (raw.attached raw.positions number x.2 x.1) := by
  refine List.flatMap_congr fun number hnumber => ?_
  have hinterface : raw.tree.interface number =
      ⟨CountedArray.ofList ((kept (raw.settings raw.positions number)).zipIdx.map fun x =>
        ⟨x.1, none, CountedArray.ofList (raw.attached raw.positions number x.2 x.1)⟩)⟩ := by
    have hlt : number < raw.bNumInterfaces.toNat := List.mem_range.1 hnumber
    unfold PConfiguration.interface tree
    rw [List.getD_eq_getElem?_getD, List.getElem?_map, List.getElem?_range hlt]
    rfl
  have hlength : ((kept (raw.settings raw.positions number)).zipIdx.map fun x =>
      (⟨x.1, none, CountedArray.ofList (raw.attached raw.positions number x.2 x.1)⟩ :
        PAltInterface)).length < 256 := by
    rw [List.length_map, List.length_zipIdx, length_kept]
    exact Nat.mod_lt _ (by decide)
  rw [hinterface, CountedArray.visible_ofList, kept_of_lt hlength, List.flatMap_map]
  exact List.flatMap_congr fun x _ => CountedArray.visible_ofList _

section Parsed

variable {raw : RawConfiguration} {r : ProbeResult}

theorem Parsed.raw_eq (h : Parsed raw r) : r.probing.tree.raw = raw := h.built.raw_eq

/-- The tree of a run has the pointers that the bytes describe. -/
theorem Parsed.endpoints_eq (h : Parsed raw r) : r.probing.tree.endpoints = raw.tree.endpoints :=
  h.built.endpoints_eq.trans raw.endpoints_tree.symm

theorem Parsed.nodup_endpoints (h : Parsed raw r) : r.probing.tree.endpoints.Nodup :=
  h.built.nodup_endpoints (raw.pairwise_positions.imp fun hlt => Nat.ne_of_lt hlt)

theorem Parsed.one_le (h : Parsed raw r) {p : ℕ} (hp : p ∈ raw.positions) : 1 ≤ p := by
  have hbounds := bounds_of_mem_records hp
  by_contra hzero
  obtain rfl : p = 0 := by omega
  exact h.advances 0 hp (Nat.le_zero.1 hbounds.1)

/-- An endpoint descriptor in a tree does not lie over the bytes of the configuration
descriptor up to `bNumInterfaces`: the one interface descriptor that may stand before position
2 shares the byte of its alternate setting with `bNumInterfaces`. -/
theorem Parsed.three_le (h : Parsed raw r) {e : ℕ} (he : e ∈ raw.positions)
    (hendpoint : raw.isEndpoint e) : 3 ≤ e := by
  obtain ⟨before, after, heq⟩ := List.append_of_mem he
  have haccepted := h.accepted before e after heq
  have htype : raw.bDescriptorType e = libusbDtEndpoint := of_decide_eq_true hendpoint
  unfold RawConfiguration.Accepted at haccepted
  rw [if_neg (by rw [htype]; decide), if_pos (Or.inl htype)] at haccepted
  obtain ⟨x, hrecord⟩ := Option.ne_none_iff_exists'.1 haccepted
  obtain ⟨hx, hnumber, halt⟩ := RawConfiguration.record_eq_some hrecord
  obtain ⟨q, howner, hindices⟩ := Option.map_eq_some_iff.1 hx
  obtain ⟨hq, -, hlt⟩ := RawConfiguration.of_owner howner
  have hpairwise := raw.pairwise_positions
  rw [heq, List.pairwise_append] at hpairwise
  have hq1 := h.one_le (heq ▸ List.mem_append_left _ hq)
  by_contra hlt3
  obtain rfl : q = 1 := by omega
  -- nothing but the owner stands before the endpoint
  have hone : ∀ a ∈ before, a = 1 := by
    intro a ha
    have ha1 := h.one_le (heq ▸ List.mem_append_left _ ha)
    have hae := hpairwise.2.2 a ha e List.mem_cons_self
    omega
  have hlength : before.length ≤ 1 := by
    rw [List.eq_replicate_iff.2 ⟨rfl, hone⟩] at hpairwise
    have hreplicate := hpairwise.1
    rw [List.pairwise_replicate] at hreplicate
    rcases hreplicate with hle | hlt
    · exact hle
    · exact absurd hlt (Nat.lt_irrefl 1)
  have hsettings : (raw.settings before x.1).length ≤ 1 :=
    (List.length_filter_le _ _).trans hlength
  have halt0 : x.2 = 0 := by
    have hmod := Nat.mod_le (raw.settings before x.1).length 256
    omega
  have hbyte : raw.bAlternateSetting 1 = raw.bNumInterfaces := rfl
  rw [← hindices] at halt0 hnumber
  dsimp only at halt0 hnumber
  rw [hbyte] at halt0
  omega

theorem Parsed.three_le_of_mem (h : Parsed raw r) {e : ℕ} (he : e ∈ r.probing.tree.endpoints) :
    3 ≤ e := by
  obtain ⟨hmem, hendpoint, -⟩ := h.built.of_mem_endpoints he
  exact h.three_le hmem hendpoint

end Parsed

end SerialUsb
