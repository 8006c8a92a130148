import SerialUsb.Gusb.Walk

/-!
# When the tree follows the bytes

Records are appended as the interface descriptors arrive, and looked up by the alternate
setting as an index. The tree groups the endpoints as the bytes do exactly when these agree for
every descriptor with endpoints, and no count exceeds a byte.
-/

namespace SerialUsb

open Framing Memory

namespace RawConfiguration

variable (r : RawConfiguration)

def endpointsOf (q : ℕ) : List ℕ :=
  r.positions.filter fun e => r.isEndpoint e ∧ r.owner r.positions e = some q

/-- The sizes of the structures in `linux/usb/ch9.h` and `gusb.h`. -/
def structureSize (p : ℕ) : ℕ :=
  if r.bDescriptorType p = libusbDtInterface then 9
  else if r.bDescriptorType p = libusbDtEndpoint then 9
  else if r.bDescriptorType p = libusbDtHid then 6
  else 2

/-- The sub-descriptors end where the configuration does, and none is too short. -/
def Tiled : Prop :=
  ∀ p ∈ r.positions, r.structureSize p ≤ r.descriptorLength p ∧
    p + r.descriptorLength p ≤ r.wTotalLength.toNat

instance : Decidable r.Tiled := inferInstanceAs (Decidable (∀ p ∈ _, _))

/-- A tree has a record for each interface descriptor, in the order of the descriptors with a
number, and each endpoint descriptor once, in order, in the record of the nearest interface
descriptor before it. -/
structure Faithful (tree : PConfiguration) : Prop where
  interfaces : ∀ q ∈ r.positions, r.isInterface q → r.bInterfaceNumber q < r.bNumInterfaces
  owners : ∀ e ∈ r.positions, r.isEndpoint e → ∃ q, r.owner r.positions e = some q
  records : ∀ number < r.bNumInterfaces.toNat,
    ((tree.interface number).altInterfaces.visible.map
        fun a => (a.descriptor, a.endpoints.visible)) =
      (r.settings r.positions number).map fun q => (q, r.endpointsOf q)

/-- The interface descriptors with a number that have endpoints stand in the places that their
alternate settings tell, and there are less than 256 of each. -/
structure Arranged : Prop where
  settings : ∀ number < r.bNumInterfaces.toNat, (r.settings r.positions number).length < 256
  endpoints : ∀ number < r.bNumInterfaces.toNat, ∀ q ∈ r.settings r.positions number,
    (r.endpointsOf q).length < 256
  places : ∀ number < r.bNumInterfaces.toNat,
    ∀ x ∈ (r.settings r.positions number).zipIdx, r.endpointsOf x.1 ≠ [] →
      (r.bAlternateSetting x.1).toNat = x.2

variable {r}

theorem mem_endpointsOf {q e : ℕ} :
    e ∈ r.endpointsOf q ↔
      e ∈ r.positions ∧ r.isEndpoint e ∧ r.owner r.positions e = some q := by
  rw [endpointsOf, List.mem_filter, decide_eq_true_eq]

/-- Where the descriptors stand in their places, the endpoints attached to a record are those
of its descriptor. -/
theorem Arranged.attached_eq (h : r.Arranged) {number : ℕ}
    (hnumber : number < r.bNumInterfaces.toNat) {x : ℕ × ℕ}
    (hx : x ∈ (r.settings r.positions number).zipIdx) :
    r.attached r.positions number x.2 x.1 = r.endpointsOf x.1 := by
  refine List.filter_congr fun e he => decide_eq_decide.2 (and_congr_right fun hendpoint => ?_)
  constructor
  · rintro ⟨-, hindices⟩
    obtain ⟨q, howner, heq⟩ := Option.map_eq_some_iff.1 hindices
    obtain ⟨hq, hinterface, -⟩ := of_owner howner
    obtain ⟨hqn, hqa⟩ := Prod.mk.inj heq
    -- the owner has a place among the descriptors with the number, and it is that of `x`
    obtain ⟨i, hi, hget⟩ := List.getElem_of_mem (mem_settings.2 ⟨hq, hinterface, hqn⟩)
    have hplace : (q, i) ∈ (r.settings r.positions number).zipIdx := by
      rw [List.mk_mem_zipIdx_iff_getElem?, List.getElem?_eq_getElem hi, hget]
    have hne : r.endpointsOf q ≠ [] :=
      List.ne_nil_of_mem (mem_endpointsOf.2 ⟨he, hendpoint, howner⟩)
    have halt := h.places number hnumber _ hplace hne
    have hsame : i = x.2 := halt.symm.trans hqa
    rw [List.mem_zipIdx_iff_getElem?, ← hsame, List.getElem?_eq_getElem hi, hget] at hx
    rw [howner]
    exact hx
  · intro howner
    obtain ⟨-, -, hlt⟩ := of_owner howner
    have hmem := mem_settings.1 (List.fst_mem_of_mem_zipIdx hx)
    have hne : r.endpointsOf x.1 ≠ [] :=
      List.ne_nil_of_mem (mem_endpointsOf.2 ⟨he, hendpoint, howner⟩)
    have halt := h.places number hnumber x hx hne
    refine ⟨hlt, ?_⟩
    rw [ownerIndices_of_owner howner, hmem.2.2, halt]

end RawConfiguration

open RawConfiguration

variable {raw : RawConfiguration} {s : Probing}

theorem Built.visible_records (h : Built raw raw.positions s) {number : ℕ}
    (hnumber : number < raw.bNumInterfaces.toNat) :
    ((s.tree.interface number).altInterfaces.visible.map
        fun a => (a.descriptor, a.endpoints.visible)) =
      (kept (raw.settings raw.positions number)).zipIdx.map
        fun x => (x.1, kept (raw.attached raw.positions number x.2 x.1)) := by
  have hrecords := congrArg (List.map fun y : ℕ × CountedArray ℕ => (y.1, y.2.visible))
    (h.records number hnumber)
  rw [List.map_map, List.map_map] at hrecords
  refine hrecords.trans (List.map_congr_left fun x _ => ?_)
  rw [← CountedArray.visible_ofList]
  rfl

theorem Built.arranged_of_records (h : Built raw raw.positions s) (hfaithful : raw.Faithful s.tree) :
    raw.Arranged := by
  have hpair : ∀ number < raw.bNumInterfaces.toNat,
      (raw.settings raw.positions number).length < 256 ∧
        ∀ x ∈ (raw.settings raw.positions number).zipIdx,
          kept (raw.attached raw.positions number x.2 x.1) = raw.endpointsOf x.1 := by
    intro number hnumber
    have hrecords := (h.visible_records hnumber).symm.trans (hfaithful.records number hnumber)
    have hlength := congrArg List.length hrecords
    rw [List.length_map, List.length_map, List.length_zipIdx, length_kept] at hlength
    have hlt : (raw.settings raw.positions number).length < 256 :=
      hlength ▸ Nat.mod_lt _ (show 0 < 256 by decide)
    refine ⟨hlt, ?_⟩
    rw [kept_of_lt hlt, map_eq_map_zipIdx _ fun q => (q, raw.endpointsOf q)] at hrecords
    exact fun x hx => congrArg Prod.snd (List.map_inj_left.1 hrecords x hx)
  refine ⟨fun number hnumber => (hpair number hnumber).1, fun number hnumber q hq => ?_,
    fun number hnumber x hx hne => ?_⟩
  · obtain ⟨i, hi, hget⟩ := List.getElem_of_mem hq
    have hplace : (q, i) ∈ (raw.settings raw.positions number).zipIdx := by
      rw [List.mk_mem_zipIdx_iff_getElem?, List.getElem?_eq_getElem hi, hget]
    rw [← (hpair number hnumber).2 _ hplace, length_kept]
    exact Nat.mod_lt _ (by decide)
  · obtain ⟨e, he⟩ := List.exists_mem_of_ne_nil _ hne
    obtain ⟨-, -, howner⟩ := mem_endpointsOf.1 he
    rw [← (hpair number hnumber).2 x hx] at he
    obtain ⟨-, -, -, hindices⟩ := mem_attached.1 ((kept_sublist _).subset he)
    rw [ownerIndices_of_owner howner] at hindices
    exact congrArg Prod.snd (Option.some.inj hindices)

theorem Built.records_of_arranged (h : Built raw raw.positions s) (harranged : raw.Arranged)
    {number : ℕ} (hnumber : number < raw.bNumInterfaces.toNat) :
    ((s.tree.interface number).altInterfaces.visible.map
        fun a => (a.descriptor, a.endpoints.visible)) =
      (raw.settings raw.positions number).map fun q => (q, raw.endpointsOf q) := by
  rw [h.visible_records hnumber, kept_of_lt (harranged.settings number hnumber),
    map_eq_map_zipIdx _ fun q => (q, raw.endpointsOf q)]
  refine List.map_congr_left fun x hx => ?_
  rw [harranged.attached_eq hnumber hx,
    kept_of_lt (harranged.endpoints number hnumber x.1 (List.fst_mem_of_mem_zipIdx hx))]

/-- The interface descriptors and the owners, as far as they follow from that nothing was
refused. -/
theorem Parsed.interfaces {r : ProbeResult} (h : Parsed raw r) :
    ∀ q ∈ raw.positions, raw.isInterface q → raw.bInterfaceNumber q < raw.bNumInterfaces := by
  intro q hq hinterface
  obtain ⟨before, after, heq⟩ := List.append_of_mem hq
  have haccepted := h.accepted before q after heq
  unfold Accepted at haccepted
  rwa [if_pos (of_decide_eq_true hinterface)] at haccepted

theorem Parsed.owners {r : ProbeResult} (h : Parsed raw r) :
    ∀ e ∈ raw.positions, raw.isEndpoint e → ∃ q, raw.owner raw.positions e = some q := by
  intro e he hendpoint
  obtain ⟨before, after, heq⟩ := List.append_of_mem he
  have haccepted := h.accepted before e after heq
  have htype : raw.bDescriptorType e = libusbDtEndpoint := of_decide_eq_true hendpoint
  unfold Accepted at haccepted
  rw [if_neg (by rw [htype]; decide), if_pos (Or.inl htype)] at haccepted
  obtain ⟨x, hx⟩ := Option.ne_none_iff_exists'.1 haccepted
  obtain ⟨q, howner, -⟩ := Option.map_eq_some_iff.1 (record_eq_some hx).1
  -- the descriptors behind `e` are no owners of it
  have hpairwise := raw.pairwise_positions
  rw [heq, List.pairwise_append] at hpairwise
  have hbehind : (e :: after).filter (fun q => raw.isInterface q ∧ q < e) = [] := by
    refine List.filter_eq_nil_iff.2 fun a ha => ?_
    rw [decide_eq_true_eq]
    rintro ⟨-, hlt⟩
    rcases List.mem_cons.1 ha with rfl | ha
    · exact Nat.lt_irrefl a hlt
    · exact Nat.lt_asymm hlt ((List.pairwise_cons.1 hpairwise.2.1).1 a ha)
  refine ⟨q, ?_⟩
  unfold owner at howner ⊢
  rw [heq, List.filter_append, hbehind, List.append_nil]
  exact howner

/-- After a run that returns 0, the tree of a configuration is faithful to its bytes exactly
when its interface descriptors are arranged. -/
theorem faithful_iff {env : Environment} {iterations : RawConfiguration → ℕ} {d d' : GusbDevice}
    {raws : List RawConfiguration} {rs : List ProbeResult}
    (h : probeConfigurations env iterations d raws = some (d', rs, 0)) :
    List.Forall₂ (fun raw r => raw.Faithful r.probing.tree ↔ raw.Arranged) raws rs := by
  refine (parsed_of_probeConfigurations h).1.imp fun raw r hparsed => ?_
  constructor
  · exact hparsed.built.arranged_of_records
  · exact fun harranged => ⟨hparsed.interfaces, hparsed.owners,
      fun _ => hparsed.built.records_of_arranged harranged⟩

/-- An interface with two alternate settings, the second one first, and an endpoint in
setting 0. -/
def swappedSettings : RawConfiguration := RawConfiguration.ofBytes
  [9, 2, 36, 0, 1, 1, 0, 0x80, 50, 9, 4, 0, 1, 0, 255, 0, 0, 0, 9, 4, 0, 0, 1, 255, 0, 0, 0,
    9, 5, 0x81, 3, 8, 0, 10, 0, 0]

theorem faithful_iff_swappedSettings : ∃ d' rs,
    probeConfigurations Environment.empty (fun _ => 36) GusbDevice.start [swappedSettings] =
        some (d', rs, 0) ∧
      List.Forall₂ (fun raw r => raw.Faithful r.probing.tree ↔ raw.Arranged)
        [swappedSettings] rs := by
  obtain ⟨d', rs, h⟩ : ∃ d' rs, probeConfigurations Environment.empty (fun _ => 36)
    GusbDevice.start [swappedSettings] = some (d', rs, 0) := ⟨_, _, rfl⟩
  exact ⟨d', rs, h, faithful_iff h⟩

theorem not_faithful_swappedSettings :
    ¬ ∀ env iterations d raws d' rs, probeConfigurations env iterations d raws =
        some (d', rs, 0) →
      List.Forall₂ (fun raw r => raw.Tiled → raw.Faithful r.probing.tree) raws rs := by
  intro h
  rcases h Environment.empty (fun _ => 36) GusbDevice.start [swappedSettings] _ _ rfl with
    _ | ⟨hfaithful, -⟩
  have hrecords := (hfaithful (by decide +kernel)).records 0 (by decide)
  exact absurd hrecords (by decide +kernel)

end SerialUsb
