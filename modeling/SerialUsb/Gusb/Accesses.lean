import SerialUsb.Gusb.Walk

/-!
# The bytes that the walk reads

What `probe_configurations` and its handlers read through the pointer to the raw bytes of a
configuration, as offsets from it. A call that fails ends the walk early, so that the accesses
are some of those made when every call succeeds.
-/

namespace SerialUsb

open Framing Memory

def getInterfaceAccesses (s : Probing) : List ℕ :=
  match s.interface with
  | none => []
  | some q =>
      [q + 2, 4] ++
        if s.tree.raw.bNumInterfaces ≤ s.tree.raw.bInterfaceNumber q then [] else [q + 3]

def hidReports (raw : RawConfiguration) (p : ℕ) : ℕ :=
  match hidReport raw p with
  | none => (raw.bNumDescriptors p).toNat
  | some i => i + 1

section Handlers

variable (allocated : Bool) (s : Probing) (p : ℕ)

def probeInterfaceAccesses : List ℕ :=
  [p + 2, 4] ++
    if s.tree.raw.bNumInterfaces ≤ s.tree.raw.bInterfaceNumber p then []
    else if allocated then [p + 8] else []

def probeEndpointAccesses : List ℕ :=
  getInterfaceAccesses s ++
    match s.tree.getInterface s.interface with
    | none => []
    | some _ => if allocated then [p + 2, p + 3, p + 4, p + 5] else []

def probeHidAccesses : List ℕ :=
  getInterfaceAccesses s ++
    match s.tree.getInterface s.interface with
    | none => []
    | some (number, alt) =>
        let descriptor := s.tree.descriptorAt number alt
        [descriptor + 5] ++
          if s.tree.raw.bInterfaceClass descriptor ≠ libusbClassHid then []
          else
            [p + 5] ++
              ((List.range (hidReports s.tree.raw p)).flatMap fun i =>
                [p + 8 + 4 * i, p + 9 + 4 * i]) ++
              match hidReport s.tree.raw p with
              | none => []
              | some i => if allocated then [p + 6 + 4 * i, descriptor + 2] else []

def probeDescriptorAccesses : List ℕ :=
  [p + 1] ++
    if s.tree.raw.bDescriptorType p = libusbDtInterface then probeInterfaceAccesses allocated s p
    else if s.tree.raw.bDescriptorType p = libusbDtEndpoint then
      probeEndpointAccesses allocated s p
    else if s.tree.raw.bDescriptorType p = libusbDtHid then probeHidAccesses allocated s p
    else []

end Handlers

def probeLoopAccesses (env : Environment) : ℕ → GusbDevice → Probing → ℕ → List ℕ
  | 0, _, _, _ => [2, 3]
  | iterations + 1, d, s, p =>
      [2, 3] ++
        if p < s.tree.raw.wTotalLength.toNat then
          let (d', s', ret) := probeDescriptor env d s p
          probeDescriptorAccesses (d.allocate env).2 s p ++
            if ret < 0 then []
            else
              p :: probeLoopAccesses env iterations d' s' (p + s.tree.raw.descriptorLength p)
        else []

/-- `raw`, the memory from the pointer to the bytes of a configuration on, and how many of them
were allocated. -/
structure Buffer where
  raw : RawConfiguration
  size : ℕ

def probeConfigurationAccesses (env : Environment) (iterations : ℕ) (d : GusbDevice)
    (raw : RawConfiguration) : List ℕ :=
  let (d, allocated) := d.allocate env
  4 ::
    if allocated then
      let d := if raw.iConfiguration ≠ 0 then (getStringDescriptor env d raw.iConfiguration).1
        else d
      [6, 0] ++ probeLoopAccesses env iterations d (Probing.start raw) raw.bLength
    else []

abbrev Probing.accesses (s : Probing) (p : ℕ) : List ℕ := probeDescriptorAccesses true s p

section Descriptor

theorem append_subset_append {l l' : List ℕ} (before : List ℕ) (h : l ⊆ l') :
    before ++ l ⊆ before ++ l' := by
  rw [List.append_subset]
  exact ⟨List.subset_append_left _ _, List.Subset.trans h (List.subset_append_right _ _)⟩

theorem probeDescriptorAccesses_subset (allocated : Bool) (s : Probing) (p : ℕ) :
    probeDescriptorAccesses allocated s p ⊆ s.accesses p := by
  have hif : ∀ l : List ℕ, (if allocated then l else []) ⊆ if true then l else [] := by
    intro l
    cases allocated
    · exact List.nil_subset l
    · exact List.Subset.refl l
  unfold Probing.accesses probeDescriptorAccesses
  refine append_subset_append _ ?_
  split
  · refine append_subset_append _ ?_
    split
    · exact List.Subset.refl _
    · exact hif _
  · split
    · refine append_subset_append _ ?_
      split
      · exact List.Subset.refl _
      · exact hif _
    · split
      · refine append_subset_append _ ?_
        split
        · exact List.Subset.refl _
        · refine append_subset_append _ ?_
          split
          · exact List.Subset.refl _
          · refine append_subset_append _ ?_
            split
            · exact List.Subset.refl _
            · exact hif _
      · exact List.Subset.refl _

theorem Probing.accesses_handle (s : Probing) (p : ℕ) :
    (s.handle p).accesses p = s.accesses p := by
  unfold accesses probeDescriptorAccesses
  rw [handle_raw]
  by_cases hinterface : s.tree.raw.bDescriptorType p = libusbDtInterface
  · rw [if_pos hinterface, if_pos hinterface]
    unfold probeInterfaceAccesses
    rw [handle_raw]
  · obtain ⟨hpointer, hget, hdescriptor⟩ := handle_of_not_interface hinterface
    rw [if_neg hinterface, if_neg hinterface]
    unfold probeEndpointAccesses probeHidAccesses getInterfaceAccesses
    simp only [handle_raw, hpointer, hget, hdescriptor]

end Descriptor

namespace RawConfiguration

variable (r : RawConfiguration) (ps : List ℕ)

def recordDescriptor (p : ℕ) : Option ℕ :=
  (r.record ps p).bind fun x => (kept (r.settings ps x.1))[x.2]?

def hidExtent (p : ℕ) : ℕ :=
  match hidReport r p with
  | none => 6 + 4 * (r.bNumDescriptors p).toNat
  | some i => 10 + 4 * i

def extent (p : ℕ) : ℕ :=
  if r.bDescriptorType p = libusbDtInterface then
    if r.bInterfaceNumber p < r.bNumInterfaces then 9 else 3
  else if r.bDescriptorType p = libusbDtEndpoint then
    if r.record ps p ≠ none then 6 else 2
  else if r.bDescriptorType p = libusbDtHid ∧
      (r.recordDescriptor ps p).map r.bInterfaceClass = some libusbClassHid then r.hidExtent p
  else 2

end RawConfiguration

section Extent

variable {raw : RawConfiguration} {before : List ℕ} {s : Probing} {p : ℕ}

theorem Built.descriptorAt (h : Built raw before s) {x : ℕ × ℕ}
    (hx : raw.record before p = some x) :
    ∃ q ∈ before, raw.isInterface q ∧ s.tree.descriptorAt x.1 x.2 = q ∧
      raw.recordDescriptor before p = some q := by
  obtain ⟨-, hnumber, halt⟩ := RawConfiguration.record_eq_some hx
  have hkept : x.2 < (kept (raw.settings before x.1)).length := by rwa [length_kept]
  have hmem := RawConfiguration.mem_settings.1
    ((kept_sublist _).subset (List.getElem_mem hkept))
  refine ⟨(kept (raw.settings before x.1))[x.2], hmem.1, hmem.2.1, ?_, ?_⟩
  · have hget := congrArg (·[x.2]?) (h.descriptors hnumber)
    rw [List.getElem?_eq_getElem hkept] at hget
    unfold PConfiguration.descriptorAt
    rw [List.getD_eq_getElem?_getD]
    have hcount : x.2 < (s.tree.interface x.1).altInterfaces.count.toNat := by
      rw [h.count hnumber]
      exact halt
    simp only [List.getElem?_map, CountedArray.visible, List.getElem?_take_of_lt hcount] at hget
    obtain ⟨a, ha, heq⟩ := Option.map_eq_some_iff.1 hget
    rw [ha]
    exact heq
  · rw [RawConfiguration.recordDescriptor, hx, Option.bind_some, List.getElem?_eq_getElem hkept]

theorem Built.getInterfaceAccesses (h : Built raw before s) :
    ∀ o ∈ getInterfaceAccesses s, o < 7 ∨ ∃ q ∈ before, raw.isInterface q ∧ o < q + 9 := by
  intro o ho
  unfold SerialUsb.getInterfaceAccesses at ho
  rw [h.interface] at ho
  cases hlast : (before.filter raw.isInterface).getLast? with
  | none =>
      rw [hlast] at ho
      exact absurd ho List.not_mem_nil
  | some q =>
      have hq := List.mem_filter.1 (List.mem_of_getLast? hlast)
      rw [hlast] at ho
      have hcases : o = q + 2 ∨ o = 4 ∨ o = q + 3 := by
        rcases List.mem_append.1 ho with ho | ho
        · simp only [List.mem_cons, List.not_mem_nil, or_false] at ho
          rcases ho with ho | ho
          · exact Or.inl ho
          · exact Or.inr (Or.inl ho)
        · split at ho
          · exact absurd ho List.not_mem_nil
          · exact Or.inr (Or.inr (List.mem_singleton.1 ho))
      rcases hcases with rfl | rfl | rfl
      · exact Or.inr ⟨q, hq.1, hq.2, by omega⟩
      · exact Or.inl (by decide)
      · exact Or.inr ⟨q, hq.1, hq.2, by omega⟩

theorem hidReports_eq (raw : RawConfiguration) (p : ℕ) :
    raw.hidExtent p = 6 + 4 * hidReports raw p := by
  unfold RawConfiguration.hidExtent hidReports
  cases hidReport raw p with
  | none => rfl
  | some i =>
      dsimp only
      omega

theorem hidReport_lt {raw : RawConfiguration} {p i : ℕ} (h : hidReport raw p = some i) :
    i < hidReports raw p := by
  unfold hidReports
  rw [h]
  exact Nat.lt_succ_self i

theorem mem_probeInterfaceAccesses {o : ℕ} :
    o ∈ probeInterfaceAccesses true s p ↔ o = p + 2 ∨ o = 4 ∨
      s.tree.raw.bInterfaceNumber p < s.tree.raw.bNumInterfaces ∧ o = p + 8 := by
  unfold probeInterfaceAccesses
  rw [List.mem_append, List.mem_cons, List.mem_singleton, if_pos rfl, or_assoc]
  refine or_congr_right (or_congr_right ?_)
  split
  next h => exact ⟨fun ho => absurd ho List.not_mem_nil, fun ho => absurd ho.1 (UInt8.not_lt.2 h)⟩
  next h => exact ⟨fun ho => ⟨UInt8.not_le.1 h, List.mem_singleton.1 ho⟩,
      fun ho => List.mem_singleton.2 ho.2⟩

theorem mem_probeEndpointAccesses {o : ℕ} :
    o ∈ probeEndpointAccesses true s p ↔ o ∈ getInterfaceAccesses s ∨
      s.tree.getInterface s.interface ≠ none ∧
        (o = p + 2 ∨ o = p + 3 ∨ o = p + 4 ∨ o = p + 5) := by
  unfold probeEndpointAccesses
  rw [List.mem_append]
  refine or_congr_right ?_
  cases s.tree.getInterface s.interface with
  | none => simp
  | some x => simp

theorem mem_probeHidAccesses {o : ℕ} :
    o ∈ probeHidAccesses true s p ↔ o ∈ getInterfaceAccesses s ∨
      ∃ x, s.tree.getInterface s.interface = some x ∧
        (o = s.tree.descriptorAt x.1 x.2 + 5 ∨
          s.tree.raw.bInterfaceClass (s.tree.descriptorAt x.1 x.2) = libusbClassHid ∧
            (o = p + 5 ∨ (∃ i < hidReports s.tree.raw p, o = p + 8 + 4 * i ∨ o = p + 9 + 4 * i) ∨
              ∃ i, hidReport s.tree.raw p = some i ∧
                (o = p + 6 + 4 * i ∨ o = s.tree.descriptorAt x.1 x.2 + 2))) := by
  unfold probeHidAccesses
  rw [List.mem_append]
  refine or_congr_right ?_
  cases s.tree.getInterface s.interface with
  | none => simp
  | some x =>
      obtain ⟨number, alt⟩ := x
      dsimp only
      by_cases hclass : s.tree.raw.bInterfaceClass (s.tree.descriptorAt number alt) =
          libusbClassHid
      · cases hreport : hidReport s.tree.raw p with
        | none => simp [hclass]
        | some i => simp [hclass]
      · simp [hclass]

theorem extent_of_interface (htype : raw.bDescriptorType p = libusbDtInterface) :
    raw.extent before p = if raw.bInterfaceNumber p < raw.bNumInterfaces then 9 else 3 :=
  if_pos htype

theorem extent_of_endpoint (htype : raw.bDescriptorType p = libusbDtEndpoint) :
    raw.extent before p = if raw.record before p ≠ none then 6 else 2 := by
  have hother : raw.bDescriptorType p ≠ libusbDtInterface := by
    rw [htype]
    decide
  unfold RawConfiguration.extent
  rw [if_neg hother, if_pos htype]

theorem extent_of_hid (htype : raw.bDescriptorType p = libusbDtHid) {q : ℕ}
    (hx : raw.recordDescriptor before p = some q) (hclass : raw.bInterfaceClass q = libusbClassHid) :
    raw.extent before p = 6 + 4 * hidReports raw p := by
  have hinterface : raw.bDescriptorType p ≠ libusbDtInterface := by
    rw [htype]
    decide
  have hendpoint : raw.bDescriptorType p ≠ libusbDtEndpoint := by
    rw [htype]
    decide
  unfold RawConfiguration.extent
  rw [if_neg hinterface, if_neg hendpoint, if_pos, hidReports_eq]
  exact ⟨htype, by rw [hx, Option.map_some, hclass]⟩

theorem extent_of_other (hinterface : raw.bDescriptorType p ≠ libusbDtInterface)
    (hendpoint : raw.bDescriptorType p ≠ libusbDtEndpoint)
    (hhid : ¬ (raw.bDescriptorType p = libusbDtHid ∧
      (raw.recordDescriptor before p).map raw.bInterfaceClass = some libusbClassHid)) :
    raw.extent before p = 2 := by
  unfold RawConfiguration.extent
  rw [if_neg hinterface, if_neg hendpoint, if_neg hhid]

theorem extent_of_accepted_interface (htype : raw.bDescriptorType p = libusbDtInterface)
    (haccepted : raw.Accepted before p) : raw.extent before p = 9 := by
  unfold RawConfiguration.Accepted at haccepted
  rw [if_pos htype] at haccepted
  rw [extent_of_interface htype, if_pos haccepted]

theorem extent_of_accepted_endpoint (htype : raw.bDescriptorType p = libusbDtEndpoint)
    (haccepted : raw.Accepted before p) : raw.extent before p = 6 := by
  have hother : raw.bDescriptorType p ≠ libusbDtInterface := by
    rw [htype]
    decide
  unfold RawConfiguration.Accepted at haccepted
  rw [if_neg hother, if_pos (Or.inl htype)] at haccepted
  rw [extent_of_endpoint htype, if_pos haccepted]

theorem two_le_extent (raw : RawConfiguration) (before : List ℕ) (p : ℕ) :
    2 ≤ raw.extent before p := by
  unfold RawConfiguration.extent
  rw [hidReports_eq]
  split_ifs <;> omega

theorem Built.hidAccess_lt (h : Built raw before s) (hp : ∀ q ∈ before, q < p)
    (htype : raw.bDescriptorType p = libusbDtHid) {o : ℕ} (ho : o ∈ probeHidAccesses true s p)
    (hother : o ∉ SerialUsb.getInterfaceAccesses s) :
    (∃ q ∈ before, raw.isInterface q ∧ o < q + 9) ∨ o < p + raw.extent before p := by
  rw [mem_probeHidAccesses, h.getInterface hp, h.raw_eq] at ho
  rcases ho with ho | ⟨x, hx, ho⟩
  · exact absurd ho hother
  · obtain ⟨q, hq, hqi, hdescriptor, hrd⟩ := h.descriptorAt hx
    rw [hdescriptor] at ho
    rcases ho with rfl | ⟨hclass, ho⟩
    · exact Or.inl ⟨q, hq, hqi, by omega⟩
    · rw [extent_of_hid htype hrd hclass]
      rcases ho with rfl | ⟨i, hi, ho⟩ | ⟨i, hi, rfl | rfl⟩
      · exact Or.inr (by omega)
      · exact Or.inr (by omega)
      · have hlt := hidReport_lt hi
        exact Or.inr (by omega)
      · exact Or.inl ⟨q, hq, hqi, by omega⟩

/-- Everything that is read at a descriptor lies in the configuration descriptor, in an
interface descriptor before, or within the extent of the descriptor. -/
theorem Built.accesses_lt (h : Built raw before s) (hp : ∀ q ∈ before, q < p) :
    ∀ o ∈ s.accesses p, o < 7 ∨ (∃ q ∈ before, raw.isInterface q ∧ o < q + 9) ∨
      o < p + raw.extent before p := by
  intro o ho
  by_cases hget : o ∈ SerialUsb.getInterfaceAccesses s
  · rcases h.getInterfaceAccesses o hget with ho | ho
    · exact Or.inl ho
    · exact Or.inr (Or.inl ho)
  unfold Probing.accesses probeDescriptorAccesses at ho
  rw [h.raw_eq] at ho
  rcases List.mem_append.1 ho with ho | ho
  · obtain rfl := List.mem_singleton.1 ho
    have htwo := two_le_extent raw before p
    exact Or.inr (Or.inr (by omega))
  · split_ifs at ho with hinterface hendpoint hhid
    · rw [mem_probeInterfaceAccesses, h.raw_eq] at ho
      rw [extent_of_interface hinterface]
      rcases ho with rfl | rfl | ⟨hnumber, rfl⟩
      · exact Or.inr (Or.inr (by split <;> omega))
      · exact Or.inl (by decide)
      · rw [if_pos hnumber]
        exact Or.inr (Or.inr (by omega))
    · rw [mem_probeEndpointAccesses, h.getInterface hp] at ho
      rw [extent_of_endpoint hendpoint]
      rcases ho with ho | ⟨hsome, ho⟩
      · exact absurd ho hget
      · rw [if_pos hsome]
        exact Or.inr (Or.inr (by omega))
    · exact Or.inr (h.hidAccess_lt hp hhid ho hget)
    · exact absurd ho List.not_mem_nil

theorem Built.exists_hidAccess (h : Built raw before s) (hp : ∀ q ∈ before, q < p)
    (hclass : (raw.recordDescriptor before p).map raw.bInterfaceClass = some libusbClassHid) :
    ∃ o ∈ probeHidAccesses true s p, p + (6 + 4 * hidReports raw p) ≤ o + 1 := by
  obtain ⟨q', hq', hclass'⟩ := Option.map_eq_some_iff.1 hclass
  obtain ⟨x, hx, -⟩ := Option.bind_eq_some_iff.1 hq'
  obtain ⟨q, -, -, hdescriptor, hrd⟩ := h.descriptorAt hx
  obtain rfl : q' = q := Option.some.inj (hq'.symm.trans hrd)
  have hmem : ∀ o, (o = p + 5 ∨ ∃ i < hidReports raw p, o = p + 8 + 4 * i ∨ o = p + 9 + 4 * i) →
      o ∈ probeHidAccesses true s p := by
    intro o ho
    refine mem_probeHidAccesses.2 (Or.inr ⟨x, (h.getInterface hp).trans hx, Or.inr ?_⟩)
    rw [hdescriptor, h.raw_eq]
    rcases ho with ho | ho
    · exact ⟨hclass', Or.inl ho⟩
    · exact ⟨hclass', Or.inr (Or.inl ho)⟩
  by_cases hnone : hidReports raw p = 0
  · exact ⟨p + 5, hmem _ (Or.inl rfl), by omega⟩
  · exact ⟨p + 9 + 4 * (hidReports raw p - 1),
      hmem _ (Or.inr ⟨hidReports raw p - 1, by omega, Or.inr rfl⟩), by omega⟩

theorem Built.exists_access (h : Built raw before s) (hp : ∀ q ∈ before, q < p) :
    ∃ o ∈ s.accesses p, p + raw.extent before p ≤ o + 1 := by
  have hrecord := h.getInterface hp
  unfold Probing.accesses probeDescriptorAccesses
  rw [h.raw_eq]
  split_ifs with hinterface hendpoint hhid
  · rw [extent_of_interface hinterface]
    by_cases hnumber : raw.bInterfaceNumber p < raw.bNumInterfaces
    · rw [if_pos hnumber]
      refine ⟨p + 8, List.mem_append_right _ (mem_probeInterfaceAccesses.2 ?_), Nat.le_refl _⟩
      rw [h.raw_eq]
      exact Or.inr (Or.inr ⟨hnumber, rfl⟩)
    · rw [if_neg hnumber]
      exact ⟨p + 2, List.mem_append_right _ (mem_probeInterfaceAccesses.2 (Or.inl rfl)),
        Nat.le_refl _⟩
  · rw [extent_of_endpoint hendpoint]
    by_cases hsome : raw.record before p ≠ none
    · rw [if_pos hsome]
      refine ⟨p + 5, List.mem_append_right _ (mem_probeEndpointAccesses.2 (Or.inr ⟨?_, by omega⟩)),
        Nat.le_refl _⟩
      rwa [hrecord]
    · rw [if_neg hsome]
      exact ⟨p + 1, List.mem_append_left _ List.mem_cons_self, Nat.le_refl _⟩
  · by_cases hclass : (raw.recordDescriptor before p).map raw.bInterfaceClass =
        some libusbClassHid
    · obtain ⟨o, ho, hle⟩ := h.exists_hidAccess hp hclass
      obtain ⟨q, hq, hclass'⟩ := Option.map_eq_some_iff.1 hclass
      rw [extent_of_hid hhid hq hclass']
      exact ⟨o, List.mem_append_right _ ho, hle⟩
    · rw [extent_of_other hinterface hendpoint fun hboth => hclass hboth.2]
      exact ⟨p + 1, List.mem_append_left _ List.mem_cons_self, Nat.le_refl _⟩
  · rw [extent_of_other hinterface hendpoint fun hboth => hhid hboth.1]
    exact ⟨p + 1, List.mem_append_left _ List.mem_cons_self, Nat.le_refl _⟩

/-- What is read at a descriptor lies within a size exactly when its extent does, if what was
read before does. -/
theorem Built.accesses_lt_iff (h : Built raw before s) (hp : ∀ q ∈ before, q < p) {size : ℕ}
    (hheader : 7 ≤ size) (hbefore : ∀ q ∈ before, raw.isInterface q → q + 9 ≤ size) :
    (∀ o ∈ s.accesses p, o < size) ↔ p + raw.extent before p ≤ size := by
  constructor
  · intro hall
    obtain ⟨o, ho, hle⟩ := h.exists_access hp
    exact hle.trans (hall o ho)
  · intro hle o ho
    rcases h.accesses_lt hp o ho with ho | ⟨q, hq, hqi, ho⟩ | ho
    · omega
    · have hinterface := hbefore q hq hqi
      omega
    · omega

end Extent

def Probing.walkAccesses (s : Probing) : List ℕ → List ℕ
  | [] => []
  | p :: ps => s.accesses p ++ if s.Accepts p then p :: (s.handle p).walkAccesses ps else []

section Walk

variable {env : Environment} {s : Probing} {p : ℕ}

theorem mem_probeLoopAccesses_succ {iterations : ℕ} {d : GusbDevice} {o : ℕ}
    (hlt : p < s.tree.raw.wTotalLength.toNat) :
    o ∈ probeLoopAccesses env (iterations + 1) d s p ↔ o = 2 ∨ o = 3 ∨
      o ∈ probeDescriptorAccesses (d.allocate env).2 s p ∨
        (probeDescriptor env d s p).2.2 = 0 ∧ (o = p ∨
          o ∈ probeLoopAccesses env iterations (probeDescriptor env d s p).1 (s.handle p)
            (p + s.tree.raw.descriptorLength p)) := by
  rw [probeLoopAccesses, if_pos hlt, List.mem_append, List.mem_cons, List.mem_singleton, or_assoc]
  refine or_congr_right (or_congr_right ?_)
  have hcases := probeDescriptor_cases env d s p
  generalize probeDescriptor env d s p = x at hcases
  obtain ⟨d', s', ret⟩ := x
  dsimp only at hcases ⊢
  rw [List.mem_append]
  refine or_congr_right ?_
  rcases hcases with ⟨hret, -⟩ | ⟨hret, -⟩
  · rw [hret, if_pos (by decide)]
    exact ⟨fun ho => absurd ho List.not_mem_nil, fun ho => absurd ho.1 (by decide)⟩
  · obtain ⟨rfl, rfl⟩ := Prod.mk.inj hret
    rw [if_neg (Int.lt_irrefl 0), List.mem_cons]
    exact ⟨fun ho => ⟨rfl, ho⟩, fun ho => ho.2⟩

theorem probeLoopAccesses_of_le (env : Environment) (iterations : ℕ) (d : GusbDevice)
    (h : s.tree.raw.wTotalLength.toNat ≤ p) : probeLoopAccesses env iterations d s p = [2, 3] := by
  cases iterations with
  | zero => rfl
  | succ iterations => rw [probeLoopAccesses, if_neg (Nat.not_lt.2 h), List.append_nil]

/-- Whatever the calls do, the loop reads nothing else, also when it never ends. -/
theorem probeLoopAccesses_subset (iterations : ℕ) (d : GusbDevice) {o : ℕ}
    (ho : o ∈ probeLoopAccesses env iterations d s p) :
    o = 2 ∨ o = 3 ∨ o ∈ s.walkAccesses (s.tree.raw.positionsFrom p) := by
  induction iterations generalizing d s p with
  | zero =>
      rcases List.mem_cons.1 ho with ho | ho
      · exact Or.inl ho
      · exact Or.inr (Or.inl (List.mem_singleton.1 ho))
  | succ iterations ih =>
      by_cases hlt : p < s.tree.raw.wTotalLength.toNat
      · obtain ⟨ps, hps⟩ : ∃ ps, s.tree.raw.positionsFrom p = p :: ps := by
          by_cases hlen : s.tree.raw.descriptorLength p = 0
          · exact ⟨_, s.positionsFrom_of_zero hlt hlen⟩
          · exact ⟨_, s.positionsFrom_of_lt hlt hlen⟩
        have hhere : ∀ o ∈ s.accesses p, o ∈ s.walkAccesses (s.tree.raw.positionsFrom p) := by
          intro o ho
          rw [hps]
          exact List.mem_append_left _ ho
        rw [mem_probeLoopAccesses_succ hlt] at ho
        rcases ho with ho | ho | ho | ⟨hret, ho⟩
        · exact Or.inl ho
        · exact Or.inr (Or.inl ho)
        · exact Or.inr (Or.inr (hhere o (probeDescriptorAccesses_subset _ s p ho)))
        · have haccepts : s.Accepts p := by
            rcases probeDescriptor_cases env d s p with ⟨hminus, -⟩ | ⟨-, haccepts, -⟩
            · rw [hminus] at hret
              exact absurd hret (by decide)
            · exact haccepts
          have hself : p ∈ s.walkAccesses (s.tree.raw.positionsFrom p) := by
            rw [hps, Probing.walkAccesses, if_pos haccepts]
            exact List.mem_append_right _ List.mem_cons_self
          rcases ho with rfl | ho
          · exact Or.inr (Or.inr hself)
          · rcases ih _ ho with ho | ho | ho
            · exact Or.inl ho
            · exact Or.inr (Or.inl ho)
            · refine Or.inr (Or.inr ?_)
              by_cases hlen : s.tree.raw.descriptorLength p = 0
              · -- the next iteration is at the same descriptor, and reads the same
                have hlast : (s.handle p).tree.raw.positionsFrom
                    (p + s.tree.raw.descriptorLength p) = [p] := by
                  rw [s.handle_raw, hlen]
                  exact s.positionsFrom_of_zero hlt hlen
                rw [hlast, Probing.walkAccesses, s.accesses_handle] at ho
                rcases List.mem_append.1 ho with ho | ho
                · exact hhere o ho
                · split at ho
                  · rcases List.mem_cons.1 ho with rfl | ho
                    · exact hself
                    · exact absurd ho List.not_mem_nil
                  · exact absurd ho List.not_mem_nil
              · rw [s.positionsFrom_of_lt hlt hlen, Probing.walkAccesses, if_pos haccepts]
                exact List.mem_append_right _ (List.mem_cons_of_mem p ho)
      · rw [probeLoopAccesses_of_le env _ d (Nat.not_lt.1 hlt)] at ho
        rcases List.mem_cons.1 ho with ho | ho
        · exact Or.inl ho
        · exact Or.inr (Or.inl (List.mem_singleton.1 ho))

theorem walkAccesses_subset (hs : env.Succeeds) {iterations : ℕ} (d : GusbDevice)
    (hiterations : s.tree.raw.wTotalLength.toNat - p ≤ iterations) {o : ℕ}
    (ho : o ∈ s.walkAccesses (s.tree.raw.positionsFrom p)) :
    o ∈ probeLoopAccesses env iterations d s p := by
  induction iterations generalizing d s p with
  | zero =>
      have hnone : s.tree.raw.positionsFrom p = [] := records_of_le (by omega)
      rw [hnone] at ho
      exact absurd ho List.not_mem_nil
  | succ iterations ih =>
      by_cases hlt : p < s.tree.raw.wTotalLength.toNat
      · rw [mem_probeLoopAccesses_succ hlt]
        have hallocated : (d.allocate env).2 = true := hs.1 _
        rw [hallocated]
        have hret : s.Accepts p → (probeDescriptor env d s p).2.2 = 0 := by
          intro haccepts
          rcases probeDescriptor_cases env d s p with ⟨-, hrefused⟩ | ⟨hret, -⟩
          · exact absurd haccepts (hrefused hs)
          · exact congrArg Prod.snd hret
        by_cases hlen : s.tree.raw.descriptorLength p = 0
        · rw [s.positionsFrom_of_zero hlt hlen, Probing.walkAccesses] at ho
          rcases List.mem_append.1 ho with ho | ho
          · exact Or.inr (Or.inr (Or.inl ho))
          · split at ho
            next haccepts =>
              exact Or.inr (Or.inr (Or.inr ⟨hret haccepts, Or.inl (List.mem_singleton.1 ho)⟩))
            next => exact absurd ho List.not_mem_nil
        · rw [s.positionsFrom_of_lt hlt hlen, Probing.walkAccesses] at ho
          rcases List.mem_append.1 ho with ho | ho
          · exact Or.inr (Or.inr (Or.inl ho))
          · split at ho
            next haccepts =>
              refine Or.inr (Or.inr (Or.inr ⟨hret haccepts, ?_⟩))
              rcases List.mem_cons.1 ho with ho | ho
              · exact Or.inl ho
              · refine Or.inr (ih _ ?_ ho)
                rw [s.handle_raw]
                omega
            next => exact absurd ho List.not_mem_nil
      · have hnone : s.tree.raw.positionsFrom p = [] := records_of_le (Nat.not_lt.1 hlt)
        rw [hnone] at ho
        exact absurd ho List.not_mem_nil

/-- A walk reads within a size exactly when the size has room for the extents of the
descriptors up to the first one that is refused. -/
theorem Built.walkAccesses_lt_iff {raw : RawConfiguration} {before ps : List ℕ} {size : ℕ}
    (h : Built raw before s) (hps : (before ++ ps).Pairwise (· < ·)) (hheader : 7 ≤ size)
    (hbefore : ∀ q ∈ before, raw.isInterface q → q + 9 ≤ size) :
    (∀ o ∈ s.walkAccesses ps, o < size) ↔
      ∀ b p a, ps = b ++ p :: a →
        (∀ x y z, b = x ++ y :: z → raw.Accepted (before ++ x) y) →
        p + raw.extent (before ++ b) p ≤ size := by
  induction ps generalizing before s with
  | nil => exact ⟨fun _ => forall_split_nil, fun _ o ho => absurd ho List.not_mem_nil⟩
  | cons p ps ih =>
      have hp : ∀ q ∈ before, q < p := fun q hq =>
        (List.pairwise_append.1 hps).2.2 q hq p List.mem_cons_self
      have hps' : ((before ++ [p]) ++ ps).Pairwise (· < ·) := by
        rwa [List.append_assoc]
      have hhere := h.accesses_lt_iff hp hheader hbefore
      have hsplit := forall_split_cons_imp (P := fun b q => q + raw.extent (before ++ b) q ≤ size)
        (Q := fun x y => raw.Accepted (before ++ x) y) (a := p) (l := ps)
      simp only [List.append_nil] at hsplit
      rw [hsplit, Probing.walkAccesses, List.forall_mem_append, hhere, ← h.accepts_iff hp]
      refine and_congr_right fun hle => ?_
      by_cases haccepts : s.Accepts p
      · have haccepted := (h.accepts_iff hp).1 haccepts
        have hbefore' : ∀ q ∈ before ++ [p], raw.isInterface q → q + 9 ≤ size := by
          intro q hq hqi
          rcases List.mem_append.1 hq with hq | hq
          · exact hbefore q hq hqi
          · obtain rfl := List.mem_singleton.1 hq
            rwa [extent_of_accepted_interface (of_decide_eq_true hqi) haccepted] at hle
        have hlt : p < size := by
          have htwo := two_le_extent raw before p
          omega
        have hrest := ih (h.handle hp haccepts) hps' hbefore'
        simp only [List.append_assoc, List.singleton_append] at hrest
        rw [if_pos haccepts, List.forall_mem_cons, hrest]
        exact ⟨fun hall _ => hall.2, fun hall => ⟨hlt, hall haccepts⟩⟩
      · rw [if_neg haccepts]
        exact ⟨fun _ hacc => absurd hacc haccepts, fun _ o ho => absurd ho List.not_mem_nil⟩

end Walk

/-- The buffer has the bytes of the configuration descriptor up to `iConfiguration`, and those
that are read for the sub-descriptors up to the first one that is refused. -/
def Buffer.Holds (b : Buffer) : Prop :=
  7 ≤ b.size ∧ ∀ before p after, b.raw.positions = before ++ p :: after →
    b.raw.AllAccepted before → p + b.raw.extent before p ≤ b.size

theorem Buffer.holds_iff (b : Buffer) :
    b.Holds ↔ 7 ≤ b.size ∧
      ∀ o ∈ (Probing.start b.raw).walkAccesses b.raw.positions, o < b.size := by
  refine and_congr_right fun hheader => ?_
  have hpairwise : ([] ++ b.raw.positions).Pairwise (· < ·) := b.raw.pairwise_positions
  exact ((Built.start b.raw).walkAccesses_lt_iff hpairwise hheader
    fun q hq => absurd hq List.not_mem_nil).symm

theorem probeConfigurationAccesses_lt {b : Buffer} (h : b.Holds) (env : Environment)
    (iterations : ℕ) (d : GusbDevice) :
    ∀ o ∈ probeConfigurationAccesses env iterations d b.raw, o < b.size := by
  obtain ⟨hheader, hwalk⟩ := b.holds_iff.1 h
  intro o ho
  unfold probeConfigurationAccesses at ho
  dsimp only at ho
  rcases List.mem_cons.1 ho with rfl | ho
  · omega
  · split at ho
    · rcases List.mem_append.1 ho with ho | ho
      · simp only [List.mem_cons, List.not_mem_nil, or_false] at ho
        omega
      · rcases probeLoopAccesses_subset _ _ ho with rfl | rfl | ho
        · omega
        · omega
        · exact hwalk o ho
    · exact absurd ho List.not_mem_nil

theorem holds_of_probeConfigurationAccesses {b : Buffer} {env : Environment}
    (hs : env.Succeeds) (d : GusbDevice) {iterations : ℕ}
    (hiterations : b.raw.wTotalLength.toNat ≤ iterations)
    (h : ∀ o ∈ probeConfigurationAccesses env iterations d b.raw, o < b.size) : b.Holds := by
  have hallocated : (d.allocate env).2 = true := hs.1 _
  unfold probeConfigurationAccesses at h
  dsimp only at h
  rw [if_pos hallocated] at h
  refine b.holds_iff.2 ⟨?_, fun o ho => ?_⟩
  · exact h 6 (List.mem_cons_of_mem _ List.mem_cons_self)
  · have henough : (Probing.start b.raw).tree.raw.wTotalLength.toNat - b.raw.bLength ≤
        iterations := (Nat.sub_le _ _).trans hiterations
    have hwalk : o ∈ (Probing.start b.raw).walkAccesses
        ((Probing.start b.raw).tree.raw.positionsFrom b.raw.bLength) := ho
    apply h o
    apply List.mem_cons_of_mem
    apply List.mem_append_right
    exact walkAccesses_subset hs _ henough hwalk

end SerialUsb
