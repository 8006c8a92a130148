import SerialUsb.Framing.Records
import SerialUsb.Gusb.Tree

/-!
# What the bytes of a configuration say

The sub-descriptors of a configuration, told from their bytes: which interface descriptor is
the nearest one before an endpoint, and which record of the tree the endpoint is put into.
`Built` is the tree that a walk has built from the positions it passed, in these terms.
-/

namespace SerialUsb

open Framing Memory

namespace RawConfiguration

variable (r : RawConfiguration)

def isInterface (p : ℕ) : Bool := r.bDescriptorType p = libusbDtInterface

def isEndpoint (p : ℕ) : Bool := r.bDescriptorType p = libusbDtEndpoint

def positions : List ℕ := records r.descriptorLength r.wTotalLength.toNat r.bLength

variable (ps : List ℕ)

def settings (number : ℕ) : List ℕ :=
  ps.filter fun p => r.isInterface p ∧ (r.bInterfaceNumber p).toNat = number

def owner (p : ℕ) : Option ℕ := (ps.filter fun q => r.isInterface q ∧ q < p).getLast?

def ownerIndices (p : ℕ) : Option (ℕ × ℕ) :=
  (r.owner ps p).map fun q => ((r.bInterfaceNumber q).toNat, (r.bAlternateSetting q).toNat)

/-- The endpoint descriptors behind the position `q` with these indices. -/
def attached (number alt q : ℕ) : List ℕ :=
  ps.filter fun e => r.isEndpoint e ∧ q < e ∧ r.ownerIndices ps e = some (number, alt)

def record (p : ℕ) : Option (ℕ × ℕ) :=
  (r.ownerIndices ps p).filter fun x =>
    x.1 < r.bNumInterfaces.toNat ∧ x.2 < (r.settings ps x.1).length % 256

/-- The descriptor at `p` is not refused behind the descriptors at the positions `ps`: an
interface descriptor has a number below `bNumInterfaces`, and an endpoint or a HID descriptor
has a record. -/
def Accepted (p : ℕ) : Prop :=
  if r.bDescriptorType p = libusbDtInterface then r.bInterfaceNumber p < r.bNumInterfaces
  else if r.bDescriptorType p = libusbDtEndpoint ∨ r.bDescriptorType p = libusbDtHid then
    r.record ps p ≠ none
  else True

instance (p : ℕ) : Decidable (r.Accepted ps p) := by
  unfold Accepted
  infer_instance

def AllAccepted : Prop := ∀ before p after, ps = before ++ p :: after → r.Accepted before p

variable {r ps} {p : ℕ}

theorem AllAccepted.left {before after : List ℕ} (h : r.AllAccepted (before ++ after)) :
    r.AllAccepted before := by
  rintro x y z rfl
  exact h x y (z ++ after) (by simp)

theorem mem_settings {ps : List ℕ} {number q : ℕ} :
    q ∈ r.settings ps number ↔
      q ∈ ps ∧ r.isInterface q ∧ (r.bInterfaceNumber q).toNat = number := by
  rw [settings, List.mem_filter, decide_eq_true_eq]

theorem of_owner {ps : List ℕ} {e q : ℕ} (h : r.owner ps e = some q) :
    q ∈ ps ∧ r.isInterface q ∧ q < e := by
  have hmem := List.mem_of_getLast? h
  rwa [List.mem_filter, decide_eq_true_eq] at hmem

theorem mem_attached {ps : List ℕ} {number alt q e : ℕ} :
    e ∈ r.attached ps number alt q ↔
      e ∈ ps ∧ r.isEndpoint e ∧ q < e ∧ r.ownerIndices ps e = some (number, alt) := by
  rw [attached, List.mem_filter, decide_eq_true_eq]

theorem record_eq_some {ps : List ℕ} {p : ℕ} {x : ℕ × ℕ} (h : r.record ps p = some x) :
    r.ownerIndices ps p = some x ∧ x.1 < r.bNumInterfaces.toNat ∧
      x.2 < (r.settings ps x.1).length % 256 := by
  obtain ⟨hindices, hbounds⟩ := Option.filter_eq_some_iff.1 h
  exact ⟨hindices, of_decide_eq_true hbounds⟩

theorem ownerIndices_of_owner {ps : List ℕ} {e q : ℕ} (h : r.owner ps e = some q) :
    r.ownerIndices ps e =
      some ((r.bInterfaceNumber q).toNat, (r.bAlternateSetting q).toNat) := by
  rw [ownerIndices, h, Option.map_some]

theorem settings_concat (ps : List ℕ) (p number : ℕ) :
    r.settings (ps ++ [p]) number = r.settings ps number ++
      if r.isInterface p ∧ (r.bInterfaceNumber p).toNat = number then [p] else [] := by
  unfold settings
  rw [List.filter_append, List.filter_singleton, Bool.cond_decide]

theorem owner_concat (h : ∀ q ∈ ps, q < p) {e : ℕ} (he : e ∈ ps ++ [p]) :
    r.owner (ps ++ [p]) e = r.owner ps e := by
  have hle : ¬ p < e := by
    rcases List.mem_append.1 he with he | he
    · exact Nat.not_lt.2 (h e he).le
    · rw [List.mem_singleton.1 he]
      exact Nat.lt_irrefl p
  unfold owner
  rw [List.filter_append, List.filter_singleton, Bool.cond_decide, if_neg fun hp => hle hp.2,
    List.append_nil]

/-- Behind some positions the owner is the last interface descriptor among them. -/
theorem owner_of_forall_lt (h : ∀ q ∈ ps, q < p) :
    r.owner ps p = (ps.filter r.isInterface).getLast? := by
  unfold owner
  congr 1
  refine List.filter_congr fun q hq => ?_
  simp only [h q hq, and_true, Bool.decide_eq_true]

theorem attached_concat (h : ∀ q ∈ ps, q < p) (number alt q : ℕ) :
    r.attached (ps ++ [p]) number alt q = r.attached ps number alt q ++
      if r.isEndpoint p ∧ q < p ∧ r.ownerIndices ps p = some (number, alt) then [p] else [] := by
  have hindices : ∀ e ∈ ps ++ [p], r.ownerIndices (ps ++ [p]) e = r.ownerIndices ps e := by
    intro e he
    unfold ownerIndices
    rw [owner_concat h he]
  unfold attached
  rw [List.filter_append, List.filter_singleton, Bool.cond_decide,
    hindices p (List.mem_append_right _ List.mem_cons_self)]
  congr 1
  refine List.filter_congr fun e he => ?_
  rw [hindices e (List.mem_append_left _ he)]

end RawConfiguration

/-- What the walk over a configuration has built from the descriptors at the positions that it
passed. The record at an index belongs to the interface descriptor that arrived in this place,
and holds the endpoints behind it whose owner has the index as its alternate setting. -/
structure Built (raw : RawConfiguration) (ps : List ℕ) (s : Probing) : Prop where
  raw_eq : s.tree.raw = raw
  interface : s.interface = (ps.filter raw.isInterface).getLast?
  length : s.tree.interfaces.length = raw.bNumInterfaces.toNat
  records : ∀ number < raw.bNumInterfaces.toNat,
    ((s.tree.interface number).altInterfaces.visible.map fun a => (a.descriptor, a.endpoints)) =
      (kept (raw.settings ps number)).zipIdx.map fun x =>
        (x.1, CountedArray.ofList (raw.attached ps number x.2 x.1))

namespace Built

variable {raw : RawConfiguration} {ps : List ℕ} {s : Probing} {p : ℕ}

theorem start (raw : RawConfiguration) : Built raw [] (Probing.start raw) where
  raw_eq := rfl
  interface := rfl
  length := List.length_replicate
  records := by
    intro number h
    have hempty : (Probing.start raw).tree.interface number = ⟨CountedArray.empty⟩ := by
      change (List.replicate _ _).getD number _ = _
      rw [List.getD_eq_getElem?_getD, List.getElem?_replicate, if_pos h]
      rfl
    have hnone : kept (raw.settings [] number) = [] := List.drop_nil
    rw [hempty, hnone]
    rfl

theorem descriptors (h : Built raw ps s) {number : ℕ}
    (hnumber : number < raw.bNumInterfaces.toNat) :
    (s.tree.interface number).altInterfaces.visible.map PAltInterface.descriptor =
      kept (raw.settings ps number) := by
  have hrecords := congrArg (List.map Prod.fst) (h.records number hnumber)
  rw [List.map_map, List.map_map] at hrecords
  exact hrecords.trans (List.zipIdx_map_fst 0 _)

theorem count (h : Built raw ps s) {number : ℕ} (hnumber : number < raw.bNumInterfaces.toNat) :
    (s.tree.interface number).altInterfaces.count.toNat =
      (raw.settings ps number).length % 256 := by
  have hlength := congrArg List.length (h.descriptors hnumber)
  rw [List.length_map, CountedArray.length_visible, length_kept] at hlength
  exact hlength

theorem getInterface (h : Built raw ps s) (hp : ∀ q ∈ ps, q < p) :
    s.tree.getInterface s.interface = raw.record ps p := by
  unfold RawConfiguration.record RawConfiguration.ownerIndices
  rw [h.interface, RawConfiguration.owner_of_forall_lt hp]
  cases (ps.filter raw.isInterface).getLast? with
  | none => rfl
  | some q =>
      unfold PConfiguration.getInterface
      rw [h.raw_eq, Option.map_some]
      by_cases hnumber : (raw.bInterfaceNumber q).toNat < raw.bNumInterfaces.toNat
      · dsimp only
        rw [if_neg (Nat.not_le.2 hnumber), h.count hnumber]
        by_cases halt : (raw.bAlternateSetting q).toNat <
            (raw.settings ps (raw.bInterfaceNumber q).toNat).length % 256
        · rw [if_neg (Nat.not_le.2 halt), Option.filter_some, if_pos]
          simp only [hnumber, halt, and_self, decide_true]
        · rw [if_pos (Nat.not_lt.1 halt), Option.filter_some, if_neg]
          simp only [halt, and_false, decide_false, Bool.false_eq_true, not_false_eq_true]
      · dsimp only
        rw [if_pos (Nat.not_lt.1 hnumber), Option.filter_some, if_neg]
        simp only [hnumber, false_and, decide_false, Bool.false_eq_true, not_false_eq_true]

theorem accepts_iff (h : Built raw ps s) (hp : ∀ q ∈ ps, q < p) :
    s.Accepts p ↔ raw.Accepted ps p := by
  unfold Probing.Accepts RawConfiguration.Accepted
  rw [h.raw_eq, h.getInterface hp]

/-- A descriptor that is no interface descriptor and no endpoint only changes the walk in what
a record does not show. -/
theorem skip (h : Built raw ps s) (hp : ∀ q ∈ ps, q < p) {s' : Probing}
    (hinterface : raw.isInterface p = false) (hendpoint : raw.isEndpoint p = false)
    (hraw : s'.tree.raw = s.tree.raw) (hpointer : s'.interface = s.interface)
    (hlength : s'.tree.interfaces.length = s.tree.interfaces.length)
    (hrecords : ∀ number < raw.bNumInterfaces.toNat,
      ((s'.tree.interface number).altInterfaces.visible.map
          fun a => (a.descriptor, a.endpoints)) =
        (s.tree.interface number).altInterfaces.visible.map
          fun a => (a.descriptor, a.endpoints)) :
    Built raw (ps ++ [p]) s' where
  raw_eq := hraw.trans h.raw_eq
  interface := by
    rw [hpointer, h.interface, List.filter_append, List.filter_singleton, hinterface,
      Bool.cond_false, List.append_nil]
  length := hlength.trans h.length
  records := by
    intro number hnumber
    rw [hrecords number hnumber, h.records number hnumber, RawConfiguration.settings_concat,
      hinterface, if_neg fun hp => Bool.false_ne_true hp.1, List.append_nil]
    refine List.map_congr_left fun x _ => ?_
    rw [RawConfiguration.attached_concat hp, hendpoint,
      if_neg fun hp => Bool.false_ne_true hp.1, List.append_nil]

theorem addAltInterface (h : Built raw ps s) (hp : ∀ q ∈ ps, q < p)
    (htype : raw.bDescriptorType p = libusbDtInterface)
    (hnumber : raw.bInterfaceNumber p < raw.bNumInterfaces) :
    Built raw (ps ++ [p]) ⟨s.tree.addAltInterface p, some p⟩ where
  raw_eq := h.raw_eq
  interface := by
    have hinterface : raw.isInterface p = true := decide_eq_true htype
    rw [List.filter_append, List.filter_singleton, hinterface, Bool.cond_true,
      List.getLast?_concat]
  length := (List.length_modify ..).trans h.length
  records := by
    intro number hlt
    have hinterface : raw.isInterface p = true := decide_eq_true htype
    have hendpoint : raw.isEndpoint p = false := by
      unfold RawConfiguration.isEndpoint
      rw [htype]
      decide
    have hattached : ∀ alt q, raw.attached (ps ++ [p]) number alt q =
        raw.attached ps number alt q := by
      intro alt q
      rw [RawConfiguration.attached_concat hp, hendpoint,
        if_neg fun hp => Bool.false_ne_true hp.1, List.append_nil]
    have hlength : (s.tree.raw.bInterfaceNumber p).toNat < s.tree.interfaces.length := by
      rw [h.length, h.raw_eq]
      exact hnumber
    have hrecords := h.records number hlt
    rw [PConfiguration.interface_addAltInterface hlength, RawConfiguration.settings_concat,
      hinterface, h.raw_eq]
    simp only [hattached]
    by_cases hsame : number = (raw.bInterfaceNumber p).toNat
    · have hcount := h.count hlt
      have hfull : (s.tree.interface number).altInterfaces.count = 255 ↔
          (raw.settings ps number).length % 256 = 255 := by
        rw [← UInt8.toNat_inj, hcount]
        rfl
      rw [if_pos hsame, if_pos ⟨trivial, hsame.symm⟩, kept_concat]
      dsimp only
      rw [CountedArray.visible_push]
      by_cases hwraps : (raw.settings ps number).length % 256 = 255
      · rw [if_pos (hfull.2 hwraps), if_pos hwraps]
        rfl
      · have hnone : ∀ alt, raw.attached ps number alt p = [] := by
          intro alt
          refine List.filter_eq_nil_iff.2 fun e he => ?_
          rw [decide_eq_true_eq]
          exact fun hlt => Nat.lt_asymm (hp e he) hlt.2.1
        rw [if_neg fun hf => hwraps (hfull.1 hf), if_neg hwraps, List.map_append, hrecords,
          List.zipIdx_append, List.map_append]
        refine congrArg (_ ++ ·) ?_
        rw [List.zipIdx_singleton, List.map_singleton, List.map_singleton, hnone]
        rfl
    · rw [if_neg hsame, if_neg fun hs => hsame hs.2.symm, List.append_nil]
      exact hrecords

theorem addEndpoint (h : Built raw ps s) (hp : ∀ q ∈ ps, q < p) {number alt : ℕ}
    (htype : raw.bDescriptorType p = libusbDtEndpoint)
    (hnumber : number < raw.bNumInterfaces.toNat)
    (hindices : raw.ownerIndices ps p = some (number, alt)) :
    Built raw (ps ++ [p]) { s with tree := s.tree.addEndpoint number alt p } where
  raw_eq := h.raw_eq
  interface := by
    have hinterface : raw.isInterface p = false := by
      unfold RawConfiguration.isInterface
      rw [htype]
      decide
    rw [List.filter_append, List.filter_singleton, hinterface, Bool.cond_false,
      List.append_nil]
    exact h.interface
  length := (List.length_modify ..).trans h.length
  records := by
    intro other hlt
    have hinterface : raw.isInterface p = false := by
      unfold RawConfiguration.isInterface
      rw [htype]
      decide
    have hendpoint : raw.isEndpoint p = true := decide_eq_true htype
    have hlength : number < s.tree.interfaces.length := by
      rw [h.length]
      exact hnumber
    have hrecords := h.records other hlt
    have hsettings : raw.settings (ps ++ [p]) other = raw.settings ps other := by
      rw [RawConfiguration.settings_concat, hinterface,
        if_neg fun hs => Bool.false_ne_true hs.1, List.append_nil]
    unfold PConfiguration.addEndpoint
    rw [PConfiguration.interface_modifyAltInterface hlength, hsettings]
    simp only [RawConfiguration.attached_concat hp, hendpoint, hindices, true_and]
    by_cases hsame : other = number
    · subst hsame
      rw [if_pos rfl]
      dsimp only
      rw [CountedArray.visible_modify,
        map_modify (fun y : ℕ × CountedArray ℕ => (y.1, y.2.push p)) fun _ => rfl, hrecords]
      refine modify_map_zipIdx fun x hx => ?_
      have hmem : x.1 ∈ ps := List.mem_of_mem_filter
        ((kept_sublist _).subset (List.fst_mem_of_mem_zipIdx hx))
      by_cases halt : x.2 = alt
      · rw [if_pos halt, if_pos ⟨hp _ hmem, by rw [halt]⟩, CountedArray.ofList_concat]
      · rw [if_neg halt, if_neg, List.append_nil]
        rintro ⟨-, heq⟩
        exact halt (congrArg Prod.snd (Option.some.inj heq)).symm
    · rw [if_neg hsame, hrecords]
      refine List.map_congr_left fun x _ => ?_
      rw [if_neg, List.append_nil]
      rintro ⟨-, heq⟩
      exact hsame (congrArg Prod.fst (Option.some.inj heq)).symm

theorem setHid (h : Built raw ps s) (hp : ∀ q ∈ ps, q < p) {number : ℕ} (alt : ℕ)
    (hinterface : raw.isInterface p = false) (hendpoint : raw.isEndpoint p = false)
    (hnumber : number < raw.bNumInterfaces.toNat) :
    Built raw (ps ++ [p]) { s with tree := s.tree.setHid number alt p } := by
  have hlength : number < s.tree.interfaces.length := by
    rw [h.length]
    exact hnumber
  refine h.skip hp hinterface hendpoint rfl rfl (List.length_modify ..) fun other _ => ?_
  unfold PConfiguration.setHid
  rw [PConfiguration.interface_modifyAltInterface hlength]
  split
  · dsimp only
    rw [CountedArray.visible_modify]
    refine (map_modify id ?_ _ _).trans (List.modify_id _ _)
    exact fun _ => rfl
  · rfl

theorem handle (h : Built raw ps s) (hp : ∀ q ∈ ps, q < p) (haccepts : s.Accepts p) :
    Built raw (ps ++ [p]) (s.handle p) := by
  have hraw := h.raw_eq
  have hrecord := h.getInterface hp
  unfold Probing.Accepts at haccepts
  unfold Probing.handle
  rw [hraw] at haccepts ⊢
  by_cases htype : raw.bDescriptorType p = libusbDtInterface
  · rw [if_pos htype] at haccepts ⊢
    exact h.addAltInterface hp htype haccepts
  · have hinterface : raw.isInterface p = false := decide_eq_false htype
    rw [if_neg htype] at haccepts ⊢
    cases hget : s.tree.getInterface s.interface with
    | none =>
        have hother : ¬ (raw.bDescriptorType p = libusbDtEndpoint ∨
            raw.bDescriptorType p = libusbDtHid) := by
          intro hor
          rw [if_pos hor] at haccepts
          exact haccepts hget
        have hendpoint : raw.isEndpoint p = false := decide_eq_false fun he => hother (Or.inl he)
        exact h.skip hp hinterface hendpoint rfl rfl rfl fun _ _ => rfl
    | some record =>
        obtain ⟨number, alt⟩ := record
        rw [hget] at hrecord
        obtain ⟨hindices, hnumber, -⟩ := RawConfiguration.record_eq_some hrecord.symm
        dsimp only
        by_cases hend : raw.bDescriptorType p = libusbDtEndpoint
        · rw [if_pos hend]
          exact h.addEndpoint hp hend hnumber hindices
        · have hendpoint : raw.isEndpoint p = false := decide_eq_false hend
          rw [if_neg hend]
          split
          · exact h.setHid hp alt hinterface hendpoint hnumber
          · exact h.skip hp hinterface hendpoint rfl rfl rfl fun _ _ => rfl

/-- The walk from the positions `before` on: descriptors are refused as their bytes say. -/
theorem acceptsAll_iff {before : List ℕ} (h : Built raw before s)
    (hps : (before ++ ps).Pairwise (· < ·)) :
    s.AcceptsAll ps ↔ ∀ b p a, ps = b ++ p :: a → raw.Accepted (before ++ b) p := by
  induction ps generalizing before s with
  | nil => exact ⟨fun _ => forall_split_nil, fun _ => trivial⟩
  | cons p ps ih =>
      have hp : ∀ q ∈ before, q < p := fun q hq =>
        (List.pairwise_append.1 hps).2.2 q hq p List.mem_cons_self
      have hps' : ((before ++ [p]) ++ ps).Pairwise (· < ·) := by
        rwa [List.append_assoc]
      rw [forall_split_cons, List.append_nil, ← h.accepts_iff hp]
      refine and_congr_right fun haccepts => ?_
      have hrest := ih (h.handle hp haccepts) hps'
      simp only [List.append_assoc, List.singleton_append] at hrest
      exact hrest

theorem handleAll {before : List ℕ} (h : Built raw before s)
    (hps : (before ++ ps).Pairwise (· < ·)) (haccepts : s.AcceptsAll ps) :
    Built raw (before ++ ps) (s.handleAll ps) := by
  induction ps generalizing before s with
  | nil => rwa [List.append_nil]
  | cons p ps ih =>
      have hp : ∀ q ∈ before, q < p := fun q hq =>
        (List.pairwise_append.1 hps).2.2 q hq p List.mem_cons_self
      have hps' : ((before ++ [p]) ++ ps).Pairwise (· < ·) := by
        rwa [List.append_assoc]
      have hbuilt := ih (h.handle hp haccepts.1) hps' haccepts.2
      rwa [List.append_assoc] at hbuilt

end Built

theorem RawConfiguration.acceptsAll_start_iff {raw : RawConfiguration} {ps : List ℕ}
    (hps : ps.Pairwise (· < ·)) : (Probing.start raw).AcceptsAll ps ↔ raw.AllAccepted ps :=
  (Built.start raw).acceptsAll_iff hps

theorem Built.of_start {raw : RawConfiguration} {ps : List ℕ} (hps : ps.Pairwise (· < ·))
    (h : raw.AllAccepted ps) : Built raw ps ((Probing.start raw).handleAll ps) :=
  (Built.start raw).handleAll hps ((RawConfiguration.acceptsAll_start_iff hps).2 h)

end SerialUsb
