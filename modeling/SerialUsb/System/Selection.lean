import SerialUsb.Gusb.Paths
import SerialUsb.System.Opening

/-!
# The choice of the device

`gusb_enumerate` collects the devices in an array whose elements say whether another one follows,
`usb_select` shows it and takes a number, and `gusb_open_path` opens by the path of the element.
The walks over the array stop at its last element, each path is freed once, and only a device at
the place of the chosen one is opened.
-/

namespace SerialUsb

structure ListedDevice extends Place where
  ids : Option (UInt16 × UInt16)

/-- `s_usb_dev`; `owner` is the number of the allocation that `path` points to. -/
structure UsbDev where
  path : Path
  owner : ℕ
  vendorId : UInt16
  productId : UInt16
  next : Bool
  deriving DecidableEq

/-- The loop of `gusb_enumerate`: the buffer of `make_path`, `usb_devs`, and how many paths were
allocated, with those that were freed. -/
structure Enumeration where
  str : Vector Char pathSize
  usbDevs : List UsbDev
  allocated : ℕ
  freed : List ℕ

structure EnumeratedDevice where
  device : ListedDevice
  strdup : Bool
  realloc : Bool

def skipsIds (vendor product : UInt16) (ids : UInt16 × UInt16) : Bool :=
  vendor ≠ 0 ∧ (ids.1 ≠ vendor ∨ product ≠ 0 ∧ ids.2 ≠ product)

/-- The array with another element, of which the one before it tells. -/
def appendDev (usbDevs : List UsbDev) (d : UsbDev) : List UsbDev :=
  (usbDevs.modify (usbDevs.length - 1) fun e => { e with next := true }) ++ [d]

def Enumeration.addPath (s : Enumeration) (path : Path) (ids : UInt16 × UInt16)
    (strdup realloc : Bool) : Enumeration :=
  if strdup then
    let owner := s.allocated
    let s := { s with allocated := s.allocated + 1 }
    if realloc then { s with usbDevs := appendDev s.usbDevs ⟨path, owner, ids.1, ids.2, false⟩ }
    else { s with freed := s.freed ++ [owner] }
  else s

def enumerateDevice (vendor product : UInt16) (s : Enumeration) (x : EnumeratedDevice) :
    Enumeration :=
  match x.device.ids with
  | none => s
  | some ids =>
      if skipsIds vendor product ids then s
      else
        match makePath s.str x.device.toPlace with
        | (str, none) => { s with str := str }
        | (str, some path) => Enumeration.addPath { s with str := str } path ids x.strdup x.realloc

/-- `gusb_enumerate`, where the empty list stands for NULL. -/
def gusbEnumerate (vendor product : UInt16) (str : Vector Char pathSize)
    (devs : List EnumeratedDevice) : Enumeration :=
  devs.foldl (enumerateDevice vendor product) ⟨str, [], 0, []⟩

/-- The elements that the loops of `usb_select` and `gusb_free_enumeration` come to; `none` is a
loop that goes on behind the end of the array. -/
def walkEnumeration : List UsbDev → Option (List UsbDev)
  | [] => none
  | d :: ds => if d.next then (walkEnumeration ds).map (d :: ·) else some [d]

/-- `gusb_free_enumeration`: the paths that it frees. -/
def gusbFreeEnumeration : List UsbDev → Option (List ℕ)
  | [] => some []
  | d :: ds => (walkEnumeration (d :: ds)).map (List.map UsbDev.owner)

/-- `usb_select` behind `gusb_enumerate`, with the paths that it frees; `choice` is the number
that `scanf` reads, and `strdup` what the copy of the path comes to. -/
def usbSelect (usbDevs : List UsbDev) (choice : Option ℤ) (strdup : Bool) :
    Option (Option Path × List ℕ) :=
  match usbDevs with
  | [] => some (none, [])
  | d :: ds =>
      (walkEnumeration (d :: ds)).bind fun shown =>
        let index := shown.length
        let path :=
          match choice with
          | none => none
          | some choice =>
              let choice := (choice % 2 ^ 32).toNat
              if choice < index ∧ strdup = true then (d :: ds)[choice]?.map UsbDev.path else none
        (gusbFreeEnumeration (d :: ds)).map fun freed => (path, freed)

/-- A device of the list of `gusb_open_path`, and what the calls for it come to; `str` is what
`make_path` finds in its buffer. -/
structure OpenedDevice where
  device : ListedDevice
  str : Vector Char pathSize
  strdup : Bool
  claim : ClaimOutcome

def OpenedDevice.candidate (y : OpenedDevice) : Candidate :=
  ⟨(makePath y.str y.device.toPlace).2, y.device.ids, y.strdup, y.claim⟩

def EnumeratedDevice.path? (vendor product : UInt16) (x : EnumeratedDevice) : Option Path :=
  match x.device.ids, x.device.ports with
  | some ids, some ports =>
      if ¬ skipsIds vendor product ids ∧ x.strdup ∧ x.realloc then
        some (pathOf (x.device.bus :: ports))
      else none
  | _, _ => none

def Linked (ds : List UsbDev) : Prop :=
  ∀ i, (hi : i < ds.length) → ds[i].next = decide (i + 1 < ds.length)

theorem Linked.tail {d : UsbDev} {ds : List UsbDev} (h : Linked (d :: ds)) : Linked ds := by
  intro i hi
  have hnext := h (i + 1) (Nat.succ_lt_succ hi)
  simpa using hnext

theorem walkEnumeration_of_linked {ds : List UsbDev} (hne : ds ≠ []) (h : Linked ds) :
    walkEnumeration ds = some ds := by
  induction ds with
  | nil => exact absurd rfl hne
  | cons d ds ih =>
      have hnext := h 0 (Nat.succ_pos _)
      rw [walkEnumeration]
      cases ds with
      | nil =>
          rw [if_neg]
          simpa using hnext
      | cons e ds =>
          rw [if_pos (by simpa using hnext), ih (List.cons_ne_nil _ _) h.tail, Option.map_some]

theorem map_modify_next {α : Type*} (g : UsbDev → α) (ds : List UsbDev) (i : ℕ)
    (hg : ∀ d : UsbDev, g { d with next := true } = g d) :
    (ds.modify i fun d => { d with next := true }).map g = ds.map g := by
  refine List.ext_getElem (by simp) fun j hj _ => ?_
  rw [List.getElem_map, List.getElem_map, List.getElem_modify]
  split
  · exact hg _
  · rfl

theorem Linked.appendDev {ds : List UsbDev} (h : Linked ds) {d : UsbDev} (hd : d.next = false) :
    Linked (appendDev ds d) := by
  intro i hi
  have hlength : (SerialUsb.appendDev ds d).length = ds.length + 1 := by simp [SerialUsb.appendDev]
  rw [hlength] at hi
  simp only [hlength]
  by_cases hlast : i < ds.length
  · have hget : (SerialUsb.appendDev ds d)[i] =
        if ds.length - 1 = i then { ds[i] with next := true } else ds[i] := by
      simp [SerialUsb.appendDev, hlast, List.getElem_modify]
    rw [hget]
    split
    · simp [hlast]
    · rw [h i hlast]
      simp
      omega
  · have hi' : i = ds.length := by omega
    subst hi'
    simp [SerialUsb.appendDev, hd]

structure Enumeration.Inv (paths : List Path) (s : Enumeration) : Prop where
  paths : s.usbDevs.map UsbDev.path = paths
  linked : Linked s.usbDevs
  owners : (s.freed ++ s.usbDevs.map UsbDev.owner).Perm (List.range s.allocated)

section Enumerate

variable {vendor product : UInt16} {s : Enumeration} {paths : List Path}

theorem Enumeration.Inv.setStr (h : s.Inv paths) (str : Vector Char pathSize) :
    Enumeration.Inv paths { s with str := str } :=
  ⟨h.paths, h.linked, h.owners⟩

theorem Enumeration.Inv.addPath (h : s.Inv paths) (path : Path) (ids : UInt16 × UInt16)
    (strdup realloc : Bool) :
    (s.addPath path ids strdup realloc).Inv
      (paths ++ if strdup = true ∧ realloc = true then [path] else []) := by
  cases strdup with
  | false => simpa [Enumeration.addPath] using h
  | true =>
      cases realloc with
      | true =>
          constructor
          case paths =>
            simp [Enumeration.addPath, appendDev, map_modify_next UsbDev.path, h.paths]
          case linked => exact h.linked.appendDev rfl
          case owners =>
            simp only [Enumeration.addPath, appendDev, List.map_append, if_true]
            rw [map_modify_next UsbDev.owner _ _ fun _ => rfl, List.range_succ, ← List.append_assoc]
            exact h.owners.append_right _
      | false =>
          constructor
          case paths => simpa [Enumeration.addPath] using h.paths
          case linked => exact h.linked
          case owners =>
            change ((s.freed ++ [s.allocated]) ++ s.usbDevs.map UsbDev.owner).Perm
              (List.range (s.allocated + 1))
            rw [List.range_succ, List.append_assoc]
            refine List.Perm.trans ?_ (h.owners.append_right [s.allocated])
            rw [List.append_assoc]
            exact List.perm_append_comm.append_left s.freed

theorem Enumeration.Inv.device (h : s.Inv paths) (x : EnumeratedDevice) :
    (enumerateDevice vendor product s x).Inv (paths ++ (x.path? vendor product).toList) := by
  have hkept : paths ++ (none : Option Path).toList = paths := List.append_nil _
  have hsnd := makePath_snd s.str x.device.toPlace
  unfold enumerateDevice EnumeratedDevice.path?
  cases x.device.ids with
  | none =>
      rw [hkept]
      exact h
  | some ids =>
      rcases hmake : makePath s.str x.device.toPlace with ⟨str, spath⟩
      rw [hmake] at hsnd
      obtain rfl : spath = _ := hsnd
      dsimp only
      cases x.device.ports with
      | none =>
          rw [hkept]
          split
          · exact h
          · exact h.setStr str
      | some ports =>
          dsimp only [Option.map_some]
          by_cases hskips : skipsIds vendor product ids = true
          · rw [if_pos hskips, if_neg fun hlisted => hlisted.1 hskips, hkept]
            exact h
          · rw [if_neg hskips]
            have hadd := (h.setStr str).addPath (pathOf (x.device.bus :: ports)) ids x.strdup
              x.realloc
            by_cases hroom : x.strdup = true ∧ x.realloc = true
            · rw [if_pos ⟨hskips, hroom⟩]
              rwa [if_pos hroom] at hadd
            · rw [if_neg fun hlisted => hroom hlisted.2]
              rwa [if_neg hroom] at hadd

/-- What `gusb_enumerate` returns: the paths of the devices that it lists, in their order. -/
theorem Enumeration.inv_gusbEnumerate (vendor product : UInt16) (str : Vector Char pathSize)
    (devs : List EnumeratedDevice) :
    (gusbEnumerate vendor product str devs).Inv
      (devs.filterMap (EnumeratedDevice.path? vendor product)) := by
  have hloop : ∀ (devs : List EnumeratedDevice) {s : Enumeration} {paths : List Path},
      s.Inv paths → (devs.foldl (enumerateDevice vendor product) s).Inv
        (paths ++ devs.filterMap (EnumeratedDevice.path? vendor product)) := by
    intro devs
    induction devs with
    | nil =>
        intro s paths h
        rw [List.filterMap_nil, List.append_nil]
        exact h
    | cons x devs ih =>
        intro s paths h
        have hdevice : (enumerateDevice vendor product s x).Inv
            (paths ++ (x.path? vendor product).toList) := h.device x
        have hrest := ih hdevice
        rw [List.append_assoc] at hrest
        rw [List.foldl_cons, List.filterMap_cons]
        cases hx : x.path? vendor product with
        | none => simpa [hx] using hrest
        | some path => simpa [hx] using hrest
  have hstart : Enumeration.Inv [] ⟨str, [], 0, []⟩ :=
    ⟨rfl, fun i hi => absurd hi (Nat.not_lt_zero i), List.Perm.refl _⟩
  exact hloop devs hstart

end Enumerate

/-- `usb_select` shows and frees the whole array, and the number picks one of its paths. -/
theorem usbSelect_of_linked {ds : List UsbDev} (h : Linked ds) (choice : Option ℤ)
    (strdup : Bool) :
    usbSelect ds choice strdup =
      some (if strdup then
          choice.bind fun k => (ds.map UsbDev.path)[(k % 2 ^ 32).toNat]?
        else none, ds.map UsbDev.owner) := by
  cases ds with
  | nil =>
      cases choice <;> simp [usbSelect]
  | cons d ds =>
      have hwalk := walkEnumeration_of_linked (List.cons_ne_nil d ds) h
      simp only [usbSelect, gusbFreeEnumeration, hwalk, Option.bind_some, Option.map_some]
      congr 2
      cases choice with
      | none => simp
      | some k =>
          dsimp only
          rw [Option.bind_some, List.getElem?_map]
          by_cases hlt : (k % 2 ^ 32).toNat < (d :: ds).length
          · cases strdup with
            | true => rw [if_pos ⟨hlt, rfl⟩, if_pos rfl]
            | false => rw [if_neg fun hcopied => absurd hcopied.2 (by simp), if_neg (by simp)]
          · rw [if_neg fun hshown => hlt hshown.1,
              List.getElem?_eq_none (Nat.not_lt.1 hlt), Option.map_none, ite_self]

/-- The devices that are not accepted play no part when one is opened. -/
theorem openLoop_filter {wait : UsbTable → UsbTable} {accepts : Candidate → Option Path}
    {α : Type*} (f : α → Candidate) {P : α → Prop} [DecidablePred P]
    (h : ∀ x, ¬ P x → accepts (f x) = none) (t : UsbTable) (xs : List α) :
    UsbTable.openLoop wait accepts t (xs.map f) =
      UsbTable.openLoop wait accepts t ((xs.filter fun x => P x).map f) := by
  induction xs generalizing t with
  | nil => rfl
  | cons x xs ih =>
      by_cases hx : P x
      · rw [List.filter_cons_of_pos (by simpa using hx), List.map_cons, List.map_cons,
          UsbTable.openLoop, UsbTable.openLoop]
        cases accepts (f x) with
        | none => exact ih t
        | some path =>
            dsimp only
            cases t.addDevice path (f x).strdup with
            | mk t' slot =>
                cases slot with
                | none => exact ih t'
                | some i =>
                    dsimp only
                    cases t'.claimDevice i (f x).claim with
                    | none => rfl
                    | some r =>
                        dsimp only
                        split
                        · rfl
                        · rw [ih]
      · rw [List.filter_cons_of_neg (by simpa using hx), List.map_cons, UsbTable.openLoop, h x hx]
        exact ih t

/-- The choice of a device, for every list of devices and every outcome of the allocations:

* the loops of `usb_select` and `gusb_free_enumeration` do not go on behind the end of the array,
  and every path that was allocated is freed once;
* the number, which counts modulo `2 ^ 32`, picks the path of the device that was listed at this
  position, and one that is no position picks none;
* and `gusb_open_path` with the path of a device does what it does without the devices at other
  ports or on other buses. -/
theorem selection_opens (str : Vector Char pathSize) (devs : List EnumeratedDevice)
    (choice : Option ℤ) (strdup : Bool) :
    ∃ path freed, usbSelect (gusbEnumerate 0 0 str devs).usbDevs choice strdup =
        some (path, freed) ∧
      ((gusbEnumerate 0 0 str devs).freed ++ freed).Perm
        (List.range (gusbEnumerate 0 0 str devs).allocated) ∧
      path = (if strdup then choice.bind fun k =>
          (devs.filterMap (EnumeratedDevice.path? 0 0))[(k % 2 ^ 32).toNat]?
        else none) ∧
      ∀ x ∈ devs, ∀ chosen, path = some chosen → x.path? 0 0 = some chosen →
        ∀ (wait : UsbTable → UsbTable) (t : UsbTable) (ys : List OpenedDevice),
          t.gusbOpenPath wait (some chosen) (some (ys.map OpenedDevice.candidate)) =
            t.gusbOpenPath wait (some chosen) (some ((ys.filter fun y =>
              y.device.bus = x.device.bus ∧ y.device.ports = x.device.ports).map
                OpenedDevice.candidate)) := by
  have hinv := Enumeration.inv_gusbEnumerate 0 0 str devs
  refine ⟨_, _, usbSelect_of_linked hinv.linked choice strdup, hinv.owners, ?_, ?_⟩
  · rw [hinv.paths]
  · intro x _ chosen _ hx wait t ys
    refine openLoop_filter OpenedDevice.candidate (fun y hy => ?_) t ys
    refine if_neg fun hsame => hy ?_
    have hplace : (makePath str x.device.toPlace).2 = some chosen := by
      rw [makePath_snd]
      unfold EnumeratedDevice.path? at hx
      split at hx
      next ids ports _ hports =>
        rw [hports]
        exact (Option.ite_none_right_eq_some.1 hx).2
      next => exact absurd hx (by simp)
    exact makePath_injective hsame.1 hplace

end SerialUsb
