import SerialUsb.Memory.Copy
import SerialUsb.Memory.CountedArray
import SerialUsb.Proxy.Descriptors

/-!
# The descriptor tree

The structures that `probe_configurations` builds over the bytes of a configuration. A pointer
to a descriptor is the position of the descriptor behind `raw`, and the counts of alternate
settings and endpoints are the bytes they are in `gusb.h`.
-/

namespace SerialUsb

open Memory

/-- The memory from `raw` on: the bytes of a configuration, and whatever lies behind. -/
structure RawConfiguration where
  byte : ℕ → UInt8

def RawConfiguration.ofBytes (bytes : List UInt8) : RawConfiguration := ⟨fun p => bytes.getD p 0⟩

namespace RawConfiguration

variable (r : RawConfiguration)

def word (p : ℕ) : UInt16 := ofLe16 (r.byte p) (r.byte (p + 1))

def bLength : ℕ := (r.byte 0).toNat
def wTotalLength : UInt16 := r.word 2
def bNumInterfaces : UInt8 := r.byte 4
def iConfiguration : UInt8 := r.byte 6

def descriptorLength (p : ℕ) : ℕ := (r.byte p).toNat
def bDescriptorType (p : ℕ) : UInt8 := r.byte (p + 1)

def bInterfaceNumber (p : ℕ) : UInt8 := r.byte (p + 2)
def bAlternateSetting (p : ℕ) : UInt8 := r.byte (p + 3)
def bInterfaceClass (p : ℕ) : UInt8 := r.byte (p + 5)
def iInterface (p : ℕ) : UInt8 := r.byte (p + 8)

def endpoint (p : ℕ) : EndpointDescriptor := ⟨r.byte (p + 2), r.byte (p + 3), r.word (p + 4)⟩

/-- The fields of `struct usb_hid_descriptor`. The structure of an element of `rdesc` is not
packed: its length stands two bytes behind its type, and it has four bytes. -/
def bNumDescriptors (p : ℕ) : UInt8 := r.byte (p + 5)
def bReportDescriptorType (p i : ℕ) : UInt8 := r.byte (p + 6 + 4 * i)
def wReportDescriptorLength (p i : ℕ) : UInt16 := r.word (p + 8 + 4 * i)

end RawConfiguration

abbrev libusbDtInterface : UInt8 := 0x04
abbrev libusbDtEndpoint : UInt8 := 0x05
abbrev libusbDtHid : UInt8 := 0x21

abbrev libusbClassHid : UInt8 := 0x03

/-- `struct p_altInterface`; `endpoints` has the count `bNumEndpoints`. -/
structure PAltInterface where
  descriptor : ℕ
  hidDescriptor : Option ℕ
  endpoints : CountedArray ℕ

structure PInterface where
  altInterfaces : CountedArray PAltInterface

structure PConfiguration where
  raw : RawConfiguration
  interfaces : List PInterface

def PAltInterface.start (p : ℕ) : PAltInterface := ⟨p, none, CountedArray.empty⟩

namespace PConfiguration

def start (raw : RawConfiguration) : PConfiguration :=
  ⟨raw, List.replicate raw.bNumInterfaces.toNat ⟨CountedArray.empty⟩⟩

def interface (c : PConfiguration) (number : ℕ) : PInterface :=
  c.interfaces.getD number ⟨CountedArray.empty⟩

def addAltInterface (c : PConfiguration) (p : ℕ) : PConfiguration :=
  { c with interfaces := c.interfaces.modify (c.raw.bInterfaceNumber p).toNat fun i =>
      ⟨i.altInterfaces.push (PAltInterface.start p)⟩ }

def modifyAltInterface (c : PConfiguration) (number alt : ℕ)
    (f : PAltInterface → PAltInterface) : PConfiguration :=
  { c with interfaces := c.interfaces.modify number fun i => ⟨i.altInterfaces.modify alt f⟩ }

/-- `get_interface`: the indices of the record, for the interface descriptor at the pointer. -/
def getInterface (c : PConfiguration) : Option ℕ → Option (ℕ × ℕ)
  | none => none
  | some p =>
      let number := (c.raw.bInterfaceNumber p).toNat
      let alt := (c.raw.bAlternateSetting p).toNat
      if c.raw.bNumInterfaces.toNat ≤ number then none
      else if (c.interface number).altInterfaces.count.toNat ≤ alt then none
      else some (number, alt)

def descriptorAt (c : PConfiguration) (number alt : ℕ) : ℕ :=
  ((c.interface number).altInterfaces.elements.getD alt (PAltInterface.start 0)).descriptor

def addEndpoint (c : PConfiguration) (number alt p : ℕ) : PConfiguration :=
  c.modifyAltInterface number alt fun a => { a with endpoints := a.endpoints.push p }

def setHid (c : PConfiguration) (number alt p : ℕ) : PConfiguration :=
  c.modifyAltInterface number alt fun a => { a with hidDescriptor := some p }

theorem interface_modify {c : PConfiguration} {number : ℕ} (h : number < c.interfaces.length)
    (f : PInterface → PInterface) (other : ℕ) :
    PConfiguration.interface { c with interfaces := c.interfaces.modify number f } other =
      if other = number then f (c.interface number) else c.interface other := by
  unfold interface
  rw [List.getD_eq_getElem?_getD, List.getD_eq_getElem?_getD, List.getD_eq_getElem?_getD]
  by_cases hother : other = number
  · subst hother
    rw [if_pos rfl, List.getElem?_modify_eq, List.getElem?_eq_getElem h]
    rfl
  · rw [if_neg hother]
    exact congrArg (Option.getD · _) (List.getElem?_modify_ne f _ (Ne.symm hother))

theorem interface_addAltInterface {c : PConfiguration} {p : ℕ}
    (h : (c.raw.bInterfaceNumber p).toNat < c.interfaces.length) (other : ℕ) :
    (c.addAltInterface p).interface other =
      if other = (c.raw.bInterfaceNumber p).toNat then
        ⟨(c.interface other).altInterfaces.push (PAltInterface.start p)⟩
      else c.interface other := by
  rw [addAltInterface, interface_modify h]
  split
  next heq => rw [heq]
  next => rfl

theorem interface_modifyAltInterface {c : PConfiguration} {number : ℕ}
    (h : number < c.interfaces.length) (alt : ℕ) (f : PAltInterface → PAltInterface)
    (other : ℕ) :
    (c.modifyAltInterface number alt f).interface other =
      if other = number then ⟨(c.interface other).altInterfaces.modify alt f⟩
      else c.interface other := by
  rw [modifyAltInterface, interface_modify h]
  split
  next heq => rw [heq]
  next => rfl

theorem getInterface_modifyAltInterface (c : PConfiguration) (number alt : ℕ)
    (f : PAltInterface → PAltInterface) (interface : Option ℕ) :
    (c.modifyAltInterface number alt f).getInterface interface = c.getInterface interface := by
  have hcount : ∀ other, ((c.modifyAltInterface number alt f).interface other).altInterfaces.count =
      (c.interface other).altInterfaces.count := by
    intro other
    by_cases h : number < c.interfaces.length
    · rw [interface_modifyAltInterface h]
      split <;> rfl
    · have hsame : c.modifyAltInterface number alt f = c := by
        unfold modifyAltInterface
        rw [List.modify_eq_self (Nat.not_lt.1 h)]
      rw [hsame]
  unfold getInterface
  cases interface with
  | none => rfl
  | some q =>
      dsimp only
      rw [hcount]
      rfl

theorem descriptorAt_modifyAltInterface (c : PConfiguration) (number alt : ℕ)
    {f : PAltInterface → PAltInterface} (hf : ∀ a, (f a).descriptor = a.descriptor)
    (other place : ℕ) :
    (c.modifyAltInterface number alt f).descriptorAt other place = c.descriptorAt other place := by
  have hmap : ∀ l : List PAltInterface,
      ((l.modify alt f).getD place (PAltInterface.start 0)).descriptor =
        (l.getD place (PAltInterface.start 0)).descriptor := by
    intro l
    rw [List.getD_eq_getElem?_getD, List.getD_eq_getElem?_getD, List.getElem?_modify]
    cases l[place]? with
    | none => rfl
    | some a =>
        by_cases hplace : alt = place
        · simp only [hplace, if_true]
          exact hf a
        · simp only [hplace, if_false]
          rfl
  unfold descriptorAt
  by_cases h : number < c.interfaces.length
  · rw [interface_modifyAltInterface h]
    split
    · exact hmap _
    · rfl
  · have hsame : c.modifyAltInterface number alt f = c := by
      unfold modifyAltInterface
      rw [List.modify_eq_self (Nat.not_lt.1 h)]
    rw [hsame]

end PConfiguration

/-- Where `probe_configurations` is in a configuration: the tree so far, and its local
`interface`. -/
structure Probing where
  tree : PConfiguration
  interface : Option ℕ

namespace Probing

def start (raw : RawConfiguration) : Probing := ⟨PConfiguration.start raw, none⟩

/-- The descriptor at a position is not refused for what is in it. -/
def Accepts (s : Probing) (p : ℕ) : Prop :=
  if s.tree.raw.bDescriptorType p = libusbDtInterface then
    s.tree.raw.bInterfaceNumber p < s.tree.raw.bNumInterfaces
  else if s.tree.raw.bDescriptorType p = libusbDtEndpoint ∨
      s.tree.raw.bDescriptorType p = libusbDtHid then
    s.tree.getInterface s.interface ≠ none
  else True

instance (s : Probing) (p : ℕ) : Decidable (s.Accepts p) := by
  unfold Accepts
  infer_instance

def handle (s : Probing) (p : ℕ) : Probing :=
  if s.tree.raw.bDescriptorType p = libusbDtInterface then
    ⟨s.tree.addAltInterface p, some p⟩
  else
    match s.tree.getInterface s.interface with
    | none => s
    | some (number, alt) =>
        if s.tree.raw.bDescriptorType p = libusbDtEndpoint then
          { s with tree := s.tree.addEndpoint number alt p }
        else if s.tree.raw.bDescriptorType p = libusbDtHid ∧
            s.tree.raw.bInterfaceClass (s.tree.descriptorAt number alt) = libusbClassHid then
          { s with tree := s.tree.setHid number alt p }
        else s

def handleAll (s : Probing) (ps : List ℕ) : Probing := ps.foldl handle s

def AcceptsAll (s : Probing) : List ℕ → Prop
  | [] => True
  | p :: ps => s.Accepts p ∧ (s.handle p).AcceptsAll ps

theorem handle_raw (s : Probing) (p : ℕ) : (s.handle p).tree.raw = s.tree.raw := by
  unfold handle
  split
  · rfl
  · split
    · rfl
    · split
      · rfl
      · split <;> rfl

theorem handle_of_not_interface {s : Probing} {p : ℕ}
    (h : s.tree.raw.bDescriptorType p ≠ libusbDtInterface) :
    (s.handle p).interface = s.interface ∧
      (∀ q, (s.handle p).tree.getInterface q = s.tree.getInterface q) ∧
      ∀ number alt, (s.handle p).tree.descriptorAt number alt =
        s.tree.descriptorAt number alt := by
  unfold handle
  rw [if_neg h]
  split
  · exact ⟨rfl, fun _ => rfl, fun _ _ => rfl⟩
  next number alt _ =>
    split
    · exact ⟨rfl, s.tree.getInterface_modifyAltInterface number alt _,
        s.tree.descriptorAt_modifyAltInterface number alt fun _ => rfl⟩
    · split
      · exact ⟨rfl, s.tree.getInterface_modifyAltInterface number alt _,
          s.tree.descriptorAt_modifyAltInterface number alt fun _ => rfl⟩
      · exact ⟨rfl, fun _ => rfl, fun _ _ => rfl⟩

theorem accepts_handle {s : Probing} {p : ℕ} (h : s.Accepts p) : (s.handle p).Accepts p := by
  unfold Accepts at h ⊢
  rw [handle_raw]
  by_cases hinterface : s.tree.raw.bDescriptorType p = libusbDtInterface
  · rwa [if_pos hinterface] at h ⊢
  · obtain ⟨hpointer, hget, -⟩ := handle_of_not_interface hinterface
    rw [if_neg hinterface] at h ⊢
    rwa [hpointer, hget]

end Probing

end SerialUsb
