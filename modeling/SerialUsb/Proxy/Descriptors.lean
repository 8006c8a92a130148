import SerialUsb.Proxy.Spec

/-!
# The descriptors of the proxy

`add_descriptor` appends a descriptor to the blob `desc` and an entry to
`descIndex`, or refuses both. `send_descriptors` adds everything that was
collected from the device and sends the blob; it sends nothing when one
descriptor is refused.
-/

namespace SerialUsb

open Framing Memory

structure Descriptor where
  wValue : UInt16
  wIndex : UInt16
  wLength : UInt16
  data : List UInt8
  length_data : data.length = wLength.toNat
  deriving DecidableEq

/-- What the proxy reads of `struct usb_endpoint_descriptor`. -/
structure EndpointDescriptor where
  bEndpointAddress : UInt8
  bmAttributes : UInt8
  wMaxPacketSize : UInt16
  deriving DecidableEq, Repr

structure AltInterface where
  endpoints : List EndpointDescriptor
  deriving DecidableEq, Repr

structure Interface where
  altInterfaces : List AltInterface
  deriving DecidableEq, Repr

/-- `struct p_configuration`: the bytes of the configuration, as many as its
descriptor says, and what was parsed from them. -/
structure Configuration where
  wTotalLength : UInt16
  raw : List UInt8
  interfaces : List Interface
  length_raw : raw.length = wTotalLength.toNat
  deriving DecidableEq

/-- `s_usb_descriptors`; `device` and `langId0` are the bytes of their structures. -/
structure UsbDescriptors where
  device : Vector UInt8 18
  configurations : List Configuration
  langId0 : Vector UInt8 4
  others : List Descriptor

/-- The statics of `proxy.c` when `send_descriptors` is called: `fix_endpoints`
has filled the endpoint tables, and no transfer has been submitted. -/
def Proxy.start (endpoints : List EndpointConfig) (serialToUsb usbToSerial : EndpointTable)
    (usb : Usb) : Proxy where
  desc := []
  descIndex := []
  endpoints := endpoints
  descIndexSent := false
  endpointsSent := false
  initTimer := -1
  inPending := 0
  serialToUsb := serialToUsb
  usbToSerial := usbToSerial
  inPackets := Vector.replicate _ ⟨0, 0, Vector.replicate _ 0⟩
  inEpFifo := []
  done := false
  fault := false
  serial := ⟨[], []⟩
  usb := { usb with transfers := [] }

def addDescriptor (p : Proxy) (d : Descriptor) : Proxy × Int :=
  if maxDescriptorsSize < p.desc.length + d.wLength.toNat ∨
      maxDescriptors ≤ p.descIndex.length then (p, -1)
  else
    ({ p with
        desc := p.desc ++ d.data
        descIndex := p.descIndex ++
          [⟨UInt16.ofNat p.desc.length, d.wValue, d.wIndex, d.wLength⟩] }, 0)

/-- Calls of `add_descriptor` up to the first one that is refused. -/
def addDescriptors (p : Proxy) : List Descriptor → Proxy × Int
  | [] => (p, 0)
  | d :: ds =>
      let (p, ret) := addDescriptor p d
      if ret < 0 then (p, -1) else addDescriptors p ds

/-- The descriptor of the configuration at `descNumber`; `USB_DT_CONFIG` is 2. -/
def Configuration.descriptor (descNumber : ℕ) (c : Configuration) : Descriptor where
  wValue := 0x0200 ||| UInt16.ofNat descNumber
  wIndex := 0
  wLength := c.wTotalLength
  data := c.raw
  length_data := c.length_raw

/-- The descriptors in the order `send_descriptors` adds them; `USB_DT_DEVICE` is
1 and `USB_DT_STRING` 3. -/
def UsbDescriptors.added (d : UsbDescriptors) : List Descriptor :=
  [⟨0x0100, 0, 18, d.device.toList, by simp⟩, ⟨0x0300, 0, 4, d.langId0.toList, by simp⟩] ++
    d.configurations.mapIdx Configuration.descriptor ++ d.others

def sendDescriptors (p : Proxy) (d : UsbDescriptors) : Proxy × Int :=
  let (p, ret) := addDescriptors p d.added
  if ret < 0 then (p, -1)
  else
    let (p, ret) := p.send .eTypeDescriptors p.desc
    if ret < 0 then (p, -1) else (p, 0)

def Proxy.HasRoom (p : Proxy) (d : Descriptor) : Prop :=
  p.desc.length + d.data.length ≤ maxDescriptorsSize ∧ p.descIndex.length < maxDescriptors

def Proxy.addedDescriptor (p : Proxy) (d : Descriptor) : Proxy :=
  { p with
    desc := p.desc ++ d.data
    descIndex := p.descIndex ++
      [⟨UInt16.ofNat p.desc.length, d.wValue, d.wIndex, d.wLength⟩] }

theorem addDescriptor_of_hasRoom {p : Proxy} {d : Descriptor} (h : p.HasRoom d) :
    addDescriptor p d = (p.addedDescriptor d, 0) := by
  have hroom : ¬ (maxDescriptorsSize < p.desc.length + d.wLength.toNat ∨
      maxDescriptors ≤ p.descIndex.length) := by
    rw [← d.length_data, not_or, Nat.not_lt, Nat.not_le]
    exact h
  exact if_neg hroom

theorem addDescriptor_of_not_hasRoom {p : Proxy} {d : Descriptor} (h : ¬ p.HasRoom d) :
    addDescriptor p d = (p, -1) := by
  have hfull : maxDescriptorsSize < p.desc.length + d.wLength.toNat ∨
      maxDescriptors ≤ p.descIndex.length := by
    rw [Proxy.HasRoom, not_and_or, Nat.not_le, Nat.not_lt, d.length_data] at h
    exact h
  exact if_pos hfull

theorem addDescriptors_cons_of_hasRoom {p : Proxy} {d : Descriptor} (h : p.HasRoom d)
    (ds : List Descriptor) :
    addDescriptors p (d :: ds) = addDescriptors (p.addedDescriptor d) ds := by
  rw [addDescriptors, addDescriptor_of_hasRoom h]
  rfl

theorem addDescriptors_cons_of_not_hasRoom {p : Proxy} {d : Descriptor} (h : ¬ p.HasRoom d)
    (ds : List Descriptor) : addDescriptors p (d :: ds) = (p, -1) := by
  rw [addDescriptors, addDescriptor_of_not_hasRoom h]
  rfl

/-- The entries of a list of descriptors that are put one behind the other from
`offset` on. -/
def indexEntries (offset : ℕ) : List Descriptor → List DescriptorIndex
  | [] => []
  | d :: ds =>
      ⟨UInt16.ofNat offset, d.wValue, d.wIndex, d.wLength⟩ ::
        indexEntries (offset + d.data.length) ds

theorem length_indexEntries (offset : ℕ) (ds : List Descriptor) :
    (indexEntries offset ds).length = ds.length := by
  induction ds generalizing offset with
  | nil => rfl
  | cons d ds ih => rw [indexEntries, List.length_cons, List.length_cons, ih]

def Proxy.HasRoomFor (p : Proxy) (ds : List Descriptor) : Prop :=
  p.desc.length + (ds.flatMap Descriptor.data).length ≤ maxDescriptorsSize ∧
    p.descIndex.length + ds.length ≤ maxDescriptors

theorem Proxy.hasRoomFor_cons (p : Proxy) (d : Descriptor) (ds : List Descriptor) :
    p.HasRoomFor (d :: ds) ↔ p.HasRoom d ∧ (p.addedDescriptor d).HasRoomFor ds := by
  unfold Proxy.HasRoomFor Proxy.HasRoom Proxy.addedDescriptor
  simp only [List.flatMap_cons, List.length_append, List.length_cons, List.length_nil]
  omega

theorem addDescriptors_of_hasRoomFor {p : Proxy} {ds : List Descriptor}
    (h : p.HasRoomFor ds) :
    addDescriptors p ds =
      ({ p with
          desc := p.desc ++ ds.flatMap Descriptor.data
          descIndex := p.descIndex ++ indexEntries p.desc.length ds }, 0) := by
  induction ds generalizing p with
  | nil => simp [addDescriptors, indexEntries]
  | cons d ds ih =>
      rw [Proxy.hasRoomFor_cons] at h
      rw [addDescriptors_cons_of_hasRoom h.1, ih h.2]
      simp [Proxy.addedDescriptor, indexEntries, List.append_assoc]

/-- When they do not fit, one is refused, and nothing is sent. -/
theorem addDescriptors_of_not_hasRoomFor {p : Proxy} {ds : List Descriptor}
    (hsize : p.desc.length ≤ maxDescriptorsSize)
    (hcount : p.descIndex.length ≤ maxDescriptors) (h : ¬ p.HasRoomFor ds) :
    (addDescriptors p ds).2 = -1 ∧ (addDescriptors p ds).1.serial = p.serial := by
  induction ds generalizing p with
  | nil => exact absurd ⟨hsize, hcount⟩ h
  | cons d ds ih =>
      rw [Proxy.hasRoomFor_cons] at h
      by_cases hroom : p.HasRoom d
      · rw [addDescriptors_cons_of_hasRoom hroom]
        have hrest : ¬ (p.addedDescriptor d).HasRoomFor ds := fun hds => h ⟨hroom, hds⟩
        apply ih _ _ hrest
        · rw [Proxy.addedDescriptor, List.length_append]
          exact hroom.1
        · rw [Proxy.addedDescriptor, List.length_append]
          exact hroom.2
      · rw [addDescriptors_cons_of_not_hasRoom hroom]
        exact ⟨rfl, rfl⟩

end SerialUsb
