import SerialUsb.Firmware.Descriptors
import SerialUsb.System.Startup

/-!
# The descriptor store

What `send_descriptors` collects on the PC is what the firmware answers to the
target host, after any run of the start that gets there.
-/

namespace SerialUsb

open Framing Memory Transition

def UsbDescriptors.Fits (d : UsbDescriptors) : Prop :=
  (d.added.flatMap Descriptor.data).length ≤ maxDescriptorsSize ∧
    d.added.length ≤ maxDescriptors

/-- Every entry starts where the one before it ends, the first one at `offset`,
and the last one ends at `size`. -/
def Consecutive (size offset : ℕ) : List DescriptorIndex → Prop
  | [] => offset = size
  | e :: es => e.offset.toNat = offset ∧ Consecutive size (offset + e.wLength.toNat) es

theorem consecutive_indexEntries (ds : List Descriptor) {offset : ℕ}
    (h : offset + (ds.flatMap Descriptor.data).length < 2 ^ 16) :
    Consecutive (offset + (ds.flatMap Descriptor.data).length) offset
      (indexEntries offset ds) := by
  induction ds generalizing offset with
  | nil => rfl
  | cons d ds ih =>
      rw [List.flatMap_cons, List.length_append, ← Nat.add_assoc] at h ⊢
      refine ⟨UInt16.toNat_ofNat_of_lt' (show offset < 65536 by omega), ?_⟩
      rw [← d.length_data]
      exact ih h

theorem Configuration.wValue_descriptor_ne_zero (n : ℕ) (c : Configuration) :
    (c.descriptor n).wValue ≠ 0 := by
  intro h
  have hle : 512 ≤ ((0x0200 : UInt16) ||| UInt16.ofNat n).toNat := by
    rw [UInt16.toNat_or]
    exact Nat.left_le_or
  have hzero : ((0x0200 : UInt16) ||| UInt16.ofNat n).toNat = 0 := congrArg UInt16.toNat h
  omega

/-- Only what the strings and reports were fetched under can have the value 0. -/
theorem UsbDescriptors.wValue_ne_zero {d : UsbDescriptors}
    (h : ∀ o ∈ d.others, o.wValue ≠ 0) : ∀ a ∈ d.added, a.wValue ≠ 0 := by
  intro a ha
  rw [UsbDescriptors.added, List.mem_append, List.mem_append, List.mem_mapIdx] at ha
  rcases ha with (ha | ⟨n, hn, rfl⟩) | ha
  · rw [List.mem_cons, List.mem_singleton] at ha
    rcases ha with rfl | rfl
    · exact (by decide : (0x0100 : UInt16) ≠ 0)
    · exact (by decide : (0x0300 : UInt16) ≠ 0)
  · exact Configuration.wValue_descriptor_ne_zero n _
  · exact h a ha

section Send

variable (endpoints : List EndpointConfig) (serialToUsb usbToSerial : EndpointTable)
  (usb : Usb) (d : UsbDescriptors)

theorem UsbDescriptors.hasRoomFor_start :
    (Proxy.start endpoints serialToUsb usbToSerial usb).HasRoomFor d.added ↔ d.Fits := by
  change 0 + _ ≤ _ ∧ 0 + _ ≤ _ ↔ _
  rw [Nat.zero_add, Nat.zero_add]
  rfl

theorem sendDescriptors_of_not_fits (h : ¬ d.Fits) :
    (sendDescriptors (Proxy.start endpoints serialToUsb usbToSerial usb) d).2 = -1 ∧
      (sendDescriptors (Proxy.start endpoints serialToUsb usbToSerial usb) d).1.serial =
        (Proxy.start endpoints serialToUsb usbToSerial usb).serial := by
  rw [← d.hasRoomFor_start endpoints serialToUsb usbToSerial usb] at h
  obtain ⟨hret, hserial⟩ := addDescriptors_of_not_hasRoomFor (Nat.zero_le _) (Nat.zero_le _) h
  have hneg : (-1 : Int) < 0 := by decide
  simp only [sendDescriptors, hret, if_pos hneg]
  exact ⟨trivial, hserial⟩

theorem sendDescriptors_of_fits (h : d.Fits) :
    sendDescriptors (Proxy.start endpoints serialToUsb usbToSerial usb) d =
      ({ Proxy.start endpoints serialToUsb usbToSerial usb with
          desc := d.added.flatMap Descriptor.data
          descIndex := indexEntries 0 d.added
          serial := ⟨(packets .eTypeDescriptors (d.added.flatMap Descriptor.data)).flatMap
            Frame.encode, []⟩ }, 0) := by
  rw [← d.hasRoomFor_start endpoints serialToUsb usbToSerial usb] at h
  have hnonneg : ¬ (0 : Int) < 0 := by decide
  have hadd : addDescriptors (Proxy.start endpoints serialToUsb usbToSerial usb) d.added =
      ({ Proxy.start endpoints serialToUsb usbToSerial usb with
          desc := d.added.flatMap Descriptor.data
          descIndex := indexEntries 0 d.added }, 0) := addDescriptors_of_hasRoomFor h
  rw [sendDescriptors, hadd]
  dsimp only
  rw [if_neg hnonneg, Proxy.send_of_complete rfl]
  rfl

def UsbDescriptors.tables (hfits : d.Fits) (hendpoints : endpoints.length ≤ maxEndpoints) :
    Tables where
  desc := d.added.flatMap Descriptor.data
  descIndex := indexEntries 0 d.added
  endpoints := endpoints
  desc_le := hfits.1
  descIndex_le := by
    rw [length_indexEntries]
    exact hfits.2
  endpoints_le := hendpoints

theorem startOf_sendDescriptors (hfits : d.Fits) (hendpoints : endpoints.length ≤ maxEndpoints) :
    Startup.startOf (sendDescriptors (Proxy.start endpoints serialToUsb usbToSerial usb) d).1 =
      Startup.start (d.tables endpoints hfits hendpoints) serialToUsb usbToSerial usb := by
  rw [sendDescriptors_of_fits endpoints serialToUsb usbToSerial usb d hfits, Startup.start,
    Proxy.send_of_complete rfl]
  rfl

end Send

/-- The descriptor store from the device to the target host, for every set of
descriptors:

* a refused call of `add_descriptor` changes nothing;
* a set that does not fit is refused before a byte is sent;
* a set that fits is sent, and its entries describe consecutive ranges of the blob;
  and if no descriptor has the value 0, an upload that holds blob and index serves
  the set, which is so in every state of every run in which the firmware has
  started. -/
theorem descriptor_store (endpoints : List EndpointConfig)
    (serialToUsb usbToSerial : EndpointTable) (usb : Usb) (d : UsbDescriptors) :
    let p := Proxy.start endpoints serialToUsb usbToSerial usb
    let q := (sendDescriptors p d).1
    (∀ (r : Proxy) (a : Descriptor), (addDescriptor r a).2 < 0 → (addDescriptor r a).1 = r) ∧
    (¬ d.Fits → (sendDescriptors p d).2 = -1 ∧ q.serial = p.serial) ∧
    (d.Fits →
      (sendDescriptors p d).2 = 0 ∧
      q.serial.line = (packets .eTypeDescriptors q.desc).flatMap Frame.encode ∧
      q.desc = d.added.flatMap Descriptor.data ∧ q.descIndex.length = d.added.length ∧
      Consecutive q.desc.length 0 q.descIndex ∧
      ((∀ o ∈ d.others, o.wValue ≠ 0) →
        (∀ u : Upload, Filled u.descriptors q.desc →
          Filled u.descIndex (q.descIndex.flatMap DescriptorIndex.bytes) → u.Serves d.added) ∧
        (endpoints.length ≤ maxEndpoints → ∀ (es : List StartupEvent) (s : Startup),
          exec Startup.next (Startup.startOf q) es = some s → s.fw.upload.started = true →
            s.fw.upload.Serves d.added))) := by
  refine ⟨fun r a hret => ?_, sendDescriptors_of_not_fits endpoints serialToUsb usbToSerial usb d,
    fun hfits => ?_⟩
  · by_cases hroom : r.HasRoom a
    · rw [addDescriptor_of_hasRoom hroom] at hret
      exact absurd hret (Int.lt_irrefl 0)
    · rw [addDescriptor_of_not_hasRoom hroom]
  have hsend := sendDescriptors_of_fits endpoints serialToUsb usbToSerial usb d hfits
  have hserves : (∀ o ∈ d.others, o.wValue ≠ 0) → ∀ u : Upload,
      Filled u.descriptors (d.added.flatMap Descriptor.data) →
      Filled u.descIndex ((indexEntries 0 d.added).flatMap DescriptorIndex.bytes) →
        u.Serves d.added :=
    fun hne u hdesc hindex =>
      Upload.serves_of_filled hfits.1 hfits.2 hdesc hindex (UsbDescriptors.wValue_ne_zero hne)
  have hsize : 0 + (d.added.flatMap Descriptor.data).length < 2 ^ 16 := by
    have hle := hfits.1
    rw [maxDescriptorsSize_eq] at hle
    omega
  refine ⟨by rw [hsend], by rw [hsend], by rw [hsend], ?_, ?_, fun hne => ⟨?_, ?_⟩⟩
  · rw [hsend]
    exact length_indexEntries 0 d.added
  · rw [hsend]
    have hranges := consecutive_indexEntries d.added hsize
    rwa [Nat.zero_add] at hranges
  · rw [hsend]
    exact hserves hne
  · intro hendpoints es s hrun hstarted
    rw [startOf_sendDescriptors endpoints serialToUsb usbToSerial usb d hfits hendpoints] at hrun
    obtain ⟨rs, fs, rt, stream, h⟩ := Startup.exec_inv _ serialToUsb usbToSerial usb hrun
    have hstaged := h.staged hstarted
    exact hserves hne _ hstaged.descriptors hstaged.descIndex

end SerialUsb
