import SerialUsb.Firmware.Upload
import SerialUsb.Proxy.Descriptors

/-!
# The descriptors of the firmware

`CALLBACK_USB_GetDescriptor` on the uploaded arrays. A table of entries that
point into a blob is read back as the list of descriptors it was built from.
-/

namespace SerialUsb

open Memory

def DescriptorIndex.ofBytes (b : List UInt8) : DescriptorIndex where
  offset := ofLe16 (b.getD 0 0) (b.getD 1 0)
  wValue := ofLe16 (b.getD 2 0) (b.getD 3 0)
  wIndex := ofLe16 (b.getD 4 0) (b.getD 5 0)
  wLength := ofLe16 (b.getD 6 0) (b.getD 7 0)

def readEntries : ℕ → List UInt8 → List DescriptorIndex
  | 0, _ => []
  | n + 1, b => DescriptorIndex.ofBytes b :: readEntries n (b.drop 8)

/-- The loop of `CALLBACK_USB_GetDescriptor` over the entries that are left: the
length returned, and the offset of the address that is set. -/
def findDescriptor (wValue wIndex : UInt16) :
    List DescriptorIndex → UInt16 × Option UInt16
  | [] => (0, none)
  | e :: es =>
      if e.wValue = 0 then (0, none)
      else if wValue = e.wValue ∧ wIndex = e.wIndex then (e.wLength, some e.offset)
      else findDescriptor wValue wIndex es

def callbackUsbGetDescriptor (u : Upload) (wValue wIndex : UInt16) :
    UInt16 × Option UInt16 :=
  findDescriptor wValue wIndex (readEntries maxDescriptors u.descIndex.toList)

def Upload.bytesAt (u : Upload) (offset wLength : UInt16) : List UInt8 :=
  (u.descriptors.toList.drop offset.toNat).take wLength.toNat

theorem DescriptorIndex.length_bytes (d : DescriptorIndex) : d.bytes.length = 8 := rfl

theorem DescriptorIndex.ofBytes_bytes_append (d : DescriptorIndex) (rest : List UInt8) :
    DescriptorIndex.ofBytes (d.bytes ++ rest) = d := by
  cases d
  simp [DescriptorIndex.ofBytes, DescriptorIndex.bytes, le16, ofLe16_le16]

theorem readEntries_replicate (n m : ℕ) :
    readEntries n (List.replicate m 0) = List.replicate n ⟨0, 0, 0, 0⟩ := by
  induction n generalizing m with
  | zero => rfl
  | succ n ih =>
      have hzero : DescriptorIndex.ofBytes (List.replicate m 0) = ⟨0, 0, 0, 0⟩ := by
        have hget : ∀ i, (List.replicate m (0 : UInt8)).getD i 0 = 0 := by
          intro i
          rw [List.getD_eq_getElem?_getD, List.getElem?_replicate]
          split <;> rfl
        simp only [DescriptorIndex.ofBytes, hget]
        rfl
      rw [readEntries, hzero, List.drop_replicate, ih, List.replicate_succ]

/-- An array that holds entries and zeros behind them is read as those entries and
entries that mark the end. -/
theorem readEntries_flatMap (es : List DescriptorIndex) {n : ℕ} (h : es.length ≤ n) (m : ℕ) :
    readEntries n (es.flatMap DescriptorIndex.bytes ++ List.replicate m 0) =
      es ++ List.replicate (n - es.length) ⟨0, 0, 0, 0⟩ := by
  induction es generalizing n with
  | nil =>
      rw [List.flatMap_nil, List.nil_append, List.nil_append, readEntries_replicate]
      rfl
  | cons e es ih =>
      obtain ⟨k, rfl⟩ : ∃ k, n = k + 1 := Nat.exists_eq_succ_of_ne_zero (by
        rw [List.length_cons] at h
        omega)
      rw [List.length_cons] at h
      rw [List.flatMap_cons, List.append_assoc, readEntries,
        DescriptorIndex.ofBytes_bytes_append, List.drop_left' e.length_bytes,
        ih (Nat.le_of_succ_le_succ h), List.length_cons, Nat.add_sub_add_right,
        List.cons_append]

/-- Entries that mark the end are not looked behind. -/
theorem findDescriptor_append_replicate (wValue wIndex : UInt16) (es : List DescriptorIndex)
    (n : ℕ) :
    findDescriptor wValue wIndex (es ++ List.replicate n ⟨0, 0, 0, 0⟩) =
      findDescriptor wValue wIndex es := by
  induction es with
  | nil => cases n <;> rfl
  | cons e es ih =>
      rw [List.cons_append, findDescriptor, findDescriptor, ih]

def firstDescriptor (wValue wIndex : UInt16) (ds : List Descriptor) : Option Descriptor :=
  ds.find? fun d => decide (d.wValue = wValue ∧ d.wIndex = wIndex)

/-- What the callback answers is what the list of descriptors says: length and
bytes of the first one with the key, and 0 when there is none. -/
def Upload.Serves (u : Upload) (ds : List Descriptor) : Prop :=
  ∀ wValue wIndex : UInt16,
    match firstDescriptor wValue wIndex ds with
    | some d => ∃ offset, callbackUsbGetDescriptor u wValue wIndex = (d.wLength, some offset) ∧
        u.bytesAt offset d.wLength = d.data
    | none => callbackUsbGetDescriptor u wValue wIndex = (0, none)

/-- The entries made for a list of descriptors lead to the bytes of the first one
with the key. -/
theorem findDescriptor_indexEntries {u : Upload} (wValue wIndex : UInt16)
    (ds : List Descriptor) {offset : ℕ}
    (hsize : offset + (ds.flatMap Descriptor.data).length < 2 ^ 16)
    (hdesc : (u.descriptors.toList.drop offset).take (ds.flatMap Descriptor.data).length =
      ds.flatMap Descriptor.data)
    (hne : ∀ d ∈ ds, d.wValue ≠ 0) :
    match firstDescriptor wValue wIndex ds with
    | some d => ∃ o, findDescriptor wValue wIndex (indexEntries offset ds) = (d.wLength, some o) ∧
        u.bytesAt o d.wLength = d.data
    | none => findDescriptor wValue wIndex (indexEntries offset ds) = (0, none) := by
  induction ds generalizing offset with
  | nil => rfl
  | cons d ds ih =>
      rw [List.flatMap_cons, List.length_append] at hsize
      rw [List.flatMap_cons, List.length_append] at hdesc
      rw [indexEntries, findDescriptor, if_neg (hne d (by simp)), firstDescriptor, List.find?_cons]
      by_cases hkey : d.wValue = wValue ∧ d.wIndex = wIndex
      · have hkey' : wValue = d.wValue ∧ wIndex = d.wIndex := ⟨hkey.1.symm, hkey.2.symm⟩
        rw [decide_eq_true hkey, if_pos hkey']
        refine ⟨_, rfl, ?_⟩
        have hoffset : (UInt16.ofNat offset).toNat = offset :=
          UInt16.toNat_ofNat_of_lt' (show offset < 65536 by omega)
        rw [Upload.bytesAt, hoffset, ← d.length_data]
        have htake := congrArg (List.take d.data.length) hdesc
        rw [List.take_take, Nat.min_eq_left (Nat.le_add_right _ _), List.take_left] at htake
        exact htake
      · have hkey' : ¬ (wValue = d.wValue ∧ wIndex = d.wIndex) := fun h => hkey ⟨h.1.symm, h.2.symm⟩
        rw [decide_eq_false hkey, if_neg hkey']
        apply ih
        · omega
        · have hdrop := congrArg (List.drop d.data.length) hdesc
          rw [List.drop_take, List.drop_drop, Nat.add_sub_cancel_left, List.drop_left] at hdrop
          exact hdrop
        · exact fun e he => hne e (List.mem_cons_of_mem _ he)

theorem Upload.serves_of_filled {u : Upload} {ds : List Descriptor}
    (hsize : (ds.flatMap Descriptor.data).length ≤ maxDescriptorsSize)
    (hcount : ds.length ≤ maxDescriptors)
    (hdesc : Filled u.descriptors (ds.flatMap Descriptor.data))
    (hindex : Filled u.descIndex ((indexEntries 0 ds).flatMap DescriptorIndex.bytes))
    (hne : ∀ d ∈ ds, d.wValue ≠ 0) : u.Serves ds := by
  intro wValue wIndex
  have hlen : (indexEntries 0 ds).length ≤ maxDescriptors := by
    rwa [length_indexEntries]
  have hcallback : callbackUsbGetDescriptor u wValue wIndex =
      findDescriptor wValue wIndex (indexEntries 0 ds) := by
    rw [callbackUsbGetDescriptor, hindex, readEntries_flatMap _ hlen,
      findDescriptor_append_replicate]
  rw [hcallback]
  refine findDescriptor_indexEntries wValue wIndex ds ?_ ?_ hne
  · rw [maxDescriptorsSize_eq] at hsize
    omega
  · rw [List.drop_zero]
    exact hdesc.take

end SerialUsb
