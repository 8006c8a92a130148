import SerialUsb.Gusb.Probe

/-!
# HID report descriptors

What `probe_hid` asks a device for. The entries of a HID descriptor have three bytes each, while
the elements of `rdesc` in `struct usb_hid_descriptor` have four: the requests are the ones that
the descriptor asks for when the only entry with a length is also the first element with one.
-/

namespace SerialUsb

structure HidEntry where
  type : UInt8
  length : UInt16
deriving DecidableEq

structure HidRequest where
  wValue : UInt16
  wIndex : UInt16
  wLength : UInt16
deriving DecidableEq

def HidEntry.request (number : UInt8) (e : HidEntry) : HidRequest :=
  ⟨e.type.toUInt16 <<< 8, number.toUInt16, e.length⟩

def HidEntry.other (number : UInt8) (e : HidEntry) (reply : List UInt8) : POther :=
  ⟨e.type.toUInt16 <<< 8, number.toUInt16, reply.take e.length.toNat⟩

namespace RawConfiguration

variable (r : RawConfiguration)

def hidEntries (p : ℕ) : List HidEntry :=
  (List.range (r.bNumDescriptors p).toNat).map fun i =>
    ⟨r.byte (p + 6 + 3 * i), r.word (p + 7 + 3 * i)⟩

def hidReports (p : ℕ) : List HidEntry := (r.hidEntries p).filter fun e => e.length ≠ 0

def rdesc (p : ℕ) : List HidEntry :=
  (List.range (r.bNumDescriptors p).toNat).map fun i =>
    ⟨r.bReportDescriptorType p i, r.wReportDescriptorLength p i⟩

def firstRdesc (p : ℕ) : Option HidEntry := (r.rdesc p).find? fun e => e.length ≠ 0

theorem firstRdesc_eq (p : ℕ) :
    r.firstRdesc p = (hidReport r p).map fun i =>
      ⟨r.bReportDescriptorType p i, r.wReportDescriptorLength p i⟩ := by
  unfold firstRdesc rdesc hidReport
  rw [List.find?_map]
  rfl

end RawConfiguration

def Probing.hidInterface (s : Probing) : Option ℕ :=
  match s.tree.getInterface s.interface with
  | none => none
  | some (number, alt) =>
      let descriptor := s.tree.descriptorAt number alt
      if s.tree.raw.bInterfaceClass descriptor = libusbClassHid then some descriptor else none

section

variable (env : Environment)

/-- The control transfers of `probe_hid`: one behind the `calloc` of its buffer. -/
def hidRequests (d : GusbDevice) (s : Probing) (p : ℕ) : List HidRequest :=
  match s.tree.getInterface s.interface with
  | none => []
  | some (number, alt) =>
      let descriptor := s.tree.descriptorAt number alt
      if s.tree.raw.bInterfaceClass descriptor ≠ libusbClassHid then []
      else
        match hidReport s.tree.raw p with
        | none => []
        | some i =>
            if (d.allocate env).2 then
              [⟨(s.tree.raw.bReportDescriptorType p i).toUInt16 <<< 8,
                (s.tree.raw.bInterfaceNumber descriptor).toUInt16,
                s.tree.raw.wReportDescriptorLength p i⟩]
            else []

def hidOthers (number : UInt8) : ℕ → List HidEntry → List POther
  | _, [] => []
  | n, e :: es => e.other number ((env.reply n).getD []) :: hidOthers number (n + 1) es

@[simp] theorem hidOthers_nil (number : UInt8) (n : ℕ) : hidOthers env number n [] = [] := rfl

theorem hidOthers_cons (number : UInt8) (n : ℕ) (e : HidEntry) (es : List HidEntry) :
    hidOthers env number n (e :: es) =
      e.other number ((env.reply n).getD []) :: hidOthers env number (n + 1) es := rfl

/-- Behind the interface descriptor `q`, `probe_hid` requests the descriptor of each entry that
has a length, with that length, and appends what it gets, in order. -/
structure HidCaptured (d : GusbDevice) (s : Probing) (q p : ℕ) : Prop where
  requests : hidRequests env d s p =
    (s.tree.raw.hidReports p).map (HidEntry.request (s.tree.raw.bInterfaceNumber q))
  others : (probeHid env d s p).1.others =
    d.others ++ hidOthers env (s.tree.raw.bInterfaceNumber q) d.transfers
      (s.tree.raw.hidReports p)

/-- The only entry with a length is the first element of `rdesc` with one, and the record is of
the class HID and has the number of the interface; or there is neither. -/
def HidAligned (d : GusbDevice) (s : Probing) (q p : ℕ) : Prop :=
  (s.tree.raw.hidReports p = [] ∧ (s.hidInterface = none ∨ s.tree.raw.firstRdesc p = none ∨
      env.alloc d.allocations = false)) ∨
    ∃ e r, s.tree.raw.hidReports p = [e] ∧ s.tree.raw.firstRdesc p = some e ∧
      s.hidInterface = some r ∧
      s.tree.raw.bInterfaceNumber r = s.tree.raw.bInterfaceNumber q ∧
      env.alloc d.allocations = true ∧ env.alloc (d.allocations + 1) = true

variable {env}

theorem probeHid_transfers (env : Environment) (d : GusbDevice) (s : Probing) (p : ℕ) :
    (probeHid env d s p).1.transfers = d.transfers + (hidRequests env d s p).length := by
  unfold hidRequests probeHid GusbDevice.allocate GusbDevice.controlTransfer
  cases s.tree.getInterface s.interface with
  | none => rfl
  | some record =>
      dsimp only
      split
      · rfl
      · cases hidReport s.tree.raw p with
        | none => rfl
        | some i =>
            dsimp only
            split
            · cases env.reply d.transfers with
              | none => rfl
              | some data =>
                  unfold addOther GusbDevice.allocate
                  dsimp only [Option.map_some]
                  split <;> rfl
            · rfl

theorem probeHid_of_none {d : GusbDevice} {s : Probing} {p : ℕ}
    (h : s.hidInterface = none ∨ s.tree.raw.firstRdesc p = none ∨
      env.alloc d.allocations = false) :
    hidRequests env d s p = [] ∧ (probeHid env d s p).1.others = d.others := by
  rw [RawConfiguration.firstRdesc_eq, Option.map_eq_none_iff] at h
  unfold Probing.hidInterface at h
  unfold hidRequests probeHid GusbDevice.allocate
  cases hrecord : s.tree.getInterface s.interface with
  | none => exact ⟨rfl, rfl⟩
  | some record =>
      obtain ⟨number, alt⟩ := record
      rw [hrecord] at h
      dsimp only at h ⊢
      by_cases hclass : s.tree.raw.bInterfaceClass (s.tree.descriptorAt number alt) =
          libusbClassHid
      · rw [if_neg (not_not.2 hclass), if_neg (not_not.2 hclass)]
        rw [if_pos hclass] at h
        cases hreport : hidReport s.tree.raw p with
        | none => exact ⟨rfl, rfl⟩
        | some i =>
            have halloc : env.alloc d.allocations = false := by simpa [hreport] using h
            simp [halloc]
      · rw [if_pos hclass, if_pos hclass]
        exact ⟨rfl, rfl⟩

theorem probeHid_of_some {d : GusbDevice} {s : Probing} {p r : ℕ} {e : HidEntry}
    (htransfers : ∀ n, env.reply n ≠ none) (hinterface : s.hidInterface = some r)
    (helement : s.tree.raw.firstRdesc p = some e) (halloc : env.alloc d.allocations = true) :
    hidRequests env d s p = [e.request (s.tree.raw.bInterfaceNumber r)] ∧
      (probeHid env d s p).1.others = d.others ++
        if env.alloc (d.allocations + 1) then
          [e.other (s.tree.raw.bInterfaceNumber r) ((env.reply d.transfers).getD [])]
        else [] := by
  rw [RawConfiguration.firstRdesc_eq, Option.map_eq_some_iff] at helement
  obtain ⟨i, hreport, rfl⟩ := helement
  unfold Probing.hidInterface at hinterface
  unfold hidRequests probeHid GusbDevice.allocate GusbDevice.controlTransfer
  cases hrecord : s.tree.getInterface s.interface with
  | none => simp [hrecord] at hinterface
  | some record =>
      obtain ⟨number, alt⟩ := record
      rw [hrecord] at hinterface
      dsimp only at hinterface ⊢
      by_cases hclass : s.tree.raw.bInterfaceClass (s.tree.descriptorAt number alt) =
          libusbClassHid
      · rw [if_pos hclass, Option.some.injEq] at hinterface
        subst hinterface
        obtain ⟨data, hreply⟩ := Option.ne_none_iff_exists'.1 (htransfers d.transfers)
        rw [if_neg (not_not.2 hclass), if_neg (not_not.2 hclass), hreport]
        simp only [halloc, hreply, if_true, Option.map_some, Option.getD_some]
        refine ⟨rfl, ?_⟩
        unfold addOther GusbDevice.allocate
        dsimp only
        split
        · rfl
        · rw [List.append_nil]
      · rw [if_neg hclass] at hinterface
        simp at hinterface

theorem HidEntry.request_injective {m n : UInt8} {e f : HidEntry}
    (h : e.request m = f.request n) : e = f ∧ m = n := by
  obtain ⟨type, length⟩ := e
  obtain ⟨type', length'⟩ := f
  simp only [HidEntry.request, HidRequest.mk.injEq] at h
  obtain ⟨htype, hnumber, hlength⟩ := h
  have hbyte : type = type' := by
    apply UInt8.toNat_inj.1
    have hshift := congrArg UInt16.toNat htype
    have h₁ := type.toNat_lt
    have h₂ := type'.toNat_lt
    simp only [UInt16.toNat_shiftLeft, UInt8.toNat_toUInt16, UInt16.toNat_ofNat,
      Nat.shiftLeft_eq, show 2 ^ (8 % 2 ^ 16 % 16) = 256 from rfl] at hshift
    omega
  exact ⟨by rw [hbyte, hlength], UInt8.toUInt16_inj.1 hnumber⟩

/-- When every transfer succeeds, the entries of the HID descriptor at `p` behind the interface
descriptor at `q` are captured if and only if they are aligned with `rdesc`. -/
theorem hidCaptured_iff (d : GusbDevice) (s : Probing) (q p : ℕ)
    (htransfers : ∀ n, env.reply n ≠ none) :
    HidCaptured env d s q p ↔ HidAligned env d s q p := by
  by_cases hnone : s.hidInterface = none ∨ s.tree.raw.firstRdesc p = none ∨
      env.alloc d.allocations = false
  · obtain ⟨hrequests, hothers⟩ := probeHid_of_none hnone
    constructor
    · intro h
      have hempty := h.requests
      rw [hrequests, List.nil_eq, List.map_eq_nil_iff] at hempty
      exact Or.inl ⟨hempty, hnone⟩
    · rintro (⟨hempty, -⟩ | ⟨e, r, -, helement, hrecord, -, halloc, -⟩)
      · exact ⟨by rw [hrequests, hempty]; rfl, by rw [hothers, hempty]; simp⟩
      · simp [helement, hrecord, halloc] at hnone
  · rw [not_or, not_or] at hnone
    obtain ⟨hrecord, helement, halloc⟩ := hnone
    obtain ⟨r, hrecord⟩ := Option.ne_none_iff_exists'.1 hrecord
    obtain ⟨e, helement⟩ := Option.ne_none_iff_exists'.1 helement
    rw [Bool.not_eq_false] at halloc
    obtain ⟨hrequests, hothers⟩ := probeHid_of_some htransfers hrecord helement halloc
    constructor
    · intro h
      have hone := h.requests
      have hlast := h.others
      rw [hrequests] at hone
      obtain ⟨f, hf⟩ : ∃ f, s.tree.raw.hidReports p = [f] := by
        apply List.length_eq_one_iff.1
        simpa using (congrArg List.length hone).symm
      rw [hf, List.map_singleton, List.singleton_inj] at hone
      obtain ⟨rfl, hnumber⟩ := HidEntry.request_injective hone
      rw [hothers, hf, hidOthers_cons, hidOthers_nil, List.append_cancel_left_eq] at hlast
      have hroom : env.alloc (d.allocations + 1) = true := by
        by_contra hfull
        rw [if_neg hfull] at hlast
        simp at hlast
      exact Or.inr ⟨e, r, hf, helement, hrecord, hnumber, halloc, hroom⟩
    · rintro (⟨-, hnone⟩ | ⟨f, t, hf, hfirst, ht, hnumber, -, hroom⟩)
      · simp [helement, hrecord, halloc] at hnone
      · rw [helement, Option.some.injEq] at hfirst
        rw [hrecord, Option.some.injEq] at ht
        subst hfirst
        subst ht
        refine ⟨?_, ?_⟩
        · rw [hrequests, hf, List.map_singleton, hnumber]
        · rw [hothers, hf, if_pos hroom, hidOthers_cons, hidOthers_nil, hnumber]

/-- A keyboard: a configuration with one interface, its HID descriptor with one report
descriptor, of some length, and an endpoint. -/
def hidKeyboard (low high : UInt8) : RawConfiguration :=
  RawConfiguration.ofBytes [0x09, 0x02, 0x22, 0x00, 0x01, 0x01, 0x00, 0xa0, 0x32,
    0x09, 0x04, 0x00, 0x00, 0x01, 0x03, 0x01, 0x01, 0x00,
    0x09, 0x21, 0x11, 0x01, 0x00, 0x01, 0x22, low, high,
    0x07, 0x05, 0x81, 0x03, 0x08, 0x00, 0x0a]

def hidKeyboardProbing (low high : UInt8) : Probing :=
  (Probing.start (hidKeyboard low high)).handle 9

/-- The second byte of the length and the length of the next descriptor are what `rdesc` has as
the length. -/
theorem hidCaptured_iff_keyboard :
    HidCaptured Environment.empty GusbDevice.start (hidKeyboardProbing 7 7) 9 18 :=
  (hidCaptured_iff _ _ _ _ fun _ => Option.some_ne_none _).2
    (Or.inr ⟨⟨0x22, 0x0707⟩, 9, by decide⟩)

/-- A keyboard with 52 bytes of report descriptor is asked for 1792. -/
theorem not_hidCaptured_keyboard :
    (hidKeyboard 52 0).bInterfaceClass 9 = libusbClassHid ∧
      hidRequests Environment.empty GusbDevice.start (hidKeyboardProbing 52 0) 18 =
        [⟨0x2200, 0, 1792⟩] ∧
      ¬ HidCaptured Environment.empty GusbDevice.start (hidKeyboardProbing 52 0) 9 18 := by
  refine ⟨by decide, by decide, fun h => ?_⟩
  exact absurd h.requests (by decide)

end

end SerialUsb
