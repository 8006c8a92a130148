import SerialUsb.Gusb.Tree
import SerialUsb.Proxy.FixEndpoints
import SerialUsb.Proxy.Usb

/-!
# Probing the configurations

`probe_configurations` with its handlers. Every allocation and every control transfer may
fail: an environment tells the outcome of each, and the device counts them. The loop is given
a number of iterations; without a result it still runs behind them.
-/

namespace SerialUsb

open Memory

/-- The outcomes of the allocations and of the control transfers, in the order of the calls:
the bytes of the reply, or none for an error. -/
structure Environment where
  alloc : ℕ → Bool
  reply : ℕ → Option (List UInt8)

def Environment.Succeeds (env : Environment) : Prop :=
  (∀ n, env.alloc n = true) ∧ ∀ n, env.reply n ≠ none

def Environment.empty : Environment := ⟨fun _ => true, fun _ => some []⟩

theorem Environment.empty_succeeds : Environment.empty.Succeeds :=
  ⟨fun _ => rfl, fun _ => Option.some_ne_none _⟩

/-- `struct p_other`; `wLength` is the length of the data. -/
structure POther where
  wValue : UInt16
  wIndex : UInt16
  data : List UInt8

structure EndpointInfos where
  inInfo : Vector EndpointInfo endpointMaxNumber
  outInfo : Vector EndpointInfo endpointMaxNumber

/-- The end of `probe_endpoint`. -/
def EndpointInfos.define (t : EndpointInfos) (e : EndpointDescriptor) : EndpointInfos :=
  let number := endpointNumber e.bEndpointAddress
  if 0 < number then
    if endpointIn e.bEndpointAddress then
      { t with inInfo := t.inInfo.setIfInBounds (number - 1) ⟨e.xferType, e.wMaxPacketSize⟩ }
    else
      { t with outInfo := t.outInfo.setIfInBounds (number - 1) ⟨e.xferType, e.wMaxPacketSize⟩ }
  else t

/-- What the handlers use of `usbdevices[device]`, and the calls that were made. -/
structure GusbDevice where
  langId0 : UInt16
  others : List POther
  endpoints : EndpointInfos
  allocations : ℕ
  transfers : ℕ

def GusbDevice.start : GusbDevice where
  langId0 := 0
  others := []
  endpoints := ⟨Vector.replicate _ ⟨0, 0⟩, Vector.replicate _ ⟨0, 0⟩⟩
  allocations := 0
  transfers := 0

section Handlers

variable (env : Environment)

def GusbDevice.allocate (d : GusbDevice) : GusbDevice × Bool :=
  ({ d with allocations := d.allocations + 1 }, env.alloc d.allocations)

def GusbDevice.controlTransfer (d : GusbDevice) (length : ℕ) :
    GusbDevice × Option (List UInt8) :=
  ({ d with transfers := d.transfers + 1 }, (env.reply d.transfers).map (·.take length))

def addOther (d : GusbDevice) (wValue wIndex : UInt16) (data : List UInt8) : GusbDevice × Int :=
  let (d, allocated) := d.allocate env
  if allocated then ({ d with others := d.others ++ [⟨wValue, wIndex, data⟩] }, 0) else (d, -1)

abbrev defaultStringBufferSize : ℕ := 255

def getStringDescriptor (d : GusbDevice) (index : UInt8) : GusbDevice × Int :=
  let wValue := 0x0300 ||| index.toUInt16
  let (d, allocated) := d.allocate env
  if allocated then
    match d.controlTransfer env defaultStringBufferSize with
    | (d, none) => (d, -1)
    | (d, some data) =>
        let bLength := (data.headD 0).toNat
        if data.length < bLength then
          let (d, allocated) := d.allocate env
          if allocated then
            match d.controlTransfer env bLength with
            | (d, none) => (d, -1)
            | (d, some data) => addOther env d wValue d.langId0 data
          else (d, -1)
        else addOther env d wValue d.langId0 data
  else (d, -1)

def probeInterface (d : GusbDevice) (s : Probing) (p : ℕ) : GusbDevice × Probing × Int :=
  let raw := s.tree.raw
  if raw.bNumInterfaces ≤ raw.bInterfaceNumber p then (d, s, -1)
  else
    let (d, allocated) := d.allocate env
    if allocated then
      let d := if raw.iInterface p ≠ 0 then (getStringDescriptor env d (raw.iInterface p)).1 else d
      (d, ⟨s.tree.addAltInterface p, some p⟩, 0)
    else (d, s, -1)

def probeEndpoint (d : GusbDevice) (s : Probing) (p : ℕ) : GusbDevice × Probing × Int :=
  match s.tree.getInterface s.interface with
  | none => (d, s, -1)
  | some (number, alt) =>
      let (d, allocated) := d.allocate env
      if allocated then
        ({ d with endpoints := d.endpoints.define (s.tree.raw.endpoint p) },
          { s with tree := s.tree.addEndpoint number alt p }, 0)
      else (d, s, -1)

def hidReport (raw : RawConfiguration) (p : ℕ) : Option ℕ :=
  (List.range (raw.bNumDescriptors p).toNat).find? fun i => raw.wReportDescriptorLength p i ≠ 0

def probeHid (d : GusbDevice) (s : Probing) (p : ℕ) : GusbDevice × Probing × Int :=
  let raw := s.tree.raw
  match s.tree.getInterface s.interface with
  | none => (d, s, -1)
  | some (number, alt) =>
      let descriptor := s.tree.descriptorAt number alt
      if raw.bInterfaceClass descriptor ≠ libusbClassHid then (d, s, 0)
      else
        let s := { s with tree := s.tree.setHid number alt p }
        match hidReport raw p with
        | none => (d, s, 0)
        | some i =>
            let (d, allocated) := d.allocate env
            if allocated then
              match d.controlTransfer env (raw.wReportDescriptorLength p i).toNat with
              | (d, none) => (d, s, -1)
              | (d, some data) =>
                  let (d, ret) := addOther env d ((raw.bReportDescriptorType p i).toUInt16 <<< 8)
                    (raw.bInterfaceNumber descriptor).toUInt16 data
                  (d, s, ret)
            else (d, s, -1)

def probeDescriptor (d : GusbDevice) (s : Probing) (p : ℕ) : GusbDevice × Probing × Int :=
  if s.tree.raw.bDescriptorType p = libusbDtInterface then probeInterface env d s p
  else if s.tree.raw.bDescriptorType p = libusbDtEndpoint then probeEndpoint env d s p
  else if s.tree.raw.bDescriptorType p = libusbDtHid then probeHid env d s p
  else (d, s, 0)

/-- What a call leaves, with the positions at which iterations of the loop started. -/
structure ProbeResult where
  device : GusbDevice
  probing : Probing
  visited : List ℕ
  ret : Int

def probeLoop : ℕ → GusbDevice → Probing → ℕ → Option ProbeResult
  | 0, d, s, p => if p < s.tree.raw.wTotalLength.toNat then none else some ⟨d, s, [], 0⟩
  | iterations + 1, d, s, p =>
      if p < s.tree.raw.wTotalLength.toNat then
        let (d, s', ret) := probeDescriptor env d s p
        if ret < 0 then some ⟨d, s', [p], -1⟩
        else
          (probeLoop iterations d s' (p + s.tree.raw.descriptorLength p)).map fun r =>
            { r with visited := p :: r.visited }
      else some ⟨d, s, [], 0⟩

def probeConfiguration (iterations : ℕ) (d : GusbDevice) (raw : RawConfiguration) :
    Option ProbeResult :=
  let (d, allocated) := d.allocate env
  if allocated then
    let d := if raw.iConfiguration ≠ 0 then (getStringDescriptor env d raw.iConfiguration).1
      else d
    probeLoop env iterations d (Probing.start raw) raw.bLength
  else some ⟨d, ⟨⟨raw, []⟩, none⟩, [], -1⟩

/-- `probe_configurations`, with the iterations that each configuration is given. -/
def probeConfigurations (iterations : RawConfiguration → ℕ) (d : GusbDevice) :
    List RawConfiguration → Option (GusbDevice × List ProbeResult × Int)
  | [] => some (d, [], 0)
  | raw :: raws =>
      match probeConfiguration env (iterations raw) d raw with
      | none => none
      | some r =>
          if r.ret < 0 then some (r.device, [r], -1)
          else
            (probeConfigurations iterations r.device raws).map fun (d, rs, ret) =>
              (d, r :: rs, ret)

end Handlers

section Spec

variable {env : Environment}

theorem addOther_endpoints (env : Environment) (d : GusbDevice) (wValue wIndex : UInt16)
    (data : List UInt8) : (addOther env d wValue wIndex data).1.endpoints = d.endpoints := by
  unfold addOther
  dsimp only
  split <;> rfl

theorem addOther_ret (env : Environment) (d : GusbDevice) (wValue wIndex : UInt16)
    (data : List UInt8) :
    (addOther env d wValue wIndex data).2 = if env.alloc d.allocations then 0 else -1 := by
  unfold addOther GusbDevice.allocate
  dsimp only
  split <;> rfl

theorem getStringDescriptor_endpoints (env : Environment) (d : GusbDevice) (index : UInt8) :
    (getStringDescriptor env d index).1.endpoints = d.endpoints := by
  unfold getStringDescriptor
  dsimp only
  split
  · split
    next h => exact (congrArg (fun x => x.1.endpoints) h).symm
    next h =>
      have hkept := (congrArg (fun x => x.1.endpoints) h).symm
      split
      · split
        · split
          next h' => exact (congrArg (fun x => x.1.endpoints) h').symm.trans hkept
          next h' =>
            rw [addOther_endpoints]
            exact (congrArg (fun x => x.1.endpoints) h').symm.trans hkept
        · exact hkept
      · rw [addOther_endpoints]
        exact hkept
  · rfl

theorem probeInterface_cases (env : Environment) (d : GusbDevice) (s : Probing) (p : ℕ) :
    (probeInterface env d s p).2.2 = -1 ∧ (env.Succeeds →
        ¬ s.tree.raw.bInterfaceNumber p < s.tree.raw.bNumInterfaces) ∨
      (probeInterface env d s p).2 = (⟨s.tree.addAltInterface p, some p⟩, 0) ∧
        s.tree.raw.bInterfaceNumber p < s.tree.raw.bNumInterfaces ∧
        (probeInterface env d s p).1.endpoints = d.endpoints := by
  unfold probeInterface GusbDevice.allocate
  dsimp only
  split
  next h => exact Or.inl ⟨rfl, fun _ => UInt8.not_lt.2 h⟩
  next h =>
    split
    next =>
      refine Or.inr ⟨rfl, UInt8.not_le.1 h, ?_⟩
      dsimp only
      split
      · exact getStringDescriptor_endpoints env _ _
      · rfl
    next hfailed => exact Or.inl ⟨rfl, fun hs => absurd (hs.1 _) hfailed⟩

theorem probeEndpoint_cases (env : Environment) (d : GusbDevice) (s : Probing) (p : ℕ) :
    (probeEndpoint env d s p).2.2 = -1 ∧ (env.Succeeds →
        s.tree.getInterface s.interface = none) ∨
      ∃ number alt, s.tree.getInterface s.interface = some (number, alt) ∧
        (probeEndpoint env d s p).2 = ({ s with tree := s.tree.addEndpoint number alt p }, 0) ∧
        (probeEndpoint env d s p).1.endpoints = d.endpoints.define (s.tree.raw.endpoint p) := by
  unfold probeEndpoint GusbDevice.allocate
  cases hrecord : s.tree.getInterface s.interface with
  | none => exact Or.inl ⟨rfl, fun _ => rfl⟩
  | some record =>
      obtain ⟨number, alt⟩ := record
      dsimp only
      split
      next => exact Or.inr ⟨number, alt, rfl, rfl, rfl⟩
      next hfailed => exact Or.inl ⟨rfl, fun hs => absurd (hs.1 _) hfailed⟩

theorem probeHid_cases (env : Environment) (d : GusbDevice) (s : Probing) (p : ℕ) :
    (probeHid env d s p).2.2 = -1 ∧ (env.Succeeds →
        s.tree.getInterface s.interface = none) ∨
      ∃ number alt, s.tree.getInterface s.interface = some (number, alt) ∧
        (probeHid env d s p).2 =
          (if s.tree.raw.bInterfaceClass (s.tree.descriptorAt number alt) = libusbClassHid then
            { s with tree := s.tree.setHid number alt p } else s, 0) ∧
        (probeHid env d s p).1.endpoints = d.endpoints := by
  unfold probeHid GusbDevice.allocate GusbDevice.controlTransfer
  cases hrecord : s.tree.getInterface s.interface with
  | none => exact Or.inl ⟨rfl, fun _ => rfl⟩
  | some record =>
      obtain ⟨number, alt⟩ := record
      dsimp only
      split
      next hclass => exact Or.inr ⟨number, alt, rfl, by rw [if_neg hclass], rfl⟩
      next hclass =>
        rw [not_not] at hclass
        split
        next => exact Or.inr ⟨number, alt, rfl, by rw [if_pos hclass], rfl⟩
        next i =>
          split
          next =>
            cases hreply : env.reply d.transfers with
            | none => exact Or.inl ⟨rfl, fun hs => absurd hreply (hs.2 _)⟩
            | some data =>
                dsimp only [Option.map_some]
                rw [addOther_ret, addOther_endpoints]
                split
                next => exact Or.inr ⟨number, alt, rfl, by rw [if_pos hclass], rfl⟩
                next hfailed => exact Or.inl ⟨rfl, fun hs => absurd (hs.1 _) hfailed⟩
          next hfailed => exact Or.inl ⟨rfl, fun hs => absurd (hs.1 _) hfailed⟩

def EndpointInfos.handle (raw : RawConfiguration) (t : EndpointInfos) (p : ℕ) : EndpointInfos :=
  if raw.bDescriptorType p = libusbDtEndpoint then t.define (raw.endpoint p) else t

/-- An iteration returns -1, or the descriptor is accepted and handled. When every call
succeeds, it returns -1 for a descriptor that is not accepted only. -/
theorem probeDescriptor_cases (env : Environment) (d : GusbDevice) (s : Probing) (p : ℕ) :
    (probeDescriptor env d s p).2.2 = -1 ∧ (env.Succeeds → ¬ s.Accepts p) ∨
      (probeDescriptor env d s p).2 = (s.handle p, 0) ∧ s.Accepts p ∧
        (probeDescriptor env d s p).1.endpoints = d.endpoints.handle s.tree.raw p := by
  unfold probeDescriptor Probing.Accepts Probing.handle EndpointInfos.handle
  by_cases hinterface : s.tree.raw.bDescriptorType p = libusbDtInterface
  · have hendpoint : s.tree.raw.bDescriptorType p ≠ libusbDtEndpoint := by
      rw [hinterface]
      decide
    rw [if_pos hinterface, if_pos hinterface, if_pos hinterface, if_neg hendpoint]
    exact probeInterface_cases env d s p
  · rw [if_neg hinterface, if_neg hinterface, if_neg hinterface]
    by_cases hendpoint : s.tree.raw.bDescriptorType p = libusbDtEndpoint
    · rw [if_pos hendpoint, if_pos (Or.inl hendpoint), if_pos hendpoint]
      rcases probeEndpoint_cases env d s p with
        ⟨hret, hnone⟩ | ⟨number, alt, hrecord, hret, hinfos⟩
      · exact Or.inl ⟨hret, fun hs => not_not.2 (hnone hs)⟩
      · rw [hrecord]
        dsimp only
        rw [if_pos hendpoint]
        exact Or.inr ⟨hret, Option.some_ne_none _, hinfos⟩
    · rw [if_neg hendpoint, if_neg hendpoint]
      by_cases hhid : s.tree.raw.bDescriptorType p = libusbDtHid
      · rw [if_pos hhid, if_pos (Or.inr hhid)]
        rcases probeHid_cases env d s p with
          ⟨hret, hnone⟩ | ⟨number, alt, hrecord, hret, hinfos⟩
        · exact Or.inl ⟨hret, fun hs => not_not.2 (hnone hs)⟩
        · rw [hrecord]
          dsimp only
          rw [if_neg hendpoint]
          refine Or.inr ⟨hret.trans ?_, Option.some_ne_none _, hinfos⟩
          simp only [hhid, true_and]
      · have hother : ¬ (s.tree.raw.bDescriptorType p = libusbDtEndpoint ∨
            s.tree.raw.bDescriptorType p = libusbDtHid) := not_or.2 ⟨hendpoint, hhid⟩
        rw [if_neg hhid, if_neg hother]
        refine Or.inr ⟨?_, trivial, rfl⟩
        split
        · rfl
        · rw [if_neg hendpoint, if_neg fun h => hhid h.1]

end Spec

end SerialUsb
