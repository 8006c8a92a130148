import SerialUsb.Firmware.EndpointRegisters
import SerialUsb.Proxy.EndpointMaps
import SerialUsb.Proxy.Served
import SerialUsb.System.Configuration

/-!
# The endpoints over whole runs

The device side of the firmware together with the registers of the controller. The control
endpoint is configured by `USB_Init_Device` and by each bus reset, where the controller may
have taken back any endpoints; the others are configured by
`EVENT_USB_Device_ConfigurationChanged`, which does not look at what the calls return.
-/

namespace SerialUsb

open Memory Transition

/-- `USB_Device_ControlEndpointSize` behind `USB_Init_Device`: `Endpoint0Size` of the device
descriptor, or `ENDPOINT_CONTROLEP_DEFAULT_SIZE`. -/
def Upload.controlEndpointSize (u : Upload) : UInt8 :=
  match callbackUsbGetDescriptor u 0x0100 0 with
  | (wLength, some offset) =>
      if wLength = 0 then 8 else u.descriptors.toList.getD (offset.toNat + 7) 0
  | (_, none) => 8

def Controller.reset : Controller := ⟨0, fun _ => ⟨false, 0, 0, 0⟩, []⟩

def Controller.clear (c : Controller) (cleared : List ℕ) : Controller :=
  { c with
    registers := fun n => if n ∈ cleared then ⟨false, 0, 0, 0⟩ else c.registers n
    allocations := c.allocations.filter (· ∉ cleared) }

def configureControlEndpoint (cfgok : Controller → Bool) (c : Controller) (u : Upload) :
    Controller × Bool :=
  endpointConfigureEndpoint cfgok c 0 0 u.controlEndpointSize 1

/-- The device and the registers; `failed` records that `Endpoint_IsConfigured` was false. -/
structure EndpointSetup where
  device : Device
  controller : Controller
  failed : Bool

def EndpointSetup.start (cfgok : Controller → Bool) (u : Upload) : EndpointSetup :=
  let (c, ok) := configureControlEndpoint cfgok .reset u
  ⟨Device.boot u, c, !ok⟩

/-- A step of the device; at a bus reset the controller takes back the endpoints `cleared`. -/
def EndpointSetup.next (cfgok : Controller → Bool) (s : EndpointSetup) :
    DeviceEvent × List ℕ → Option EndpointSetup
  | (e, cleared) =>
      (s.device.next e).map fun device =>
        match e with
        | .reset =>
            let (c, ok) :=
              configureControlEndpoint cfgok (s.controller.clear cleared) s.device.upload
            ⟨device, c, s.failed || !ok⟩
        | .setConfiguration wValue =>
            if s.device.accepts wValue then
              let (c, ok) := configureEndpoints cfgok s.controller s.device.upload.configs
              ⟨device, c, s.failed || !ok⟩
            else ⟨device, s.controller, s.failed⟩
        | _ => ⟨device, s.controller, s.failed⟩

/-- The entries of a table that the firmware can configure one beside the other: interrupt
endpoints with different numbers from 1 on. -/
structure Configurable (es : List EndpointConfig) : Prop where
  types : ∀ e ∈ es, e.type = epTypeInterrupt
  numbers : ∀ e ∈ es, endpointNumber e.number ≠ 0
  nodup : (es.map fun e => endpointNumber e.number).Nodup

def EndpointConfig.registers (e : EndpointConfig) : EndpointRegisters :=
  endpointRegisters e.number e.type e.size 1

section Calls

variable {cfgok : Controller → Bool} {c c' : Controller}

theorem Controller.ordered_reset : Controller.reset.Ordered := by
  refine ⟨List.Pairwise.nil, fun n => ?_, fun n hn => ?_⟩
  · simp [Controller.reset, EndpointRegisters.Allocated]
  · exact absurd (UInt8.zero_and : (0 : UInt8) &&& alloc = 0) hn

theorem Controller.Ordered.clear (h : c.Ordered) (cleared : List ℕ) :
    (c.clear cleared).Ordered := by
  have hnone : ¬ (⟨false, 0, 0, 0⟩ : EndpointRegisters).Allocated :=
    fun hn => hn UInt8.zero_and
  refine ⟨h.sorted.filter _, fun n => ?_, fun n hn => ?_⟩
  · by_cases hcleared : n ∈ cleared
    · simp [Controller.clear, hcleared, hnone]
    · simp [Controller.clear, hcleared, h.mem_iff]
  · by_cases hcleared : n ∈ cleared
    · simp [Controller.clear, hcleared, hnone] at hn
    · simp [Controller.clear, hcleared] at hn ⊢
      exact h.epen n hn

theorem Controller.Ordered.configures {es : List EndpointConfig} {k : ℕ}
    (h : c.Ordered) (hes : Configurable es)
    (hcall : configureEndpoints cfgok c (es ++ List.replicate k ⟨0, 0, 0⟩) =
      (c', true)) :
    c'.Ordered ∧ (∀ e ∈ es, c'.registers (endpointNumber e.number) = e.registers) ∧
      ∀ n, (∀ e ∈ es, endpointNumber e.number ≠ n) → c'.registers n = c.registers n := by
  induction es generalizing c with
  | nil =>
      have hend : configureEndpoints cfgok c (List.replicate k ⟨0, 0, 0⟩) =
          (c, true) := by
        cases k with
        | zero => rfl
        | succ k => rw [List.replicate_succ, configureEndpoints, if_pos rfl]
      rw [List.nil_append, hend] at hcall
      obtain rfl := (Prod.mk.inj hcall).1
      exact ⟨h, by simp, fun _ _ => rfl⟩
  | cons e es ih =>
      have hnumber := hes.numbers e List.mem_cons_self
      have hne : e.number ≠ 0 := ne_zero_of_endpointNumber hnumber
      have htype := hes.types e List.mem_cons_self
      have hnodup := hes.nodup
      rw [List.map_cons, List.nodup_cons] at hnodup
      have hrest : Configurable es :=
        ⟨fun e he => hes.types e (List.mem_cons_of_mem _ he),
          fun e he => hes.numbers e (List.mem_cons_of_mem _ he), hnodup.2⟩
      have hother : ∀ e' ∈ es, endpointNumber e'.number ≠ endpointNumber e.number :=
        fun e' he' heq => hnodup.1 (heq ▸ List.mem_map_of_mem he')
      rw [List.cons_append, configureEndpoints, if_neg hne, if_pos htype] at hcall
      dsimp only at hcall
      obtain ⟨hc', hok⟩ := Prod.mk.inj hcall
      rw [Bool.and_eq_true] at hok
      have hfirst : endpointConfigureEndpoint cfgok c e.number e.type e.size 1 =
          ((endpointConfigureEndpoint cfgok c e.number e.type e.size 1).1, true) :=
        Prod.ext rfl hok.1
      obtain ⟨hordered, hregisters⟩ := h.configured hfirst
      obtain ⟨hordered', hentries, hothers⟩ := ih hordered hrest (Prod.ext hc' hok.2)
      refine ⟨hordered', List.forall_mem_cons.2 ⟨?_, hentries⟩, fun n hn => ?_⟩
      · rw [hothers _ hother, hregisters, Function.update_self]
        rfl
      · rw [List.forall_mem_cons] at hn
        rw [hothers n hn.2, hregisters, Function.update_of_ne hn.1.symm]

end Calls

structure EndpointSetup.Inv (u : Upload) (es : List EndpointConfig) (s : EndpointSetup) :
    Prop where
  upload : s.device.upload = u
  ordered : s.controller.Ordered
  control : s.controller.registers 0 = endpointRegisters 0 0 u.controlEndpointSize 1
  configured : s.device.configurationNumber ≠ 0 ∨ s.device.deviceState = .configured →
    ∀ e ∈ es, s.controller.registers (endpointNumber e.number) = e.registers

section Step

variable {cfgok : Controller → Bool} {u : Upload} {es : List EndpointConfig} {k : ℕ}
  {s s' : EndpointSetup}

theorem Controller.Ordered.configuresControl {c c' : Controller} (h : c.Ordered)
    (hcall : configureControlEndpoint cfgok c u = (c', true)) :
    c'.Ordered ∧ c'.registers 0 = endpointRegisters 0 0 u.controlEndpointSize 1 := by
  obtain ⟨hordered, hregisters⟩ := h.configured hcall
  refine ⟨hordered, ?_⟩
  rw [hregisters]
  exact Function.update_self ..

theorem Device.configured_next {d d' : Device} {e : DeviceEvent} (h : d.next e = some d')
    (hnot : ∀ wValue, e = .setConfiguration wValue → d.accepts wValue = false)
    (hconfigured : d'.configurationNumber ≠ 0 ∨ d'.deviceState = .configured) :
    e ≠ .reset ∧ (d.configurationNumber ≠ 0 ∨ d.deviceState = .configured) := by
  cases e with
  | setConfiguration wValue =>
      simp only [Device.next] at h
      split at h
      · exact absurd h (by simp)
      · obtain rfl := Option.some.inj h
        have hrefused := hnot wValue rfl
        rw [Device.setConfiguration, hrefused, if_neg Bool.false_ne_true] at hconfigured
        exact ⟨by simp, hconfigured⟩
  | setAddress wValue =>
      simp only [Device.next] at h
      split at h
      · exact absurd h (by simp)
      · obtain rfl := Option.some.inj h
        refine ⟨by simp, hconfigured.imp id fun hstate => ?_⟩
        dsimp only at hstate
        split at hstate <;> exact absurd hstate (by decide)
  | vbus present =>
      obtain rfl := Option.some.inj h
      refine ⟨by simp, hconfigured.imp id fun hstate => ?_⟩
      dsimp only at hstate
      split at hstate <;> exact absurd hstate (by decide)
  | reset =>
      obtain rfl := Option.some.inj h
      rcases hconfigured with hnumber | hstate
      · exact absurd rfl hnumber
      · exact absurd hstate (by simp)
  | suspend =>
      obtain rfl := Option.some.inj h
      refine ⟨by simp, hconfigured.imp id fun hstate => ?_⟩
      exact absurd hstate (by simp)
  | wakeUp =>
      obtain rfl := Option.some.inj h
      refine ⟨by simp, ?_⟩
      by_cases hnumber : d.configurationNumber ≠ 0
      · exact Or.inl hnumber
      · refine hconfigured.imp id fun hstate => ?_
        dsimp only at hstate
        rw [if_neg hnumber] at hstate
        split at hstate <;> exact absurd hstate (by decide)
  | receiveNextOutput =>
      simp only [Device.next] at h
      split at h
      · obtain rfl := Option.some.inj h
        exact ⟨by simp, hconfigured⟩
      · exact absurd h (by simp)

theorem EndpointSetup.Inv.next {e : DeviceEvent × List ℕ}
    (hconfigs : u.configs = es ++ List.replicate k ⟨0, 0, 0⟩) (hes : Configurable es)
    (h : s.failed = false → s.Inv u es) (hnext : s.next cfgok e = some s') :
    s'.failed = false → s'.Inv u es := by
  obtain ⟨e, cleared⟩ := e
  obtain ⟨device, hdevice, rfl⟩ := Option.map_eq_some_iff.1 hnext
  obtain ⟨hupload, hcases⟩ := Device.next_cases hdevice
  have hkeep : s.failed = false → (∀ wValue, e = .setConfiguration wValue →
      s.device.accepts wValue = false) →
      EndpointSetup.Inv u es ⟨device, s.controller, s.failed⟩ := by
    intro hok hnot
    have hinv := h hok
    exact ⟨hupload.trans hinv.upload, hinv.ordered, hinv.control, fun hconfigured =>
      hinv.configured (Device.configured_next hdevice hnot hconfigured).2⟩
  cases e with
  | setConfiguration wValue =>
      intro hok
      dsimp only at hok ⊢
      by_cases haccepts : s.device.accepts wValue = true
      · rw [if_pos haccepts] at hok ⊢
        rw [Bool.or_eq_false_iff, Bool.not_eq_false'] at hok
        have hinv := h hok.1
        rw [hinv.upload, hconfigs] at hok ⊢
        obtain ⟨hordered, hentries, hothers⟩ :=
          hinv.ordered.configures hes (Prod.ext rfl hok.2)
        refine ⟨hupload.trans hinv.upload, hordered, ?_, fun _ => hentries⟩
        exact (hothers 0 hes.numbers).trans hinv.control
      · rw [if_neg haccepts] at hok ⊢
        refine hkeep hok fun w hw => ?_
        obtain rfl := DeviceEvent.setConfiguration.inj hw
        exact Bool.eq_false_of_not_eq_true haccepts
  | reset =>
      intro hok
      dsimp only at hok ⊢
      rw [Bool.or_eq_false_iff, Bool.not_eq_false'] at hok
      have hinv := h hok.1
      rw [hinv.upload] at hok ⊢
      obtain ⟨hordered, hcontrol⟩ :=
        (hinv.ordered.clear cleared).configuresControl (Prod.ext rfl hok.2)
      refine ⟨hupload.trans hinv.upload, hordered, hcontrol, fun hconfigured => ?_⟩
      exact absurd rfl (Device.configured_next hdevice (by simp) hconfigured).1
  | setAddress wValue => exact fun hok => hkeep hok (by simp)
  | vbus present => exact fun hok => hkeep hok (by simp)
  | suspend => exact fun hok => hkeep hok (by simp)
  | wakeUp => exact fun hok => hkeep hok (by simp)
  | receiveNextOutput => exact fun hok => hkeep hok (by simp)

end Step

section Fixed

variable {c : Configuration}

def Configuration.entry (c : Configuration) (e : EndpointDescriptor × ℕ) : EndpointConfig :=
  ⟨targetAddress c.renumber e, e.1.xferType, e.1.wMaxPacketSize.toUInt8⟩

theorem fixEndpoints_endpoints (outside outside' : ℤ → UInt8) (c : Configuration)
    (cs : List Configuration) :
    (fixEndpoints (EndpointMaps.start outside outside') (c :: cs)).1.endpoints =
      c.configured.map c.entry := by
  have hloop := foldl_fixEndpoint_endpoints c.renumber c.endpoints
    (EndpointMaps.start outside outside') 0 (by cases c.renumber <;> rfl)
  obtain ⟨number, hrest⟩ := fixConfigurations_succ 0 cs
    (fixConfiguration 0 (EndpointMaps.start outside outside') c).1
  have hfix : (fixEndpoints (EndpointMaps.start outside outside') (c :: cs)).1 =
      (fixConfigurations 1 (fixConfiguration 0 (EndpointMaps.start outside outside') c).1 cs).1 :=
    rfl
  rw [hfix, hrest, fixConfiguration_fst]
  exact hloop.trans (List.nil_append _)

theorem Configuration.of_isConfigured {e : EndpointDescriptor × ℕ} (he : e ∈ c.configured) :
    e.1.xferType = epTypeInterrupt ∧ e.1.wMaxPacketSize.toNat ≤ maxPayloadSizeEp := by
  have hconfigured := (List.mem_filter.1 he).2
  unfold isConfigured at hconfigured
  obtain ⟨_, htype, hsize, _⟩ := of_decide_eq_true hconfigured
  exact ⟨htype, hsize⟩

/-- A configuration whose endpoints stay apart is one that the firmware can configure. -/
theorem Configuration.Distinct.configurable (h : c.Distinct) :
    Configurable (c.configured.map c.entry) := by
  obtain ⟨husable, _, hslots⟩ := c.distinct_iff.2 h
  have hmem : ∀ e ∈ c.configured,
      (e.1.bEndpointAddress, targetAddress c.renumber e) ∈ c.addresses :=
    fun e he => List.mem_map_of_mem (f := fun e => (_, targetAddress c.renumber e)) he
  constructor
  case types =>
    intro e he
    obtain ⟨x, hx, rfl⟩ := List.mem_map.1 he
    exact (of_isConfigured hx).1
  case numbers =>
    intro e he
    obtain ⟨x, hx, rfl⟩ := List.mem_map.1 he
    exact Nat.one_le_iff_ne_zero.1 (husable.numbers _ (hmem x hx)).1
  case nodup =>
    rw [addresses, List.map_map] at hslots
    rw [List.map_map]
    refine (nodup_map_congr fun x hx y hy => ?_).2 hslots
    have hx' := Nat.one_le_iff_ne_zero.1 (husable.numbers _ (hmem x hx)).1
    have hy' := Nat.one_le_iff_ne_zero.1 (husable.numbers _ (hmem y hy)).1
    refine Iff.symm ((slot_eq_iff hx' hy').trans ?_)
    rw [directionNumber, directionNumber, Prod.mk.injEq]
    exact ⟨And.right, fun heq => ⟨husable.directions _ (hmem x hx) _ (hmem y hy) heq, heq⟩⟩

theorem Configuration.Distinct.length_le (h : c.Distinct) :
    (c.configured.map c.entry).length ≤ maxEndpoints := by
  have hnodup := h.configurable.nodup
  have hsubset : ((c.configured.map c.entry).map fun e => endpointNumber e.number) ⊆
      List.range' 1 maxEndpoints := by
    intro n hn
    obtain ⟨e, he, rfl⟩ := List.mem_map.1 hn
    have hpos := Nat.one_le_iff_ne_zero.2 (h.configurable.numbers e he)
    obtain ⟨x, hx, rfl⟩ := List.mem_map.1 he
    have hle : endpointNumber (c.entry x).number ≤ maxEndpoints :=
      endpointNumber_targetAddress_le hx
    exact List.mem_range'_1.2 ⟨hpos, by omega⟩
  have hle := (hnodup.subperm hsubset).length_le
  rwa [List.length_map, List.length_range'] at hle

end Fixed

theorem EndpointSetup.exec_inv {cfgok : Controller → Bool} {u : Upload}
    {es : List EndpointConfig} {k : ℕ} (hconfigs : u.configs = es ++ List.replicate k ⟨0, 0, 0⟩)
    (hes : Configurable es) {events : List (DeviceEvent × List ℕ)} {s : EndpointSetup}
    (hrun : exec (EndpointSetup.next cfgok) (EndpointSetup.start cfgok u) events = some s) :
    s.failed = false → s.Inv u es := by
  refine exec_invariant (I := fun s => s.failed = false → s.Inv u es)
    (fun _ _ _ h hnext => EndpointSetup.Inv.next hconfigs hes h hnext) (fun hok => ?_) hrun
  rw [EndpointSetup.start, Bool.not_eq_false'] at hok
  obtain ⟨hordered, hcontrol⟩ := Controller.ordered_reset.configuresControl (Prod.ext rfl hok)
  refine ⟨rfl, hordered, hcontrol, fun hconfigured => ?_⟩
  rcases hconfigured with hnumber | hstate
  · exact absurd rfl hnumber
  · exact absurd hstate (by simp [EndpointSetup.start, Device.boot])

/-- The table of `fix_endpoints` for a first configuration whose endpoints stay apart, in every
state of every run in which `Endpoint_IsConfigured` was never false, whatever endpoints the
controller takes back at the bus resets:

* the bits ALLOC that are set have been set in the order of the endpoint numbers;
* the control endpoint has the size of the device descriptor;
* when the device is configured, each endpoint that `fix_endpoints` configures has an endpoint of
  the controller of its own, with its direction, enabled, and with a bank that has room for its
  packets. -/
theorem endpoints_configured (outside outside' : ℤ → UInt8) (c : Configuration)
    (cs : List Configuration) (hc : c.Distinct) {u : Upload}
    (hu : Filled u.endpoints ((fixEndpoints (EndpointMaps.start outside outside')
      (c :: cs)).1.endpoints.flatMap EndpointConfig.bytes)) {cfgok : Controller → Bool}
    {events : List (DeviceEvent × List ℕ)} {s : EndpointSetup}
    (hrun : exec (EndpointSetup.next cfgok) (EndpointSetup.start cfgok u) events = some s)
    (hok : s.failed = false) :
    s.controller.allocations.Pairwise (· < ·) ∧
      s.controller.registers 0 = endpointRegisters 0 0 u.controlEndpointSize 1 ∧
      (s.device.deviceState = .configured →
        (c.configured.map fun e => endpointNumber (targetAddress c.renumber e)).Nodup ∧
        ∀ e ∈ c.configured,
          let number := endpointNumber (targetAddress c.renumber e)
          s.controller.registers number =
              endpointRegisters e.1.bEndpointAddress epTypeInterrupt
                e.1.wMaxPacketSize.toUInt8 1 ∧
            number ∈ s.controller.allocations ∧
            e.1.wMaxPacketSize.toNat ≤ (s.controller.registers number).bankSize) := by
  rw [fixEndpoints_endpoints] at hu
  have hes := hc.configurable
  have hinv := EndpointSetup.exec_inv (Upload.configs_of_filled hu hc.length_le) hes hrun hok
  refine ⟨hinv.ordered.sorted, hinv.control, fun hstate => ⟨?_, fun e he => ?_⟩⟩
  · have hnodup := hes.nodup
    rw [List.map_map] at hnodup
    exact hnodup
  · obtain ⟨htype, hsize⟩ := Configuration.of_isConfigured he
    have hregisters : s.controller.registers (endpointNumber (targetAddress c.renumber e)) =
        endpointRegisters e.1.bEndpointAddress epTypeInterrupt e.1.wMaxPacketSize.toUInt8 1 := by
      refine (hinv.configured (Or.inr hstate) (c.entry e) (List.mem_map_of_mem he)).trans ?_
      rw [EndpointConfig.registers, Configuration.entry, htype, endpointRegisters,
        endpointIn_targetAddress he]
      rfl
    have hbyte : e.1.wMaxPacketSize.toUInt8.toNat = e.1.wMaxPacketSize.toNat := by
      rw [maxPayloadSizeEp_eq] at hsize
      rw [UInt16.toNat_toUInt8]
      omega
    dsimp only
    refine ⟨hregisters, (hinv.ordered.mem_iff _).2 ⟨?_, ?_⟩, ?_⟩
    · exact Nat.lt_succ_of_le (endpointNumber_targetAddress_le he)
    · rw [hregisters]
      exact allocated_endpointRegisters _ _ _ _
    · rw [hregisters, ← hbyte]
      exact (le_bankSize _ _ (hbyte ▸ hsize)).1

def inAndOut : Configuration where
  wTotalLength := 32
  raw := List.replicate 32 0
  interfaces := [⟨[⟨[⟨0x84, 3, 16⟩, ⟨0x04, 3, 64⟩]⟩]⟩]
  length_raw := List.length_replicate

def uploadOfInAndOut : Upload where
  descriptors := Vector.ofFn fun i => if i.val = 17 then 1 else if i.val = 7 then 8 else 0
  descIndex := copyAt (Vector.replicate _ 0) 0 [0, 0, 0, 1, 0, 0, 18, 0]
  endpoints := copyAt (Vector.replicate _ 0) 0 [0x81, 3, 16, 0x02, 3, 64]
  pdesc := 18
  pindex := 8
  started := true
  overrun := false

/-- It is configured, and again after a bus reset that takes back all of its endpoints. -/
theorem endpoints_configured_inAndOut :
    ∃ s, exec (EndpointSetup.next fun _ => true)
        (EndpointSetup.start (fun _ => true) uploadOfInAndOut)
        [(.vbus true, []), (.reset, []), (.setAddress 5, []), (.setConfiguration 1, []),
          (.reset, [1, 2]), (.setAddress 6, []), (.setConfiguration 1, [])] = some s ∧
      s.controller.allocations.Pairwise (· < ·) := by
  have hrun : ((exec (EndpointSetup.next fun _ => true)
      (EndpointSetup.start (fun _ => true) uploadOfInAndOut)
      [(.vbus true, []), (.reset, []), (.setAddress 5, []), (.setConfiguration 1, []),
        (.reset, [1, 2]), (.setAddress 6, []), (.setConfiguration 1, [])]).map fun s => s.failed) =
      some false := by
    decide +kernel
  obtain ⟨s, hs, hok⟩ := Option.map_eq_some_iff.1 hrun
  have hfilled : Filled uploadOfInAndOut.endpoints
      ((fixEndpoints (EndpointMaps.start 0 0) [inAndOut]).1.endpoints.flatMap
        EndpointConfig.bytes) := by
    unfold Filled
    decide +kernel
  exact ⟨s, hs, (endpoints_configured 0 0 inAndOut [] (by decide +kernel) hfilled hs hok).1⟩

end SerialUsb
