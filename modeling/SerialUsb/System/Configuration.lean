import SerialUsb.Firmware.Descriptors
import SerialUsb.Firmware.Outputs
import SerialUsb.Transition.Run

/-!
# The OUT endpoint list over whole runs

The USB device side of the firmware as far as the list of OUT endpoints depends on
it: the requests and interrupts of the target host that set the device state, and
the iterations of `ReceiveNextOutput`. Every accepted SET_CONFIGURATION appends
the OUT entries to the list, which nothing ever empties.
-/

namespace SerialUsb

open Memory Transition

inductive DeviceState where
  | unattached
  | powered
  | default
  | addressed
  | configured
  | suspended
  deriving DecidableEq, Repr

/-- The firmware behind `USB_Init`. `changed` records that
`EVENT_USB_Device_ConfigurationChanged` has run. -/
structure Device where
  upload : Upload
  outputs : Outputs
  deviceState : DeviceState
  configurationNumber : UInt8
  addressSet : Bool
  changed : Bool

def Device.boot (u : Upload) : Device where
  upload := u
  outputs := Outputs.boot
  deviceState := .unattached
  configurationNumber := 0
  addressSet := false
  changed := false

/-- `DevDescriptorPtr->NumberOfConfigurations`, the last byte of the device
descriptor; `none` when there is no device descriptor. -/
def Device.numberOfConfigurations (d : Device) : Option UInt8 :=
  match callbackUsbGetDescriptor d.upload 0x0100 0 with
  | (wLength, some offset) =>
      if wLength = 0 then none else some (d.upload.descriptors.toList.getD (offset.toNat + 17) 0)
  | (_, none) => none

def Device.accepts (d : Device) (wValue : UInt16) : Bool :=
  match d.numberOfConfigurations with
  | none => false
  | some n => wValue.toUInt8 ≤ n

def Device.setConfiguration (d : Device) (wValue : UInt16) : Device :=
  if d.accepts wValue then
    { d with
      configurationNumber := wValue.toUInt8
      deviceState :=
        if wValue.toUInt8 ≠ 0 ∨ d.addressSet then .configured else .powered
      outputs := configurationChanged d.upload d.outputs
      changed := true }
  else d

inductive DeviceEvent where
  /-- a SET_CONFIGURATION request is processed -/
  | setConfiguration (wValue : UInt16)
  /-- a SET_ADDRESS request is processed -/
  | setAddress (wValue : UInt16)
  /-- the USB interrupt: VBUS, reset, suspend, wake-up -/
  | vbus (present : Bool)
  | reset
  | suspend
  | wakeUp
  /-- an iteration of `ReceiveNextOutput` in `ENDPOINT_Task` -/
  | receiveNextOutput
  deriving DecidableEq

/-- A request is only processed by a device that is attached, and `ENDPOINT_Task`
does nothing unless the device is configured. -/
def Device.next (d : Device) : DeviceEvent → Option Device
  | .setConfiguration wValue =>
      if d.deviceState = .unattached then none else some (d.setConfiguration wValue)
  | .setAddress wValue =>
      if d.deviceState = .unattached then none
      else some { d with
        addressSet := true
        deviceState := if wValue &&& 0x7f = 0 then .default else .addressed }
  | .vbus present => some { d with deviceState := if present then .powered else .unattached }
  | .reset => some { d with deviceState := .default, configurationNumber := 0, addressSet := false }
  | .suspend => some { d with deviceState := .suspended }
  | .wakeUp => some { d with
      deviceState :=
        if d.configurationNumber ≠ 0 then .configured
        else if d.addressSet then .addressed else .powered }
  | .receiveNextOutput =>
      if d.deviceState = .configured then some { d with outputs := d.outputs.selectNext.1 }
      else none

/-- The list holds the index of each OUT entry once and nothing else, it fits its
array, and the cursor is inside of it. -/
structure Outputs.Lists (o : Outputs) (cs : List EndpointConfig) : Prop where
  number_le : o.outEndpointNumber.toNat ≤ maxEndpoints
  nodup : o.listed.Nodup
  mem_iff : ∀ i : UInt8, i ∈ o.listed ↔ IsOutEntry cs i.toNat
  selected_lt : o.outEndpointNumber ≠ 0 → o.selectedOutEndpoint < o.outEndpointNumber

/-- Once configured, the list is the list of the OUT entries. -/
def Device.ListsOutputs (d : Device) : Prop :=
  d.changed = true → d.outputs.Lists d.upload.configs

/-- A SET_CONFIGURATION request that is accepted finds an empty list. -/
def Device.AppendsOnce (d : Device) : DeviceEvent → Prop
  | .setConfiguration wValue => d.accepts wValue = true → d.outputs.outEndpointNumber = 0
  | _ => True

instance (d : Device) (e : DeviceEvent) : Decidable (d.AppendsOnce e) :=
  match e with
  | .setConfiguration wValue =>
      inferInstanceAs (Decidable (d.accepts wValue = true → d.outputs.outEndpointNumber = 0))
  | .setAddress _ | .vbus _ | .reset | .suspend | .wakeUp | .receiveNextOutput => isTrue trivial

def Device.Fresh (d : Device) : Prop :=
  d.changed = false → d.outputs.outEndpointNumber = 0 ∧ d.outputs.selectedOutEndpoint = 0

theorem Outputs.length_listed {o : Outputs} (h : o.outEndpointNumber.toNat ≤ maxEndpoints) :
    o.listed.length = o.outEndpointNumber.toNat := by
  rw [Outputs.listed, List.length_take, Vector.length_toList]
  exact Nat.min_eq_left h

theorem configurationChanged_spec (u : Upload) {o : Outputs}
    (h : o.outEndpointNumber.toNat ≤ maxEndpoints) :
    (configurationChanged u o).outEndpointNumber.toNat =
        o.outEndpointNumber.toNat + (outputIndices 0 u.configs).length ∧
      (configurationChanged u o).selectedOutEndpoint = o.selectedOutEndpoint ∧
      (o.outEndpointNumber.toNat + (outputIndices 0 u.configs).length ≤ maxEndpoints →
        (configurationChanged u o).listed = o.listed ++ outputIndices 0 u.configs) := by
  have hle := length_outputIndices_le 0 u.configs
  rw [u.length_configs] at hle
  rw [maxEndpoints_eq] at hle h
  exact configurationChangedFrom_spec o 0 u.configs (by omega)

theorem Upload.nodup_outputIndices (u : Upload) : (outputIndices 0 u.configs).Nodup := by
  apply SerialUsb.nodup_outputIndices
  rw [u.length_configs]
  decide

theorem Upload.mem_outputIndices (u : Upload) (i : UInt8) :
    i ∈ outputIndices 0 u.configs ↔ IsOutEntry u.configs i.toNat := by
  have hlen : (0 : UInt8).toNat + u.configs.length < 256 := by
    rw [u.length_configs]
    decide
  rw [SerialUsb.mem_outputIndices hlen]
  constructor
  · rintro ⟨k, hk, hentry⟩
    rw [hk]
    simpa using hentry
  · exact fun hentry => ⟨i.toNat, (Nat.zero_add _).symm, hentry⟩

theorem Outputs.lists_of_empty (u : Upload) {o : Outputs} (h : o.outEndpointNumber = 0)
    (hselected : o.selectedOutEndpoint = 0 ∨ outputIndices 0 u.configs = []) :
    (configurationChanged u o).Lists u.configs := by
  have hzero : o.outEndpointNumber.toNat = 0 := congrArg UInt8.toNat h
  have hle := length_outputIndices_le 0 u.configs
  rw [u.length_configs] at hle
  obtain ⟨hnumber, hselected', hlisted⟩ := configurationChanged_spec u
    (show o.outEndpointNumber.toNat ≤ maxEndpoints by rw [hzero]; exact Nat.zero_le _)
  have hlist : (configurationChanged u o).listed = outputIndices 0 u.configs := by
    rw [hlisted (by omega), Outputs.listed, hzero, List.take_zero, List.nil_append]
  refine ⟨by omega, ?_, ?_, fun hne => ?_⟩
  · rw [hlist]
    exact u.nodup_outputIndices
  · rw [hlist]
    exact u.mem_outputIndices
  · have hpos : (configurationChanged u o).outEndpointNumber.toNat ≠ 0 :=
      fun hz => hne (UInt8.toNat_inj.1 hz)
    rcases hselected with hselected | hnil
    · rw [hselected', hselected]
      exact Nat.pos_of_ne_zero hpos
    · rw [hnil, List.length_nil] at hnumber
      omega

/-- A list that holds OUT entries already holds each of them twice afterwards, or
no longer fits. -/
theorem Outputs.not_lists_of_lists {u : Upload} {o : Outputs} (h : o.Lists u.configs)
    (hne : o.outEndpointNumber ≠ 0) : ¬ (configurationChanged u o).Lists u.configs := by
  intro h'
  have hlen := Outputs.length_listed h.number_le
  have hpos : o.outEndpointNumber.toNat ≠ 0 := fun hz => hne (UInt8.toNat_inj.1 hz)
  obtain ⟨i, hi⟩ : ∃ i, i ∈ o.listed := by
    apply List.exists_mem_of_length_pos
    omega
  have hout : i ∈ outputIndices 0 u.configs := by
    rw [u.mem_outputIndices]
    exact (h.mem_iff i).1 hi
  obtain ⟨hnumber, _, hlisted⟩ := configurationChanged_spec u h.number_le
  have hnodup := h'.nodup
  rw [hlisted (hnumber ▸ h'.number_le)] at hnodup
  exact (List.nodup_append.1 hnodup).2.2 i hi i hout rfl

theorem Outputs.Lists.selectNext {o : Outputs} {cs : List EndpointConfig} (h : o.Lists cs) :
    o.selectNext.1.Lists cs := by
  unfold Outputs.selectNext
  split
  next hpos =>
    refine ⟨h.number_le, h.nodup, h.mem_iff, fun hne => ?_⟩
    have hlt : o.selectedOutEndpoint.toNat < o.outEndpointNumber.toNat := h.selected_lt hne
    have hbound := o.outEndpointNumber.toNat_lt
    have hnext : (o.selectedOutEndpoint + 1).toNat = o.selectedOutEndpoint.toNat + 1 := by
      rw [UInt8.toNat_add]
      change (o.selectedOutEndpoint.toNat + 1) % 256 = _
      omega
    dsimp only
    split
    · exact hpos
    next hend =>
      have hend' : (o.selectedOutEndpoint + 1).toNat ≠ o.outEndpointNumber.toNat :=
        fun heq => hend (UInt8.toNat_inj.1 heq)
      change (o.selectedOutEndpoint + 1).toNat < o.outEndpointNumber.toNat
      omega
  next => exact h

/-- What a step does to the list: an accepted SET_CONFIGURATION appends to it, an
iteration moves the cursor, everything else leaves it alone. -/
theorem Device.next_cases {d d' : Device} {e : DeviceEvent} (h : d.next e = some d') :
    d'.upload = d.upload ∧
    ((∃ wValue, e = .setConfiguration wValue ∧ d.accepts wValue = true ∧
        d'.outputs = configurationChanged d.upload d.outputs ∧ d'.changed = true) ∨
      ((∀ wValue, e = .setConfiguration wValue → d.accepts wValue = false) ∧
        d'.changed = d.changed ∧
        (d'.outputs = d.outputs ∨ d'.outputs = d.outputs.selectNext.1))) := by
  cases e with
  | setConfiguration wValue =>
      simp only [Device.next] at h
      split at h
      next => exact absurd h (by simp)
      next =>
        obtain rfl := Option.some.inj h
        by_cases haccepts : d.accepts wValue = true
        · rw [Device.setConfiguration, if_pos haccepts]
          exact ⟨rfl, Or.inl ⟨wValue, rfl, haccepts, rfl, rfl⟩⟩
        · rw [Device.setConfiguration, if_neg haccepts]
          refine ⟨rfl, Or.inr ⟨?_, rfl, Or.inl rfl⟩⟩
          rintro _ ⟨⟩
          exact Bool.eq_false_of_not_eq_true haccepts
  | setAddress wValue =>
      simp only [Device.next] at h
      split at h
      next => exact absurd h (by simp)
      next =>
        obtain rfl := Option.some.inj h
        exact ⟨rfl, Or.inr ⟨by simp, rfl, Or.inl rfl⟩⟩
  | receiveNextOutput =>
      simp only [Device.next] at h
      split at h
      next =>
        obtain rfl := Option.some.inj h
        exact ⟨rfl, Or.inr ⟨by simp, rfl, Or.inr rfl⟩⟩
      next => exact absurd h (by simp)
  | _ =>
      obtain rfl := Option.some.inj h
      exact ⟨rfl, Or.inr ⟨by simp, rfl, Or.inl rfl⟩⟩

theorem Device.Fresh.next {d d' : Device} {e : DeviceEvent} (hfresh : d.Fresh)
    (h : d.next e = some d') : d'.Fresh := by
  intro hchanged
  obtain ⟨_, ⟨_, _, _, _, htrue⟩ | ⟨_, hsame, houtputs⟩⟩ := Device.next_cases h
  · exact absurd (htrue.symm.trans hchanged) (by decide)
  · obtain ⟨hnumber, hselected⟩ := hfresh (hsame.symm.trans hchanged)
    rcases houtputs with houtputs | houtputs
    · rw [houtputs]
      exact ⟨hnumber, hselected⟩
    · rw [houtputs, Outputs.selectNext, hnumber, if_neg (by decide)]
      exact ⟨hnumber, hselected⟩

/-- A step keeps the list right exactly when it appends to an empty list only. -/
theorem Device.listsOutputs_next {d d' : Device} {e : DeviceEvent} (hfresh : d.Fresh)
    (hlists : d.ListsOutputs) (h : d.next e = some d') :
    d'.ListsOutputs ↔ d.AppendsOnce e := by
  obtain ⟨hupload, ⟨wValue, rfl, haccepts, houtputs, hchanged⟩ | ⟨hnot, hsame, houtputs⟩⟩ :=
    Device.next_cases h
  · have honce : d.AppendsOnce (.setConfiguration wValue) ↔ d.outputs.outEndpointNumber = 0 :=
      ⟨fun hc => hc haccepts, fun hz _ => hz⟩
    rw [honce, Device.ListsOutputs, hupload, houtputs, hchanged]
    by_cases hzero : d.outputs.outEndpointNumber = 0
    · refine iff_of_true (fun _ => Outputs.lists_of_empty d.upload hzero ?_) hzero
      cases hbefore : d.changed with
      | false => exact Or.inl (hfresh hbefore).2
      | true =>
          -- configured with an empty list: there is no OUT entry at all
          right
          have hmem := (hlists hbefore).mem_iff
          apply List.eq_nil_iff_forall_not_mem.2
          intro i hi
          rw [d.upload.mem_outputIndices, ← hmem i, Outputs.listed, hzero] at hi
          exact absurd hi (by simp)
    · refine iff_of_false (fun hafter => ?_) hzero
      have hbefore : d.changed = true := by
        by_contra hbefore
        exact hzero (hfresh (Bool.eq_false_of_not_eq_true hbefore)).1
      exact Outputs.not_lists_of_lists (hlists hbefore) hzero (hafter rfl)
  · refine iff_of_true (fun hchanged => ?_) ?_
    · have hbefore := hlists (hsame.symm.trans hchanged)
      rw [hupload]
      rcases houtputs with houtputs | houtputs
      · rwa [houtputs]
      · rw [houtputs]
        exact hbefore.selectNext
    · cases e with
      | setConfiguration wValue =>
          intro haccepts
          exact absurd ((hnot wValue rfl).symm.trans haccepts) (by decide)
      | _ => trivial

theorem Device.fresh_boot (u : Upload) : (Device.boot u).Fresh := fun _ => ⟨rfl, rfl⟩

theorem Device.listsOutputs_boot (u : Upload) : (Device.boot u).ListsOutputs :=
  fun h => absurd h Bool.false_ne_true

/-- Whatever endpoint table was uploaded, a run of the device keeps the list of the
OUT endpoints right in every state exactly when each accepted SET_CONFIGURATION
of the run finds the list empty. -/
theorem outEndpoints_lists_iff (u : Upload) {es : List DeviceEvent} {d : Device}
    (hrun : exec Device.next (Device.boot u) es = some d) :
    Always Device.next Device.ListsOutputs (Device.boot u) es ↔
      Along Device.next Device.AppendsOnce (Device.boot u) es :=
  always_iff_along (I := Device.Fresh) (fun _ _ _ hfresh _ h => hfresh.next h)
    (fun _ _ _ hfresh hlists h => Device.listsOutputs_next hfresh hlists h)
    (Device.fresh_boot u) (Device.listsOutputs_boot u) hrun

def uploadOfOut1 : Upload where
  descriptors := Vector.ofFn fun i => if i.val = 17 then 1 else 0
  descIndex := copyAt (Vector.replicate _ 0) 0 [0, 0, 0, 1, 0, 0, 18, 0]
  endpoints := copyAt (Vector.replicate _ 0) 0 [1, 3, 8]
  pdesc := 18
  pindex := 8
  started := true
  overrun := false

theorem outEndpoints_lists_once :
    Always Device.next Device.ListsOutputs (Device.boot uploadOfOut1)
      [.vbus true, .reset, .setAddress 5, .setConfiguration 1, .receiveNextOutput] := by
  have hrun : (exec Device.next (Device.boot uploadOfOut1)
      [.vbus true, .reset, .setAddress 5, .setConfiguration 1, .receiveNextOutput]).isSome := by
    decide +kernel
  obtain ⟨d, hd⟩ := Option.isSome_iff_exists.1 hrun
  exact (outEndpoints_lists_iff uploadOfOut1 hd).2 (by decide +kernel)

/-- The target host configures the device, resets the bus and configures it again:
the list holds its one OUT endpoint twice. -/
theorem outEndpoints_twice :
    ∃ d, exec Device.next (Device.boot uploadOfOut1)
        [.vbus true, .setAddress 5, .setConfiguration 1, .reset, .setAddress 6,
          .setConfiguration 1] = some d ∧
      d.outputs.listed = [0, 0] ∧ ¬ d.ListsOutputs := by
  have hrun : ((exec Device.next (Device.boot uploadOfOut1)
      [.vbus true, .setAddress 5, .setConfiguration 1, .reset, .setAddress 6,
        .setConfiguration 1]).map fun d => (d.changed, d.outputs.listed)) =
      some (true, [0, 0]) := by
    decide +kernel
  obtain ⟨d, hd, heq⟩ := Option.map_eq_some_iff.1 hrun
  obtain ⟨hchanged, hlisted⟩ := Prod.mk.inj heq
  refine ⟨d, hd, hlisted, fun hlists => ?_⟩
  have hnodup := (hlists hchanged).nodup
  rw [hlisted] at hnodup
  exact absurd hnodup (by decide)

end SerialUsb
