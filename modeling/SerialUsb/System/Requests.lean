import SerialUsb.Firmware.ControlRequest
import SerialUsb.System.DescriptorStore
import SerialUsb.System.EndpointSetup

/-!
# The requests of the target host

`USB_Device_ProcessControlRequest` with the handlers of the library. A request that none of
them handles is left to `EVENT_USB_Device_UnhandledControlRequest`, which forwards it to the
proxy. Which requests these are depends on the descriptors alone, whatever the host has asked
for before, and the other answers are those of a device with these descriptors.
-/

namespace SerialUsb

open Memory Transition

inductive StandardRequest where
  | reqGetStatus
  | reqClearFeature
  | reqSetFeature
  | reqSetAddress
  | reqGetDescriptor
  | reqGetConfiguration
  | reqSetConfiguration
  deriving DecidableEq, Repr

def StandardRequest.ofByte : UInt8 → Option StandardRequest
  | 0 => some .reqGetStatus
  | 1 => some .reqClearFeature
  | 3 => some .reqSetFeature
  | 5 => some .reqSetAddress
  | 6 => some .reqGetDescriptor
  | 8 => some .reqGetConfiguration
  | 9 => some .reqSetConfiguration
  | _ => none

inductive Answer where
  /-- the status stage alone -/
  | acknowledged
  /-- one packet -/
  | packet (data : List UInt8)
  /-- a call of `Endpoint_Write_Control_Stream_LE` -/
  | stream (buffer : List UInt8)
  deriving DecidableEq, Repr

/-- The device and the variables of the library. `stalled` has the bits STALLRQ of the
endpoints. -/
structure StandardDevice where
  setup : EndpointSetup
  remoteWakeupEnabled : Bool
  currentlySelfPowered : Bool
  stalled : ℕ → Bool

def StandardDevice.start (cfgok : Controller → Bool) (u : Upload) : StandardDevice :=
  ⟨EndpointSetup.start cfgok u, false, false, fun _ => false⟩

def ControlRequest.endpointIndex (r : ControlRequest) : ℕ := (r.wIndex.toUInt8 &&& 0x0f).toNat

def usbDeviceGetStatus (s : StandardDevice) (r : ControlRequest) : Option Answer :=
  if r.bmRequestType = 0x80 then
    some (.packet (le16 ((if s.currentlySelfPowered then 0x01 else 0) |||
      if s.remoteWakeupEnabled then 0x02 else 0)))
  else if r.bmRequestType = 0x82 then
    some (.packet (le16 (if s.stalled r.endpointIndex then 1 else 0)))
  else none

/-- `USB_Device_ClearSetFeature`; the data toggles and the FIFOs are no part of the state. -/
def usbDeviceClearSetFeature (s : StandardDevice) (r : ControlRequest) :
    StandardDevice × Option Answer :=
  let set := StandardRequest.ofByte r.bRequest == some .reqSetFeature
  match r.bmRequestType &&& 0x1f with
  | 0 =>
      if r.wValue.toUInt8 = 0x01 then ({ s with remoteWakeupEnabled := set }, some .acknowledged)
      else (s, none)
  | 2 =>
      if r.wValue.toUInt8 = 0x00 then
        if r.endpointIndex = 0 then (s, none)
        else if (s.setup.controller.registers r.endpointIndex).epen then
          ({ s with stalled := Function.update s.stalled r.endpointIndex set },
            some .acknowledged)
        else (s, some .acknowledged)
      else (s, some .acknowledged)
  | _ => (s, none)

def usbDeviceGetDescriptor (u : Upload) (r : ControlRequest) : Option Answer :=
  match callbackUsbGetDescriptor u r.wValue r.wIndex with
  | (wLength, some offset) =>
      if wLength = 0 then none else some (.stream (u.bytesAt offset wLength))
  | (_, none) => none

def StandardDevice.change (cfgok : Controller → Bool) (s : StandardDevice) (e : DeviceEvent) :
    Option (StandardDevice × Option Answer) :=
  (s.setup.next cfgok (e, [])).map fun setup => ({ s with setup := setup }, some .acknowledged)

/-- `USB_Device_ProcessControlRequest`: the answer, if one of the handlers has returned `true`.
It is only called for a device that is attached. -/
def usbDeviceProcessControlRequest (cfgok : Controller → Bool) (s : StandardDevice)
    (r : ControlRequest) : Option (StandardDevice × Option Answer) :=
  if s.setup.device.deviceState = .unattached then none
  else
    match StandardRequest.ofByte r.bRequest with
    | some .reqGetStatus =>
        if r.bmRequestType = 0x80 ∨ r.bmRequestType = 0x82 then some (s, usbDeviceGetStatus s r)
        else some (s, none)
    | some .reqClearFeature | some .reqSetFeature =>
        if r.bmRequestType = 0x00 ∨ r.bmRequestType = 0x02 then
          some (usbDeviceClearSetFeature s r)
        else some (s, none)
    | some .reqSetAddress =>
        if r.bmRequestType = 0x00 then s.change cfgok (.setAddress r.wValue) else some (s, none)
    | some .reqGetDescriptor =>
        if r.bmRequestType = 0x80 ∨ r.bmRequestType = 0x81 then
          some (s, usbDeviceGetDescriptor s.setup.device.upload r)
        else some (s, none)
    | some .reqGetConfiguration =>
        if r.bmRequestType = 0x80 then
          some (s, some (.packet [s.setup.device.configurationNumber]))
        else some (s, none)
    | some .reqSetConfiguration =>
        if r.bmRequestType = 0x00 ∧ s.setup.device.accepts r.wValue = true then
          s.change cfgok (.setConfiguration r.wValue)
        else some (s, none)
    | none => some (s, none)

inductive RequestEvent where
  /-- `USB_DeviceTask` finds a setup packet -/
  | request (r : ControlRequest)
  /-- another step of the device; at a bus reset the controller takes back `cleared` -/
  | device (e : DeviceEvent) (cleared : List ℕ)

def DeviceEvent.isRequest : DeviceEvent → Bool
  | .setConfiguration _ | .setAddress _ => true
  | .vbus _ | .reset | .suspend | .wakeUp | .receiveNextOutput => false

def StandardDevice.next (cfgok : Controller → Bool) (s : StandardDevice) :
    RequestEvent → Option StandardDevice
  | .request r => (usbDeviceProcessControlRequest cfgok s r).map Prod.fst
  | .device e cleared =>
      if e.isRequest then none
      else
        (s.setup.next cfgok (e, cleared)).map fun setup =>
          { s with
            setup := setup
            stalled := fun n => s.stalled n && !(e == .reset && cleared.contains n) }

def UsbDescriptors.numConfigurations (d : UsbDescriptors) : UInt8 := d.device.toList.getD 17 0

/-- The requests that a device with these descriptors answers without asking anyone. -/
def UsbDescriptors.Answers (d : UsbDescriptors) (r : ControlRequest) : Prop :=
  match StandardRequest.ofByte r.bRequest with
  | some .reqGetStatus => r.bmRequestType = 0x80 ∨ r.bmRequestType = 0x82
  | some .reqClearFeature | some .reqSetFeature =>
      r.bmRequestType = 0x00 ∧ r.wValue.toUInt8 = 0x01 ∨
        r.bmRequestType = 0x02 ∧ ¬ (r.wValue.toUInt8 = 0x00 ∧ r.endpointIndex = 0)
  | some .reqSetAddress => r.bmRequestType = 0x00
  | some .reqGetDescriptor =>
      (r.bmRequestType = 0x80 ∨ r.bmRequestType = 0x81) ∧
        ∃ a, firstDescriptor r.wValue r.wIndex d.added = some a ∧ a.data ≠ []
  | some .reqGetConfiguration => r.bmRequestType = 0x80
  | some .reqSetConfiguration =>
      r.bmRequestType = 0x00 ∧ r.wValue.toUInt8 ≤ d.numConfigurations
  | none => False

/-- What the target host has set: the configuration since the last bus reset, and the remote
wakeup. -/
structure HostView where
  configuration : UInt8
  remoteWakeup : Bool
  deriving DecidableEq

def HostView.start : HostView := ⟨0, false⟩

def HostView.request (d : UsbDescriptors) (v : HostView) (r : ControlRequest) : HostView :=
  match StandardRequest.ofByte r.bRequest with
  | some .reqSetConfiguration =>
      if r.bmRequestType = 0x00 ∧ r.wValue.toUInt8 ≤ d.numConfigurations then
        { v with configuration := r.wValue.toUInt8 }
      else v
  | some .reqSetFeature =>
      if r.bmRequestType = 0x00 ∧ r.wValue.toUInt8 = 0x01 then { v with remoteWakeup := true }
      else v
  | some .reqClearFeature =>
      if r.bmRequestType = 0x00 ∧ r.wValue.toUInt8 = 0x01 then { v with remoteWakeup := false }
      else v
  | _ => v

def HostView.next (d : UsbDescriptors) (v : HostView) : RequestEvent → HostView
  | .request r => v.request d r
  | .device .reset _ => { v with configuration := 0 }
  | .device _ _ => v

/-- The answer that the host expects. -/
def HostView.Expects (d : UsbDescriptors) (v : HostView) (r : ControlRequest) : Answer → Prop
  | .stream buffer => StandardRequest.ofByte r.bRequest = some .reqGetDescriptor ∧
      ∃ a, firstDescriptor r.wValue r.wIndex d.added = some a ∧ buffer = a.data
  | .packet data =>
      StandardRequest.ofByte r.bRequest = some .reqGetConfiguration ∧ data = [v.configuration] ∨
        StandardRequest.ofByte r.bRequest = some .reqGetStatus ∧
          (r.bmRequestType = 0x80 ∧ data = [if v.remoteWakeup then 2 else 0, 0] ∨
            r.bmRequestType = 0x82 ∧ (data = [0, 0] ∨ data = [1, 0]))
  | .acknowledged =>
      StandardRequest.ofByte r.bRequest ∈ [some .reqClearFeature, some .reqSetFeature,
        some .reqSetAddress, some .reqSetConfiguration]

structure StandardDevice.Shows (d : UsbDescriptors) (u : Upload) (s : StandardDevice)
    (v : HostView) : Prop where
  upload : s.setup.device.upload = u
  configuration : s.setup.device.configurationNumber = v.configuration
  remoteWakeup : s.remoteWakeupEnabled = v.remoteWakeup
  selfPowered : s.currentlySelfPowered = false
  configuration_le : v.configuration ≤ d.numConfigurations

section Serves

variable {u : Upload} {d : UsbDescriptors}

theorem Upload.getD_bytesAt (u : Upload) (offset wLength : UInt16) {i : ℕ}
    (h : i < wLength.toNat) :
    u.descriptors.toList.getD (offset.toNat + i) 0 = (u.bytesAt offset wLength).getD i 0 := by
  rw [Upload.bytesAt, List.getD_eq_getElem?_getD, List.getD_eq_getElem?_getD,
    List.getElem?_take_of_lt h, List.getElem?_drop]

theorem Upload.Serves.device (h : u.Serves d.added) :
    ∃ offset, callbackUsbGetDescriptor u 0x0100 0 = (18, some offset) ∧
      ∀ i < 18, u.descriptors.toList.getD (offset.toNat + i) 0 = d.device.toList.getD i 0 := by
  have hfirst : firstDescriptor 0x0100 0 d.added =
      some ⟨0x0100, 0, 18, d.device.toList, by simp⟩ := rfl
  have hserved := h 0x0100 0
  rw [hfirst] at hserved
  obtain ⟨offset, hcallback, hbytes⟩ := hserved
  refine ⟨offset, hcallback, fun i hi => ?_⟩
  rw [u.getD_bytesAt offset 18 hi, hbytes]

theorem Upload.Serves.controlEndpointSize (h : u.Serves d.added) :
    u.controlEndpointSize = d.device.toList.getD 7 0 := by
  obtain ⟨offset, hcallback, hbytes⟩ := h.device
  rw [Upload.controlEndpointSize, hcallback]
  exact hbytes 7 (by decide)

theorem Device.accepts_iff (h : u.Serves d.added) {device : Device} (hu : device.upload = u)
    (wValue : UInt16) :
    device.accepts wValue = true ↔ wValue.toUInt8 ≤ d.numConfigurations := by
  obtain ⟨offset, hcallback, hbytes⟩ := h.device
  have hnumber : device.numberOfConfigurations = some d.numConfigurations := by
    rw [Device.numberOfConfigurations, hu, hcallback]
    exact congrArg some (hbytes 17 (by decide))
  rw [Device.accepts, hnumber]
  exact decide_eq_true_iff

/-- A descriptor is sent when the first one with the key has a byte. -/
theorem usbDeviceGetDescriptor_eq_some_iff (h : u.Serves d.added) (r : ControlRequest)
    (a : Answer) :
    usbDeviceGetDescriptor u r = some a ↔
      ∃ x, firstDescriptor r.wValue r.wIndex d.added = some x ∧ x.data ≠ [] ∧
        a = .stream x.data := by
  have hserved := h r.wValue r.wIndex
  rw [usbDeviceGetDescriptor]
  cases hfirst : firstDescriptor r.wValue r.wIndex d.added with
  | none =>
      rw [hfirst] at hserved
      rw [hserved]
      simp
  | some x =>
      rw [hfirst] at hserved
      obtain ⟨offset, hcallback, hbytes⟩ := hserved
      have hempty : x.wLength = 0 ↔ x.data = [] := by
        rw [← List.length_eq_zero_iff, x.length_data]
        exact ⟨congrArg UInt16.toNat, fun hzero => UInt16.toNat_inj.1 hzero⟩
      rw [hcallback]
      dsimp only
      rw [hbytes]
      by_cases hzero : x.wLength = 0
      · simp [hzero, hempty.1 hzero]
      · simp [hzero, mt hempty.2 hzero, eq_comm]

end Serves

/-- The request is answered as the host expects, or it is left to the proxy and changes
nothing. -/
structure StandardDevice.Handles (d : UsbDescriptors) (u : Upload) (s : StandardDevice)
    (v : HostView) (r : ControlRequest) (s' : StandardDevice) (answer : Option Answer) :
    Prop where
  shows : s'.Shows d u (v.request d r)
  unhandled : answer = none → ¬ d.Answers r ∧ s' = s
  handled : ∀ a, answer = some a → d.Answers r ∧ v.Expects d r a

section Process

variable {cfgok : Controller → Bool} {u : Upload} {d : UsbDescriptors} {s s' : StandardDevice}
  {v : HostView} {r : ControlRequest} {answer : Option Answer}

theorem StandardDevice.Handles.leaves (h : s.Shows d u v) (hview : v.request d r = v)
    (hnot : ¬ d.Answers r) : s.Handles d u v r s none where
  shows := by rwa [hview]
  unhandled := fun _ => ⟨hnot, rfl⟩
  handled := by simp

theorem StandardDevice.Handles.answers {v' : HostView} {a : Answer}
    (hview : v.request d r = v') (h : s'.Shows d u v') (hanswers : d.Answers r)
    (hexpects : v.Expects d r a) : s.Handles d u v r s' (some a) where
  shows := hview ▸ h
  unhandled := by simp
  handled := by
    rintro _ ⟨⟩
    exact ⟨hanswers, hexpects⟩

theorem StandardDevice.Shows.getStatus (h : s.Shows d u v)
    (hr : StandardRequest.ofByte r.bRequest = some .reqGetStatus)
    (htype : r.bmRequestType = 0x80 ∨ r.bmRequestType = 0x82) :
    s.Handles d u v r s (usbDeviceGetStatus s r) := by
  have hview : v.request d r = v := by rw [HostView.request, hr]
  have hanswers : d.Answers r := by
    rw [UsbDescriptors.Answers, hr]
    exact htype
  rw [usbDeviceGetStatus]
  by_cases hdevice : r.bmRequestType = 0x80
  · rw [if_pos hdevice]
    refine .answers hview h hanswers (Or.inr ⟨hr, Or.inl ⟨hdevice, ?_⟩⟩)
    rw [h.selfPowered, h.remoteWakeup]
    cases v.remoteWakeup <;> rfl
  · rw [if_neg hdevice, if_pos (htype.resolve_left hdevice)]
    refine .answers hview h hanswers
      (Or.inr ⟨hr, Or.inr ⟨htype.resolve_left hdevice, ?_⟩⟩)
    cases s.stalled r.endpointIndex
    · exact Or.inl rfl
    · exact Or.inr rfl

theorem StandardDevice.Shows.clearSetFeature (h : s.Shows d u v)
    (hr : StandardRequest.ofByte r.bRequest = some .reqClearFeature ∨
      StandardRequest.ofByte r.bRequest = some .reqSetFeature)
    (htype : r.bmRequestType = 0x00 ∨ r.bmRequestType = 0x02) :
    s.Handles d u v r (usbDeviceClearSetFeature s r).1 (usbDeviceClearSetFeature s r).2 := by
  have hexpects : v.Expects d r .acknowledged := by
    rcases hr with hr | hr <;> simp [HostView.Expects, hr]
  have hanswers : d.Answers r ↔
      r.bmRequestType = 0x00 ∧ r.wValue.toUInt8 = 0x01 ∨
        r.bmRequestType = 0x02 ∧ ¬ (r.wValue.toUInt8 = 0x00 ∧ r.endpointIndex = 0) := by
    rcases hr with hr | hr <;> simp [UsbDescriptors.Answers, hr]
  rcases htype with htype | htype
  · have hrecipient : r.bmRequestType &&& 0x1f = 0 := by
      rw [htype]
      rfl
    simp only [usbDeviceClearSetFeature, hrecipient]
    by_cases hwakeup : r.wValue.toUInt8 = 0x01
    · rw [if_pos hwakeup]
      refine .answers rfl ?_ (hanswers.2 (Or.inl ⟨htype, hwakeup⟩)) hexpects
      rcases hr with hr | hr
      all_goals
        simp only [HostView.request, hr, htype, hwakeup, and_self, if_true]
        exact ⟨h.upload, h.configuration, rfl, h.selfPowered, h.configuration_le⟩
    · rw [if_neg hwakeup]
      refine .leaves h ?_ fun hlocal => ?_
      · rcases hr with hr | hr <;> simp [HostView.request, hr, hwakeup]
      · simp [hanswers, htype, hwakeup] at hlocal
  · have hrecipient : r.bmRequestType &&& 0x1f = 2 := by
      rw [htype]
      rfl
    have hview : v.request d r = v := by
      rcases hr with hr | hr <;> simp [HostView.request, hr, htype]
    simp only [usbDeviceClearSetFeature, hrecipient]
    have hlocal : ¬ (r.wValue.toUInt8 = 0x00 ∧ r.endpointIndex = 0) → d.Answers r :=
      fun hnot => hanswers.2 (Or.inr ⟨htype, hnot⟩)
    by_cases hhalt : r.wValue.toUInt8 = 0x00
    · rw [if_pos hhalt]
      by_cases hindex : r.endpointIndex = 0
      · rw [if_pos hindex]
        refine .leaves h hview fun hlocal => ?_
        simp [hanswers, htype, hhalt, hindex] at hlocal
      · rw [if_neg hindex]
        have hlocal := hlocal fun hboth => hindex hboth.2
        split
        · refine .answers hview ?_ hlocal hexpects
          exact ⟨h.upload, h.configuration, h.remoteWakeup, h.selfPowered, h.configuration_le⟩
        · exact .answers hview h hlocal hexpects
    · rw [if_neg hhalt]
      exact .answers hview h (hlocal fun hboth => hhalt hboth.1) hexpects

theorem EndpointSetup.device_next {s s' : EndpointSetup} {e : DeviceEvent} {cleared : List ℕ}
    (h : s.next cfgok (e, cleared) = some s') : s.device.next e = some s'.device := by
  obtain ⟨device, hdevice, rfl⟩ := Option.map_eq_some_iff.1 h
  rw [hdevice]
  cases e with
  | setConfiguration wValue =>
      dsimp only
      split <;> rfl
  | _ => rfl

def Device.numberBehind (device : Device) : DeviceEvent → UInt8
  | .setConfiguration wValue =>
      if device.accepts wValue then wValue.toUInt8 else device.configurationNumber
  | .reset => 0
  | .setAddress _ | .vbus _ | .suspend | .wakeUp | .receiveNextOutput =>
      device.configurationNumber

theorem Device.configurationNumber_next {device device' : Device} {e : DeviceEvent}
    (h : device.next e = some device') : device'.configurationNumber = device.numberBehind e := by
  cases e with
  | setConfiguration wValue =>
      obtain ⟨_, hd⟩ := Option.ite_none_left_eq_some.1 h
      obtain rfl := Option.some.inj hd
      rw [Device.setConfiguration, Device.numberBehind]
      split <;> rfl
  | setAddress wValue =>
      obtain ⟨_, hd⟩ := Option.ite_none_left_eq_some.1 h
      obtain rfl := Option.some.inj hd
      rfl
  | receiveNextOutput =>
      obtain ⟨_, hd⟩ := Option.ite_none_right_eq_some.1 h
      obtain rfl := Option.some.inj hd
      rfl
  | _ =>
      obtain rfl := Option.some.inj h
      rfl

theorem StandardDevice.Shows.change (h : s.Shows d u v) {e : DeviceEvent} {cleared : List ℕ}
    {setup : EndpointSetup} (hnext : s.setup.next cfgok (e, cleared) = some setup)
    {v' : HostView} (hnumber : s.setup.device.numberBehind e = v'.configuration)
    (hwakeup : v'.remoteWakeup = v.remoteWakeup)
    (hle : v'.configuration ≤ d.numConfigurations) (stalled : ℕ → Bool) :
    Shows d u { s with setup := setup, stalled := stalled } v' where
  upload := (Device.next_cases (EndpointSetup.device_next hnext)).1.trans h.upload
  configuration :=
    (Device.configurationNumber_next (EndpointSetup.device_next hnext)).trans hnumber
  remoteWakeup := h.remoteWakeup.trans hwakeup.symm
  selfPowered := h.selfPowered
  configuration_le := hle

theorem StandardDevice.Shows.process (hserves : u.Serves d.added) (h : s.Shows d u v)
    (hprocess : usbDeviceProcessControlRequest cfgok s r = some (s', answer)) :
    s.Handles d u v r s' answer := by
  obtain ⟨_, hprocess⟩ := Option.ite_none_left_eq_some.1 hprocess
  cases hr : StandardRequest.ofByte r.bRequest with
  | none =>
      rw [hr] at hprocess
      obtain ⟨rfl, rfl⟩ := Prod.mk.inj (Option.some.inj hprocess)
      refine .leaves h ?_ ?_
      · rw [HostView.request, hr]
      · rw [UsbDescriptors.Answers, hr]
        exact id
  | some request =>
      rw [hr] at hprocess
      cases request with
      | reqGetStatus =>
          dsimp only at hprocess
          split at hprocess
          next htype =>
            obtain ⟨rfl, rfl⟩ := Prod.mk.inj (Option.some.inj hprocess)
            exact h.getStatus hr htype
          next htype =>
            obtain ⟨rfl, rfl⟩ := Prod.mk.inj (Option.some.inj hprocess)
            refine .leaves h (by rw [HostView.request, hr]) ?_
            rwa [UsbDescriptors.Answers, hr]
      | reqClearFeature =>
          dsimp only at hprocess
          split at hprocess
          next htype =>
            obtain ⟨rfl, rfl⟩ := Prod.mk.inj (Option.some.inj hprocess)
            exact h.clearSetFeature (Or.inl hr) htype
          next htype =>
            obtain ⟨rfl, rfl⟩ := Prod.mk.inj (Option.some.inj hprocess)
            rw [not_or] at htype
            exact .leaves h (by simp [HostView.request, hr, htype.1])
              (by simp [UsbDescriptors.Answers, hr, htype])
      | reqSetFeature =>
          dsimp only at hprocess
          split at hprocess
          next htype =>
            obtain ⟨rfl, rfl⟩ := Prod.mk.inj (Option.some.inj hprocess)
            exact h.clearSetFeature (Or.inr hr) htype
          next htype =>
            obtain ⟨rfl, rfl⟩ := Prod.mk.inj (Option.some.inj hprocess)
            rw [not_or] at htype
            exact .leaves h (by simp [HostView.request, hr, htype.1])
              (by simp [UsbDescriptors.Answers, hr, htype])
      | reqSetAddress =>
          have hview : v.request d r = v := by rw [HostView.request, hr]
          dsimp only at hprocess
          split at hprocess
          next htype =>
            obtain ⟨setup, hnext, heq⟩ := Option.map_eq_some_iff.1 hprocess
            obtain ⟨rfl, rfl⟩ := Prod.mk.inj heq
            refine .answers hview (h.change hnext h.configuration rfl h.configuration_le _) ?_ ?_
            · rwa [UsbDescriptors.Answers, hr]
            · simp [HostView.Expects, hr]
          next htype =>
            obtain ⟨rfl, rfl⟩ := Prod.mk.inj (Option.some.inj hprocess)
            refine .leaves h hview ?_
            rwa [UsbDescriptors.Answers, hr]
      | reqGetDescriptor =>
          have hview : v.request d r = v := by rw [HostView.request, hr]
          dsimp only at hprocess
          rw [h.upload] at hprocess
          split at hprocess
          next htype =>
            obtain ⟨rfl, rfl⟩ := Prod.mk.inj (Option.some.inj hprocess)
            cases hget : usbDeviceGetDescriptor u r with
            | none =>
                refine .leaves h hview ?_
                rw [UsbDescriptors.Answers, hr]
                rintro ⟨_, x, hx, hne⟩
                rw [(usbDeviceGetDescriptor_eq_some_iff hserves r _).2 ⟨x, hx, hne, rfl⟩] at hget
                exact absurd hget (by simp)
            | some a =>
                obtain ⟨x, hx, hne, rfl⟩ :=
                  (usbDeviceGetDescriptor_eq_some_iff hserves r a).1 hget
                refine .answers hview h ?_ ⟨hr, x, hx, rfl⟩
                rw [UsbDescriptors.Answers, hr]
                exact ⟨htype, x, hx, hne⟩
          next htype =>
            obtain ⟨rfl, rfl⟩ := Prod.mk.inj (Option.some.inj hprocess)
            refine .leaves h hview ?_
            rw [UsbDescriptors.Answers, hr]
            exact fun hlocal => htype hlocal.1
      | reqGetConfiguration =>
          have hview : v.request d r = v := by rw [HostView.request, hr]
          dsimp only at hprocess
          split at hprocess
          next htype =>
            obtain ⟨rfl, rfl⟩ := Prod.mk.inj (Option.some.inj hprocess)
            refine .answers hview h ?_ (Or.inl ⟨hr, by rw [h.configuration]⟩)
            rwa [UsbDescriptors.Answers, hr]
          next htype =>
            obtain ⟨rfl, rfl⟩ := Prod.mk.inj (Option.some.inj hprocess)
            refine .leaves h hview ?_
            rwa [UsbDescriptors.Answers, hr]
      | reqSetConfiguration =>
          dsimp only at hprocess
          simp only [Device.accepts_iff hserves h.upload] at hprocess
          split at hprocess
          next htype =>
            obtain ⟨setup, hnext, heq⟩ := Option.map_eq_some_iff.1 hprocess
            obtain ⟨rfl, rfl⟩ := Prod.mk.inj heq
            have hview : v.request d r = { v with configuration := r.wValue.toUInt8 } := by
              rw [HostView.request, hr]
              exact if_pos htype
            have hnumber : s.setup.device.numberBehind (.setConfiguration r.wValue) =
                r.wValue.toUInt8 :=
              if_pos ((Device.accepts_iff hserves h.upload _).2 htype.2)
            have hshows : ∀ stalled, Shows d u { s with setup := setup, stalled := stalled }
                { v with configuration := r.wValue.toUInt8 } :=
              h.change hnext hnumber rfl htype.2
            refine .answers hview (hshows _) ?_ ?_
            · rwa [UsbDescriptors.Answers, hr]
            · simp [HostView.Expects, hr]
          next htype =>
            obtain ⟨rfl, rfl⟩ := Prod.mk.inj (Option.some.inj hprocess)
            refine .leaves h ?_ ?_
            · rw [HostView.request, hr]
              exact if_neg htype
            · rwa [UsbDescriptors.Answers, hr]

theorem StandardDevice.Shows.next (hserves : u.Serves d.added) {e : RequestEvent}
    (h : s.Shows d u v) (hnext : s.next cfgok e = some s') : s'.Shows d u (v.next d e) := by
  cases e with
  | request r =>
      obtain ⟨⟨s'', answer⟩, hprocess, rfl⟩ := Option.map_eq_some_iff.1 hnext
      exact (h.process hserves hprocess).shows
  | device e cleared =>
      obtain ⟨hrequest, hdevice⟩ := Option.ite_none_left_eq_some.1 hnext
      obtain ⟨setup, hsetup, rfl⟩ := Option.map_eq_some_iff.1 hdevice
      cases e with
      | setConfiguration wValue => exact absurd rfl hrequest
      | setAddress wValue => exact absurd rfl hrequest
      | reset =>
          have hshows : ∀ stalled, Shows d u { s with setup := setup, stalled := stalled }
              { v with configuration := 0 } := h.change hsetup rfl rfl UInt8.zero_le
          exact hshows _
      | _ => exact h.change hsetup h.configuration rfl h.configuration_le _

theorem StandardDevice.exec_shows (hserves : u.Serves d.added) {es : List RequestEvent}
    (hrun : exec (StandardDevice.next cfgok) (StandardDevice.start cfgok u) es = some s) :
    s.Shows d u (es.foldl (HostView.next d) .start) := by
  refine exec_foldl (R := fun s v => s.Shows d u v)
    (fun _ _ _ _ h hnext => h.next hserves hnext) ?_ hrun
  exact ⟨rfl, rfl, rfl, rfl, UInt8.zero_le⟩

end Process

def UsbDescriptors.Uploads (d : UsbDescriptors) (u : Upload) : Prop :=
  ∃ (endpoints : List EndpointConfig) (serialToUsb usbToSerial : EndpointTable) (usb : Usb)
    (es : List StartupEvent) (s : Startup), endpoints.length ≤ maxEndpoints ∧
      exec Startup.next (Startup.startOf
        (sendDescriptors (Proxy.start endpoints serialToUsb usbToSerial usb) d).1) es = some s ∧
      s.fw.upload.started = true ∧ s.fw.upload = u

/-- The sets of descriptors that fit, and that have no descriptor with the value 0. -/
structure UsbDescriptors.Storable (d : UsbDescriptors) : Prop where
  fits : d.Fits
  wValue_ne_zero : ∀ o ∈ d.others, o.wValue ≠ 0

theorem UsbDescriptors.Uploads.serves {d : UsbDescriptors} {u : Upload} (h : d.Uploads u)
    (hd : d.Storable) : u.Serves d.added := by
  obtain ⟨endpoints, serialToUsb, usbToSerial, usb, es, s, hendpoints, hrun, hstarted, rfl⟩ := h
  rw [startOf_sendDescriptors endpoints serialToUsb usbToSerial usb d hd.fits hendpoints] at hrun
  obtain ⟨rs, fs, rt, stream, h⟩ := Startup.exec_inv _ serialToUsb usbToSerial usb hrun
  have hstaged := h.staged hstarted
  exact Upload.serves_of_filled hd.fits.1 hd.fits.2 hstaged.descriptors hstaged.descIndex
    (UsbDescriptors.wValue_ne_zero hd.wValue_ne_zero)

theorem isSome_processControlRequest (cfgok : Controller → Bool) {s : StandardDevice}
    (hattached : s.setup.device.deviceState ≠ .unattached) (r : ControlRequest) :
    ∃ s' answer, usbDeviceProcessControlRequest cfgok s r = some (s', answer) := by
  have hchange : ∀ e, s.setup.device.next e ≠ none → ∃ s' answer,
      s.change cfgok e = some (s', answer) := by
    intro e he
    obtain ⟨device, hdevice⟩ := Option.ne_none_iff_exists'.1 he
    exact ⟨_, _, by rw [StandardDevice.change, EndpointSetup.next, hdevice]; rfl⟩
  rw [usbDeviceProcessControlRequest, if_neg hattached]
  split
  · split <;> exact ⟨_, _, rfl⟩
  · split <;> exact ⟨_, _, rfl⟩
  · split <;> exact ⟨_, _, rfl⟩
  · split
    · exact hchange _ (by simp [Device.next, hattached])
    · exact ⟨_, _, rfl⟩
  · split <;> exact ⟨_, _, rfl⟩
  · split <;> exact ⟨_, _, rfl⟩
  · split
    · exact hchange _ (by simp [Device.next, hattached])
    · exact ⟨_, _, rfl⟩
  · exact ⟨_, _, rfl⟩

/-- The requests of the target host, in every state of every run of the device behind every run
of the start:

* unless the device is unattached, every request is processed;
* which requests are left to `EVENT_USB_Device_UnhandledControlRequest` depends on the
  descriptors alone, and these change nothing;
* the others get the answer of a device with these descriptors in which the host has set what
  it has set;
* the configuration is never one that the device does not have. -/
theorem requests_answered {d : UsbDescriptors} (hd : d.Storable) {u : Upload} (hu : d.Uploads u)
    {cfgok : Controller → Bool} {es : List RequestEvent} {s : StandardDevice}
    (hrun : exec (StandardDevice.next cfgok) (StandardDevice.start cfgok u) es = some s)
    (hattached : s.setup.device.deviceState ≠ .unattached) (r : ControlRequest) :
    let v := es.foldl (HostView.next d) .start
    ∃ s' answer, usbDeviceProcessControlRequest cfgok s r = some (s', answer) ∧
      (answer = none ↔ ¬ d.Answers r) ∧ (answer = none → s' = s) ∧
      (∀ a, answer = some a → v.Expects d r a) ∧
      s'.setup.device.configurationNumber = (v.request d r).configuration ∧
      s'.setup.device.configurationNumber ≤ d.numConfigurations := by
  obtain ⟨s', answer, hprocess⟩ := isSome_processControlRequest cfgok hattached r
  have hserves := hu.serves hd
  have hhandles := (StandardDevice.exec_shows hserves hrun).process hserves hprocess
  refine ⟨s', answer, hprocess, ⟨fun hnone => (hhandles.unhandled hnone).1, fun hnot => ?_⟩,
    fun hnone => (hhandles.unhandled hnone).2, fun a ha => (hhandles.handled a ha).2,
    hhandles.shows.configuration, ?_⟩
  · cases answer with
    | none => rfl
    | some a => exact absurd (hhandles.handled a rfl).1 hnot
  · rw [hhandles.shows.configuration]
    exact hhandles.shows.configuration_le

def oneConfiguration : UsbDescriptors where
  device := Vector.ofFn fun i => if i.val = 17 then 1 else if i.val = 7 then 8 else 18
  configurations := [⟨9, [9, 2, 9, 0, 0, 1, 0, 128, 50], [], rfl⟩]
  langId0 := Vector.replicate _ 4
  others := []

theorem exists_uploads_oneConfiguration :
    oneConfiguration.Storable ∧ ∃ u, oneConfiguration.Uploads u := by
  have hrun : ∃ s, s ∈ exec Startup.next (Startup.startOf
      (sendDescriptors (Proxy.start [] ⟨Vector.replicate _ 0, fun _ => 0⟩
        ⟨Vector.replicate _ 0, fun _ => 0⟩
        ⟨Vector.replicate _ ⟨0, 0⟩, Vector.replicate _ ⟨0, 0⟩, [], []⟩) oneConfiguration).1)
      [.interrupt, .read 0, .read 2, .interrupt, .read 2, .interrupt] ∧
        s.fw.upload.started = true := by
    decide +kernel
  obtain ⟨s, hs, hstarted⟩ := hrun
  refine ⟨⟨by unfold UsbDescriptors.Fits; decide +kernel, by simp [oneConfiguration]⟩, s.fw.upload,
    _, _, _, _, _, s, Nat.zero_le _, hs, hstarted, rfl⟩

/-- SET_CONFIGURATION with 2 is left to `EVENT_USB_Device_UnhandledControlRequest`. -/
theorem requests_answered_two :
    ∃ (u : Upload) (s : StandardDevice) (s' : StandardDevice) (answer : Option Answer),
      exec (StandardDevice.next fun _ => true) (.start (fun _ => true) u)
        [.device (.vbus true) []] = some s ∧
      usbDeviceProcessControlRequest (fun _ => true) s ⟨0x00, 9, 2, 0, 0⟩ = some (s', answer) ∧
      answer = none ∧ s' = s := by
  obtain ⟨hd, u, hu⟩ := exists_uploads_oneConfiguration
  have hrun : ∃ s, exec (StandardDevice.next fun _ => true) (.start (fun _ => true) u)
      [.device (.vbus true) []] = some s ∧ s.setup.device.deviceState ≠ .unattached :=
    ⟨_, rfl, show DeviceState.powered ≠ .unattached by decide⟩
  obtain ⟨s, hs, hattached⟩ := hrun
  obtain ⟨s', answer, hprocess, hnone, hkeep, _⟩ :=
    requests_answered hd hu hs hattached ⟨0x00, 9, 2, 0, 0⟩
  have hmany : ¬ ((0x00 : UInt8) = 0x00 ∧ (2 : UInt16).toUInt8 ≤
      oneConfiguration.numConfigurations) := by decide +kernel
  have hleft : answer = none := hnone.2 hmany
  exact ⟨u, s, s', answer, hs, hprocess, hleft, hkeep hleft⟩

end SerialUsb
