import SerialUsb.Adapter.Receive
import SerialUsb.Gasync.Timers
import SerialUsb.Gusb.Transfers

/-!
# Opening and registering

`adapter_open`, `gtimer_start` and `gusb_register`, with the functions of `async.c` and
`gserial.c` below them, over the tables that they change. What the system calls return are
arguments.
-/

namespace SerialUsb

abbrev asyncMaxDevices : ℕ := 256
abbrev maxAdapters : ℕ := 7

abbrev Path : Type := List Char

/-- `s_device`, without the callback that is never set. -/
structure AsyncDevice where
  fd : ℤ
  path : Option Path
  read : ReadRequest
  user : ℤ
  fpRead : Option Callback
  fpClose : Option Callback
deriving DecidableEq

def AsyncDevice.free : AsyncDevice := ⟨-1, none, ⟨0, 0⟩, 0, none, none⟩

@[ext] structure AsyncDevices where
  device : ℕ → AsyncDevice
  free : ∀ i, (device i).fd = -1 → device i = AsyncDevice.free

def AsyncDevices.start : AsyncDevices := ⟨fun _ => AsyncDevice.free, fun _ _ => rfl⟩

def AsyncDevices.set (ds : AsyncDevices) (i : ℕ) (d : AsyncDevice)
    (h : d.fd = -1 → d = AsyncDevice.free) : AsyncDevices where
  device := Function.update ds.device i d
  free := by
    intro j
    by_cases hj : j = i
    · subst hj
      rw [Function.update_self]
      exact h
    · rw [Function.update_of_ne hj]
      exact ds.free j

/-- An element of `adapters`, without the packet, which no open looks at. -/
structure AdapterSlot where
  serial : ℤ
  fpPacketCb : Option Callback
deriving DecidableEq

/-- What `gusb_register` uses of an element of `usbdevices`: whether `devh` is set, and
`callback`. -/
structure UsbSlot where
  devh : Bool
  user : ℤ
  fpRead : Option Callback
  fpWrite : Option Callback
  fpClose : Option Callback
deriving DecidableEq

structure AsyncTables where
  files : Files
  timers : ℕ → Timer
  devices : AsyncDevices
  adapters : ℕ → AdapterSlot
  usbdevices : ℕ → UsbSlot

def AsyncTables.start (opened : Finset ℤ) : AsyncTables where
  files := ⟨Gpoll.start, opened⟩
  timers := (Gtimer.start ⟨Gpoll.start, opened⟩).timers
  devices := AsyncDevices.start
  adapters := fun _ => ⟨-1, none⟩
  usbdevices := fun _ => ⟨false, 0, none, none, none⟩

/-- What the calls behind `gserial_open` return: the descriptor of `open`, and whether `strdup`
and the calls that set the parameters of the line succeed. -/
structure OpenOutcome where
  fd : Option ℕ
  strdup : Bool
  setParams : Bool
deriving DecidableEq

namespace AsyncDevices

def hasPath (ds : AsyncDevices) (path : Path) : Bool :=
  (List.range asyncMaxDevices).any fun i => (ds.device i).path = some path

def getSlot (ds : AsyncDevices) : Option ℕ :=
  (List.range asyncMaxDevices).find? fun i => (ds.device i).fd = -1

theorem free_of_fd (ds : AsyncDevices) (path : Path) (fd i : ℕ)
    (h : ({ ds.device i with path := some path, fd := fd } : AsyncDevice).fd = -1) :
    { ds.device i with path := some path, fd := fd } = AsyncDevice.free := by
  dsimp only at h
  omega

theorem free_of_path (ds : AsyncDevices) (i : ℕ)
    (h : ({ ds.device i with path := none } : AsyncDevice).fd = -1) :
    { ds.device i with path := none } = AsyncDevice.free := by
  rw [ds.free i h]
  rfl

def addDevice (ds : AsyncDevices) (path : Path) (fd : ℕ) (strdup : Bool) : AsyncDevices × ℤ :=
  if ds.hasPath path then (ds, -1)
  else
    match ds.getSlot with
    | none => (ds, -1)
    | some i =>
        if strdup then
          (ds.set i { ds.device i with path := some path, fd := fd } (ds.free_of_fd path fd i), i)
        else (ds.set i { ds.device i with path := none } (ds.free_of_path i), -1)

def checkDevice (ds : AsyncDevices) (device : ℤ) : Bool :=
  decide (0 ≤ device ∧ device < asyncMaxDevices ∧ (ds.device device.toNat).fd ≠ -1)

end AsyncDevices

namespace AsyncTables

def asyncOpenPath (t : AsyncTables) (path : Option Path) (o : OpenOutcome) : AsyncTables × ℤ :=
  match path, o.fd with
  | some path, some fd =>
      let opened := insert (fd : ℤ) t.files.opened
      let (devices, ret) := t.devices.addDevice path fd o.strdup
      if ret = -1 then
        ({ t with files := { t.files with opened := opened.erase fd }, devices := devices }, ret)
      else ({ t with files := { t.files with opened := opened }, devices := devices }, ret)
  | _, _ => (t, -1)

def asyncClose (t : AsyncTables) (device : ℤ) : AsyncTables × ℤ :=
  if t.devices.checkDevice device then
    let fd := (t.devices.device device.toNat).fd
    ({ t with
        files := { t.files with opened := t.files.opened.erase fd }
        devices := t.devices.set device.toNat AsyncDevice.free fun _ => rfl }, 0)
  else (t, -1)

def asyncRegister (t : AsyncTables) (device user : ℤ) (fpRead fpClose : Option Callback)
    (fpRegister : RegisterFd) : AsyncTables × ℤ :=
  if h : t.devices.checkDevice device then
    let d := t.devices.device device.toNat
    let devices := t.devices.set device.toNat
      { d with user := user, fpRead := fpRead, fpClose := fpClose }
      fun hfd => absurd hfd (of_decide_eq_true h).2.2
    let (gpoll, ret) := fpRegister t.files.gpoll d.fd device (some .asyncRead) none
      (some .asyncClose)
    ({ t with files := { t.files with gpoll := gpoll }, devices := devices }, ret)
  else (t, -1)

def setParams (port : Path) (o : OpenOutcome) : Bool :=
  if ['t', 't', 'y'] <:+: port then o.setParams
  else if ['s', 'p', 'i'] <:+: port then o.setParams
  else true

def gserialOpen (t : AsyncTables) (port : Option Path) (o : OpenOutcome) : AsyncTables × ℤ :=
  let (t, device) := t.asyncOpenPath port o
  if device < 0 then (t, -1)
  else if setParams (port.getD []) o then (t, device)
  else ((t.asyncClose device).1, -1)

def adapterSlot (t : AsyncTables) : Option ℕ :=
  (List.range maxAdapters).find? fun i => (t.adapters i).serial < 0

/-- `adapter_open`; `fp_write` is ignored behind `async_register`. -/
def adapterOpen (t : AsyncTables) (port : Option Path) (fpRead fpClose : Option Callback)
    (o : OpenOutcome) : AsyncTables × ℤ :=
  let (t, serial) := t.gserialOpen port o
  if serial < 0 then (t, -1)
  else
    match t.adapterSlot with
    | none => ((t.asyncClose serial).1, -1)
    | some i =>
        let t := { t with adapters := Function.update t.adapters i ⟨serial, fpRead⟩ }
        let (t, ret) := t.asyncRegister serial i (some .adapterRecv) fpClose gpollRegisterFd
        if ret < 0 then (t, -1) else (t, i)

def gtimerStart (t : AsyncTables) (user : ℤ) (fpRead fpClose : Option Callback)
    (timerfdCreate : Option ℕ) (timerfdSettime : Bool) : AsyncTables × ℤ :=
  let (g, ret) := Gtimer.gtimerStart ⟨t.timers, t.files⟩ user fpRead fpClose gpollRegisterFd
    timerfdCreate timerfdSettime
  ({ t with timers := g.timers, files := g.files }, ret)

def registerPollfds (g : Gpoll Callback) (device : ℤ) : List ℤ → Gpoll Callback × ℤ
  | [] => (g, 0)
  | fd :: fds =>
      match gpollRegisterFd g fd device (some .gusbHandleEvents) (some .gusbHandleEvents)
        (some .gusbClose) with
      | (g, ret) => if ret = -1 then (g, ret) else registerPollfds g device fds

def checkUsbDevice (t : AsyncTables) (device : ℤ) : Bool :=
  decide (0 ≤ device ∧ device < usbasyncMaxDevices ∧ (t.usbdevices device.toNat).devh = true)

def gusbRegister (t : AsyncTables) (device user : ℤ) (fpRead fpWrite fpClose : Option Callback)
    (pollfds : List ℤ) : AsyncTables × ℤ :=
  if t.checkUsbDevice device then
    let (gpoll, ret) := registerPollfds t.files.gpoll device pollfds
    let files := { t.files with gpoll := gpoll }
    if ret ≠ -1 then
      let slot : UsbSlot := ⟨true, user, fpRead, fpWrite, fpClose⟩
      let usbdevices := Function.update t.usbdevices device.toNat slot
      ({ t with files := files, usbdevices := usbdevices }, ret)
    else ({ t with files := files }, ret)
  else (t, -1)

end AsyncTables

end SerialUsb
