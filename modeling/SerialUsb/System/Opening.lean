import SerialUsb.Gasync.Async
import SerialUsb.Gusb.Arrivals
import SerialUsb.System.BufferBounds

/-!
# Opening and closing a device

`gusb_open_path` and `gusb_open_ids` with what they call, over the table of the devices, and what
`gusb_close` frees and reads of a tree that may be built in part. The outcomes of the calls of
libusb and of the allocator are arguments; `none` is an open that does not end.
-/

namespace SerialUsb

open Memory

section Descriptors

variable (env : Environment)

def getLangId0 (d : GusbDevice) : GusbDevice :=
  match d.controlTransfer env 4 with
  | (d, none) => d
  | (d, some data) => { d with langId0 := ofLe16 (data.getD 2 0) (data.getD 3 0) }

/-- A string descriptor, if there is one; what `get_string_descriptor` returns is ignored. -/
def optionalString (d : GusbDevice) (index : UInt8) : GusbDevice :=
  if index ≠ 0 then (getStringDescriptor env d index).1 else d

def getDevice (d : GusbDevice) : GusbDevice × Option UInt8 :=
  match d.controlTransfer env 18 with
  | (d, none) => (d, none)
  | (d, some data) =>
      let d := optionalString env d (data.getD 14 0)
      let d := optionalString env d (data.getD 15 0)
      let d := optionalString env d (data.getD 16 0)
      (d, some (data.getD 17 0))

def ConfigurationReplies.raw (c : ConfigurationReplies) : Option Buffer × Int :=
  match c.first with
  | none => (none, -1)
  | some reply =>
      let size := (c.wTotalLength reply).toNat
      if c.allocated then
        match c.second with
        | none => (some ⟨⟨fun i => if i < size then 0 else c.behind i⟩, size⟩, -1)
        | some reply =>
            (some ⟨⟨fun i => if i < size then (reply.take size).getD i 0 else c.behind i⟩, size⟩, 0)
      else (none, -1)

def getRaws : List ConfigurationReplies → List Buffer × Int
  | [] => ([], 0)
  | c :: cs =>
      match c.raw with
      | (none, ret) => ([], ret)
      | (some b, ret) =>
          if ret < 0 then ([b], ret)
          else
            let (bs, ret) := getRaws cs
            (b :: bs, ret)

theorem getConfigurations_eq (cs : List ConfigurationReplies) :
    getConfigurations cs = if (getRaws cs).2 = 0 then some (getRaws cs).1 else none := by
  induction cs with
  | nil => rfl
  | cons c cs ih =>
      unfold getConfigurations getRaws ConfigurationReplies.buffer ConfigurationReplies.raw
      cases c.first with
      | none => rfl
      | some reply =>
          cases c.allocated with
          | false => simp
          | true =>
              cases c.second with
              | none => simp
              | some reply => by_cases hret : (getRaws cs).2 = 0 <;> simp [ih, hret]

/-- A configuration that `probe_configurations` came to: its bytes, whether `interfaces` was
allocated, and how the walk ended. -/
structure Probed where
  buffer : Buffer
  allocated : Bool
  result : ProbeResult

def probeAll (iterations : RawConfiguration → ℕ) (d : GusbDevice) :
    List Buffer → Option (GusbDevice × List Probed × Int)
  | [] => some (d, [], 0)
  | b :: bs =>
      match probeConfiguration env (iterations b.raw) d b.raw with
      | none => none
      | some r =>
          let y : Probed := ⟨b, (d.allocate env).2, r⟩
          if r.ret < 0 then some (r.device, [y], -1)
          else
            (probeAll iterations r.device bs).map fun (d, ys, ret) => (d, y :: ys, ret)

theorem probeConfigurations_eq (iterations : RawConfiguration → ℕ) (d : GusbDevice)
    (bs : List Buffer) :
    probeConfigurations env iterations d (bs.map Buffer.raw) =
      (probeAll env iterations d bs).map fun x => (x.1, x.2.1.map Probed.result, x.2.2) := by
  induction bs generalizing d with
  | nil => rfl
  | cons b bs ih =>
      rw [List.map_cons, probeConfigurations, probeAll]
      cases probeConfiguration env (iterations b.raw) d b.raw with
      | none => rfl
      | some r =>
          dsimp only
          split
          · rfl
          · rw [ih, Option.map_map, Option.map_map]
            rfl

end Descriptors

/-- `descriptors` of a device, as far as they are built: `others` are in `device`, and
`configurations` is NULL or holds the buffers, of which the first ones were probed. -/
structure Construction where
  device : GusbDevice
  bNumConfigurations : UInt8
  configurations : Option (List Buffer)
  probed : List Probed

def Construction.zero : Construction := ⟨GusbDevice.start, 0, none, []⟩

/-- What the calls of `get_descriptors` come to: the `calloc` of `configurations`, the calls of
`get_configurations`, and all others. -/
structure DescriptorReplies where
  env : Environment
  allocated : Bool
  configurations : ℕ → ConfigurationReplies
  iterations : RawConfiguration → ℕ

def getDescriptors (o : DescriptorReplies) : Option (Construction × Int) :=
  let d := getLangId0 o.env GusbDevice.start
  match getDevice o.env d with
  | (d, none) => some (⟨d, 0, none, []⟩, -1)
  | (d, some n) =>
      if n = 0 then some (⟨d, n, none, []⟩, -1)
      else if o.allocated then
        let (raws, ret) := getRaws ((List.range n.toNat).map o.configurations)
        if ret < 0 then some (⟨d, n, some raws, []⟩, -1)
        else
          (probeAll o.env o.iterations d raws).map fun (d, probed, ret) =>
            (⟨d, n, some raws, probed⟩, ret)
      else some (⟨d, n, none, []⟩, -1)

structure ClaimOutcome where
  opened : Bool
  reset : Bool
  configuration : Option ℤ
  setConfiguration : Bool
  handleInterfaces : Bool
  descriptors : DescriptorReplies

def ClaimOutcome.prepares (o : ClaimOutcome) : Bool :=
  o.reset &&
    (match o.configuration with
    | none => false
    | some configuration => configuration ≠ 0 || o.setConfiguration) &&
    o.handleInterfaces

/-- An element of `usbdevices`, without the callbacks. -/
structure UsbDevice where
  path : Option Path
  devh : Bool
  closing : Bool
  pending : ℤ
  descriptors : Construction

def UsbDevice.zero : UsbDevice := ⟨none, false, false, 0, Construction.zero⟩

structure UsbTable where
  usbdevices : ℕ → UsbDevice
  transfers : List UsbTransfer

/-- An entry of the list of devices: what `make_path` and `libusb_get_device_descriptor` come to,
and the calls of an open. -/
structure Candidate where
  path : Option Path
  ids : Option (UInt16 × UInt16)
  strdup : Bool
  claim : ClaimOutcome

structure Attempt where
  slot : ℕ
  path : Path
  construction : Construction

namespace UsbTable

def set (t : UsbTable) (i : ℕ) (device : UsbDevice) : UsbTable :=
  { t with usbdevices := Function.update t.usbdevices i device }

def addDevice (t : UsbTable) (path : Path) (strdup : Bool) : UsbTable × Option ℕ :=
  if (List.range usbasyncMaxDevices).any fun i => (t.usbdevices i).path = some path then (t, none)
  else
    match (List.range usbasyncMaxDevices).find? fun i => (t.usbdevices i).devh = false with
    | none => (t, none)
    | some i =>
        if strdup then (t.set i { t.usbdevices i with path := some path }, some i)
        else (t.set i { t.usbdevices i with path := none }, none)

def claimDevice (t : UsbTable) (i : ℕ) (o : ClaimOutcome) : Option (UsbTable × Int) :=
  if o.opened then
    let device := { t.usbdevices i with devh := true }
    if o.prepares then
      (getDescriptors o.descriptors).map fun (descriptors, ret) =>
        (t.set i { device with descriptors := descriptors }, if ret < 0 then -1 else 0)
    else some (t.set i device, -1)
  else some (t, -1)

/-- `gusb_close`, where `wait` stands for the events that `cancel_transfers` waits for. -/
def gusbClose (wait : UsbTable → UsbTable) (t : UsbTable) (i : ℕ) : UsbTable :=
  if usbasyncMaxDevices ≤ i then t
  else
    let device := t.usbdevices i
    let t :=
      if device.devh then
        let t := t.set i { device with closing := true }
        if device.pending ≠ 0 then wait t else t
      else t
    t.set i UsbDevice.zero

/-- The loop of `gusb_open_path` and `gusb_open_ids`; `accepts` are the tests before
`add_device`, with the path that it gets. -/
def openLoop (wait : UsbTable → UsbTable) (accepts : Candidate → Option Path) :
    UsbTable → List Candidate → Option (UsbTable × Int × List Attempt)
  | t, [] => some (t, -1, [])
  | t, c :: cs =>
      match accepts c with
      | none => openLoop wait accepts t cs
      | some path =>
          match t.addDevice path c.strdup with
          | (t, none) => openLoop wait accepts t cs
          | (t, some i) =>
              match t.claimDevice i c.claim with
              | none => none
              | some (t, ret) =>
                  if ret ≠ -1 then some (t, i, [])
                  else
                    (openLoop wait accepts (t.gusbClose wait i) cs).map
                      fun (t', ret, attempts) =>
                        (t', ret, ⟨i, path, (t.usbdevices i).descriptors⟩ :: attempts)

/-- `gusb_open_path`, where `none` for the candidates is a call of libusb before the loop that
fails. -/
def gusbOpenPath (wait : UsbTable → UsbTable) (t : UsbTable) (path : Option Path)
    (candidates : Option (List Candidate)) : Option (UsbTable × Int × List Attempt) :=
  match path, candidates with
  | some path, some candidates =>
      openLoop wait
        (fun c => if c.path = some path ∧ c.ids ≠ none then some path else none) t candidates
  | _, _ => some (t, -1, [])

def gusbOpenIds (wait : UsbTable → UsbTable) (t : UsbTable) (vendor product : UInt16)
    (candidates : Option (List Candidate)) : Option (UsbTable × Int × List Attempt) :=
  match candidates with
  | some candidates =>
      openLoop wait (fun c => if c.ids = some (vendor, product) then c.path else none) t candidates
  | none => some (t, -1, [])

end UsbTable

/-- The memory that belongs to a device that is opened. The record of an interface that arrived as
the `arrival`-th has the array `endpoints`. -/
inductive HeapNode where
  | path
  | configurations
  | raw (index : ℕ)
  | interfaces (index : ℕ)
  | altInterfaces (index number : ℕ)
  | endpoints (index number arrival : ℕ)
  | others
  | data (index : ℕ)
deriving DecidableEq

namespace Probed

variable (y : Probed)

def tree : PConfiguration := y.result.probing.tree

def arrivals : Arrivals :=
  Arrivals.start.handleAll (Probing.start y.buffer.raw) y.result.handled

def freesEndpoints (index number : ℕ) : List HeapNode :=
  (y.tree.interface number).altInterfaces.visible.zipIdx.filterMap fun x =>
    if x.1.endpoints.elements = [] then none
    else some (.endpoints index number (y.arrivals.first number + x.2))

def freesInterface (index number : ℕ) : List HeapNode :=
  y.freesEndpoints index number ++
    if (y.tree.interface number).altInterfaces.elements = [] then []
    else [.altInterfaces index number]

def frees (index : ℕ) : List HeapNode :=
  ((List.range y.tree.raw.bNumInterfaces.toNat).flatMap (y.freesInterface index)) ++
    if y.allocated then [.interfaces index] else []

/-- What `gusb_close` reads there: `bNumInterfaces`, the elements of `interfaces`, and the records.
Each is an index into some memory. -/
def reads (index : ℕ) : List (HeapNode × ℕ) :=
  (.raw index, 4) ::
    (List.range y.tree.raw.bNumInterfaces.toNat).flatMap fun number =>
      (.interfaces index, number) ::
        (List.range (y.tree.interface number).altInterfaces.count.toNat).map
          (HeapNode.altInterfaces index number, ·)

end Probed

namespace Construction

variable (x : Construction)

def freesConfiguration (raws : List Buffer) (index : ℕ) : List HeapNode :=
  (match x.probed[index]? with
  | none => []
  | some y => y.frees index) ++ if index < raws.length then [.raw index] else []

def frees : List HeapNode :=
  [.path] ++
    (match x.configurations with
    | none => []
    | some raws =>
        (List.range x.bNumConfigurations.toNat).flatMap (x.freesConfiguration raws) ++
          [.configurations]) ++
    (List.range x.device.others.length).map .data ++
    if x.device.others = [] then [] else [.others]

def reads : List (HeapNode × ℕ) :=
  (match x.configurations with
  | none => []
  | some _ =>
      (List.range x.bNumConfigurations.toNat).flatMap fun index =>
        (.configurations, index) ::
          match x.probed[index]? with
          | none => []
          | some y => y.reads index) ++
    (List.range x.device.others.length).map (HeapNode.others, ·)

def Built : HeapNode → Prop
  | .path => True
  | .configurations => x.configurations ≠ none
  | .raw index => ∃ raws, x.configurations = some raws ∧ index < raws.length
  | .interfaces index => ∃ y, x.probed[index]? = some y ∧ y.allocated = true
  | .altInterfaces index number =>
      ∃ y, x.probed[index]? = some y ∧ y.arrivals.total number ≠ 0
  | .endpoints index number arrival =>
      ∃ y, x.probed[index]? = some y ∧ (number, arrival) ∈ y.arrivals.endpoints
  | .others => x.device.others ≠ []
  | .data index => index < x.device.others.length

def size : HeapNode → ℕ
  | .configurations => x.bNumConfigurations.toNat
  | .raw index => ((x.configurations.getD [])[index]?.map Buffer.size).getD 0
  | .interfaces index => (x.probed[index]?.map fun y => y.tree.raw.bNumInterfaces.toNat).getD 0
  | .altInterfaces index number =>
      (x.probed[index]?.map fun y =>
        (y.tree.interface number).altInterfaces.elements.length).getD 0
  | .others => x.device.others.length
  | _ => 0

def Within (access : HeapNode × ℕ) : Prop :=
  x.Built access.1 ∧ access.2 < x.size access.1

/-- `gusb_close` frees each thing that was built once, and reads only in what was built. -/
structure TornDown : Prop where
  once : x.frees.Nodup
  freed : ∀ node, node ∈ x.frees ↔ x.Built node
  read : ∀ access ∈ x.reads, x.Within access

/-- Each configuration that was probed has the byte `bNumInterfaces`, its `interfaces` unless it
has no interface, and shows all records that have endpoints. -/
def Clean : Prop :=
  ∀ y ∈ x.probed, 4 < y.buffer.size ∧
    (y.allocated = true ∨ y.buffer.raw.bNumInterfaces = 0) ∧ y.arrivals.Shown

instance : Decidable x.Clean := by
  unfold Clean
  infer_instance

end Construction

/-- An open that fails leaves no trace: the slots that it tried are cleared and their paths are
free, the other slots and the transfers are unchanged, and the descriptors are torn down. -/
structure LeavesNoTrace (t t' : UsbTable) (attempts : List Attempt) : Prop where
  cleared : ∀ x ∈ attempts, t'.usbdevices x.slot = UsbDevice.zero
  reusable : ∀ x ∈ attempts, ∀ i < usbasyncMaxDevices, (t'.usbdevices i).path ≠ some x.path
  unchanged : ∀ i, (∀ x ∈ attempts, x.slot ≠ i) → t'.usbdevices i = t.usbdevices i
  transfers : t'.transfers = t.transfers
  tornDown : ∀ x ∈ attempts, x.construction.TornDown

inductive OpenCall where
  | path (path : Option Path)
  | ids (vendor product : UInt16)

def UsbTable.open (wait : UsbTable → UsbTable) (t : UsbTable)
    (candidates : Option (List Candidate)) :
    OpenCall → Option (UsbTable × Int × List Attempt)
  | .path path => t.gusbOpenPath wait path candidates
  | .ids vendor product => t.gusbOpenIds wait vendor product candidates

end SerialUsb
