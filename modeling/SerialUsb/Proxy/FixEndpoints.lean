import SerialUsb.Memory.Inverse
import SerialUsb.Proxy.Descriptors

/-!
# The endpoint maps

`fix_endpoints`: it decides for each configuration whether its endpoints have to
be renumbered, walks over interfaces, alternate settings and endpoints, writes the
new addresses into the descriptors, and fills the two maps and the table
`endpoints` for the first configuration.
-/

namespace SerialUsb

open Memory

abbrev epPropIn : UInt8 := 1
abbrev epPropOut : UInt8 := 2
abbrev epPropBidir : UInt8 := 4
abbrev epPropInt : UInt8 := 8
abbrev epPropBlk : UInt8 := 16
abbrev epPropIso : UInt8 := 32

def EndpointDescriptor.xferType (e : EndpointDescriptor) : UInt8 := e.bmAttributes &&& 0x03

abbrev usbEndpointXferInt : UInt8 := 3

def EndpointDescriptor.typeProp (e : EndpointDescriptor) : UInt8 :=
  if e.xferType = 3 then epPropInt
  else if e.xferType = 2 then epPropBlk
  else if e.xferType = 1 then epPropIso
  else 0

def EndpointDescriptor.dirProp (e : EndpointDescriptor) : UInt8 :=
  if endpointIn e.bEndpointAddress then epPropIn else epPropOut

/-- What `get_endpoint_properties` makes of the properties of a number when it
meets an endpoint. -/
def mergeProps (p : UInt8) (e : EndpointDescriptor) : UInt8 :=
  let p := p ||| e.typeProp ||| e.dirProp
  if p &&& (epPropIn ||| epPropOut) = epPropIn ||| epPropOut then p ||| epPropBidir else p

def addEndpointProperties (epProps : Vector UInt8 endpointMaxNumber)
    (e : EndpointDescriptor) : Vector UInt8 endpointMaxNumber :=
  let epIndex := inPacketIndex e.bEndpointAddress
  epProps.setIfInBounds epIndex (mergeProps (epProps.getD epIndex 0) e)

def Configuration.endpoints (c : Configuration) : List EndpointDescriptor :=
  c.interfaces.flatMap fun i => i.altInterfaces.flatMap AltInterface.endpoints

def getEndpointProperties (c : Configuration) : Vector UInt8 endpointMaxNumber :=
  c.endpoints.foldl addEndpointProperties (Vector.replicate _ 0)

def targetProperties : Vector UInt8 endpointMaxNumber :=
  Vector.ofFn fun i => if i.val < 6 then epPropIn ||| epPropOut ||| epPropInt else 0

/-- `compare_endpoint_properties`: something of the source is not in the target. -/
def compareEndpointProperties (source target : Vector UInt8 endpointMaxNumber) : Bool :=
  (List.finRange endpointMaxNumber).any fun i =>
    source[i] ≠ 0 ∧ target[i] &&& source[i] ≠ source[i]

def Configuration.renumber (c : Configuration) : Bool :=
  compareEndpointProperties (getEndpointProperties c) targetProperties

/-- What `fix_endpoints` works on; `number` is its local `endpointNumber`.
`registered` records the original and the new address of each endpoint that is put
into the maps. -/
structure EndpointMaps where
  serialToUsb : EndpointTable
  usbToSerial : EndpointTable
  endpoints : List EndpointConfig
  number : UInt8
  registered : List (UInt8 × UInt8)

/-- The tests of the loop body that lead to `continue`. -/
def skipsEndpoint (configurationIndex : ℕ) (number : UInt8)
    (e : EndpointDescriptor) : Bool :=
  endpointNumber e.bEndpointAddress = 0 ∨ 0 < configurationIndex ∨
    e.xferType ≠ usbEndpointXferInt ∨ maxPayloadSizeEp < e.wMaxPacketSize.toNat ∨
    maxEndpoints < number.toNat

def EndpointMaps.register (m : EndpointMaps) (e : EndpointDescriptor) (address : UInt8) :
    EndpointMaps :=
  let originalEndpoint := e.bEndpointAddress
  { m with
    usbToSerial := m.usbToSerial.set originalEndpoint.toNat address
    serialToUsb := m.serialToUsb.set address.toNat originalEndpoint
    endpoints := m.endpoints ++ [⟨address, e.xferType, e.wMaxPacketSize.toUInt8⟩]
    registered := m.registered ++ [(originalEndpoint, address)] }

/-- The body of the innermost loop of `fix_endpoints`, with the descriptor as it
leaves it. -/
def fixEndpoint (configurationIndex : ℕ) (renumber : Bool) (m : EndpointMaps)
    (e : EndpointDescriptor) : EndpointMaps × EndpointDescriptor :=
  let number := if renumber then m.number + 1 else m.number
  let address :=
    if renumber then (e.bEndpointAddress &&& 0x80) ||| number else e.bEndpointAddress
  let fixed := { e with bEndpointAddress := address }
  let m := { m with number := number }
  if skipsEndpoint configurationIndex number e then (m, fixed)
  else (m.register e address, fixed)

/-- A loop that changes a state and each element of an array. -/
def forEach {σ α : Type*} (body : σ → α → σ × α) (s : σ) : List α → σ × List α
  | [] => (s, [])
  | a :: as =>
      let (s, a) := body s a
      let (s, as) := forEach body s as
      (s, a :: as)

def fixAltInterface (configurationIndex : ℕ) (renumber : Bool) (m : EndpointMaps)
    (a : AltInterface) : EndpointMaps × AltInterface :=
  let (m, endpoints) := forEach (fixEndpoint configurationIndex renumber) m a.endpoints
  (m, ⟨endpoints⟩)

def fixInterface (configurationIndex : ℕ) (renumber : Bool) (m : EndpointMaps)
    (i : Interface) : EndpointMaps × Interface :=
  let (m, altInterfaces) :=
    forEach (fixAltInterface configurationIndex renumber) m i.altInterfaces
  (m, ⟨altInterfaces⟩)

def fixConfiguration (configurationIndex : ℕ) (m : EndpointMaps) (c : Configuration) :
    EndpointMaps × Configuration :=
  let m := { m with number := 0 }
  let (m, interfaces) := forEach (fixInterface configurationIndex c.renumber) m c.interfaces
  (m, { c with interfaces := interfaces })

def fixConfigurations (configurationIndex : ℕ) (m : EndpointMaps) :
    List Configuration → EndpointMaps × List Configuration
  | [] => (m, [])
  | c :: cs =>
      let (m, c) := fixConfiguration configurationIndex m c
      let (m, cs) := fixConfigurations (configurationIndex + 1) m cs
      (m, c :: cs)

/-- The statics before `fix_endpoints`, in whatever memory. -/
def EndpointMaps.start (outside outside' : ℤ → UInt8) : EndpointMaps where
  serialToUsb := ⟨Vector.replicate _ 0, outside⟩
  usbToSerial := ⟨Vector.replicate _ 0, outside'⟩
  endpoints := []
  number := 0
  registered := []

def fixEndpoints (m : EndpointMaps) (cs : List Configuration) :
    EndpointMaps × List Configuration :=
  fixConfigurations 0 { m with endpoints := [] } cs

/-- What the body of the innermost loop does: it counts, writes the address, and puts the
endpoint into the maps unless it skips it. -/
theorem fixEndpoint_cases (configurationIndex : ℕ) (renumber : Bool) (m : EndpointMaps)
    (e : EndpointDescriptor) :
    ∃ number address, number = (if renumber then m.number + 1 else m.number) ∧
      address = (if renumber then (e.bEndpointAddress &&& 0x80) ||| number
        else e.bEndpointAddress) ∧
      (fixEndpoint configurationIndex renumber m e).2 = { e with bEndpointAddress := address } ∧
      (fixEndpoint configurationIndex renumber m e).1 =
        if skipsEndpoint configurationIndex number e then { m with number := number }
        else { m with number := number }.register e address := by
  refine ⟨_, _, rfl, rfl, ?_, ?_⟩
  · unfold fixEndpoint
    generalize (if renumber then m.number + 1 else m.number) = number
    cases hskip : skipsEndpoint configurationIndex number e <;> simp [hskip]
  · unfold fixEndpoint
    generalize (if renumber then m.number + 1 else m.number) = number
    cases hskip : skipsEndpoint configurationIndex number e <;> simp [hskip]

theorem forEach_fst {σ α : Type*} (body : σ → α → σ × α) (s : σ) (as : List α) :
    (forEach body s as).1 = as.foldl (fun s a => (body s a).1) s := by
  induction as generalizing s with
  | nil => rfl
  | cons a as ih => exact ih _

theorem forEach_cons {σ α : Type*} (body : σ → α → σ × α) (s : σ) (a : α) (as : List α) :
    forEach body s (a :: as) =
      ((forEach body (body s a).1 as).1, (body s a).2 :: (forEach body (body s a).1 as).2) := rfl

theorem forEach_append {σ α : Type*} (body : σ → α → σ × α) (s : σ) (as bs : List α) :
    forEach body s (as ++ bs) =
      ((forEach body (forEach body s as).1 bs).1,
        (forEach body s as).2 ++ (forEach body (forEach body s as).1 bs).2) := by
  induction as generalizing s with
  | nil => rfl
  | cons a as ih =>
      rw [List.cons_append, forEach_cons, ih, forEach_cons]
      rfl

/-- A loop whose body is a loop over the parts of an element is a loop over all parts. -/
theorem forEach_flatMap {σ α β : Type*} {outer : σ → α → σ × α} {body : σ → β → σ × β}
    {parts : α → List β}
    (h : ∀ s a, (outer s a).1 = (forEach body s (parts a)).1 ∧
      parts (outer s a).2 = (forEach body s (parts a)).2) (s : σ) (as : List α) :
    (forEach outer s as).1 = (forEach body s (as.flatMap parts)).1 ∧
      (forEach outer s as).2.flatMap parts = (forEach body s (as.flatMap parts)).2 := by
  induction as generalizing s with
  | nil => exact ⟨rfl, rfl⟩
  | cons a as ih =>
      obtain ⟨hstate, hparts⟩ := h s a
      obtain ⟨hstates, hrest⟩ := ih (outer s a).1
      rw [forEach_cons, List.flatMap_cons, List.flatMap_cons, forEach_append, ← hstate, ← hparts,
        ← hstates, ← hrest]
      exact ⟨rfl, rfl⟩

theorem fixConfiguration_eq (configurationIndex : ℕ) (m : EndpointMaps) (c : Configuration) :
    (fixConfiguration configurationIndex m c).1 =
        (forEach (fixEndpoint configurationIndex c.renumber) { m with number := 0 }
          c.endpoints).1 ∧
      (fixConfiguration configurationIndex m c).2.endpoints =
        (forEach (fixEndpoint configurationIndex c.renumber) { m with number := 0 }
          c.endpoints).2 := by
  have halt : ∀ (m : EndpointMaps) (a : AltInterface),
      (fixAltInterface configurationIndex c.renumber m a).1 =
          (forEach (fixEndpoint configurationIndex c.renumber) m a.endpoints).1 ∧
        (fixAltInterface configurationIndex c.renumber m a).2.endpoints =
          (forEach (fixEndpoint configurationIndex c.renumber) m a.endpoints).2 :=
    fun _ _ => ⟨rfl, rfl⟩
  have hinterface : ∀ (m : EndpointMaps) (i : Interface),
      (fixInterface configurationIndex c.renumber m i).1 =
          (forEach (fixEndpoint configurationIndex c.renumber) m
            (i.altInterfaces.flatMap AltInterface.endpoints)).1 ∧
        (fixInterface configurationIndex c.renumber m i).2.altInterfaces.flatMap
            AltInterface.endpoints =
          (forEach (fixEndpoint configurationIndex c.renumber) m
            (i.altInterfaces.flatMap AltInterface.endpoints)).2 :=
    fun m i => forEach_flatMap halt m i.altInterfaces
  exact forEach_flatMap hinterface { m with number := 0 } c.interfaces

theorem fixConfiguration_fst (configurationIndex : ℕ) (m : EndpointMaps) (c : Configuration) :
    (fixConfiguration configurationIndex m c).1 =
      c.endpoints.foldl (fun m e => (fixEndpoint configurationIndex c.renumber m e).1)
        { m with number := 0 } :=
  (fixConfiguration_eq configurationIndex m c).1.trans (forEach_fst _ _ c.endpoints)

end SerialUsb
