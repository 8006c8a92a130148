import Mathlib.Logic.Function.Basic
import SerialUsb.Firmware.EndpointConfigs
import SerialUsb.Memory.MoveToBack

/-!
# The endpoints of the controller

`Endpoint_ConfigureEndpoint` on the registers of the USB controller. Beside the registers the
order is kept in which the bits ALLOC of `UECFG1X` have been set, a log of the writes to these
registers. The function clears and sets the bits of the endpoints of larger numbers again, so
that the bits have been set in the order of the numbers whatever the order of the calls.
-/

namespace SerialUsb

open Memory

abbrev endpointTotalEndpoints : ℕ := 7

abbrev alloc : UInt8 := 0x02

/-- The registers of an endpoint: the bit EPEN of `UECONX`, `UECFG0X`, `UECFG1X` and
`UEIENX`. -/
structure EndpointRegisters where
  epen : Bool
  uecfg0x : UInt8
  uecfg1x : UInt8
  ueienx : UInt8
  deriving DecidableEq

def EndpointRegisters.Allocated (r : EndpointRegisters) : Prop := r.uecfg1x &&& alloc ≠ 0

instance (r : EndpointRegisters) : Decidable r.Allocated := inferInstanceAs (Decidable (_ ≠ _))

def EndpointRegisters.bankSize (r : EndpointRegisters) : ℕ :=
  8 * 2 ^ ((r.uecfg1x >>> 4) &&& 0x07).toNat

/-- The selected endpoint, the registers of each endpoint, and the endpoints whose bit ALLOC is
set, in the order in which the bits have been set. -/
structure Controller where
  uenum : ℕ
  registers : ℕ → EndpointRegisters
  allocations : List ℕ

def Controller.update (c : Controller) (f : EndpointRegisters → EndpointRegisters) :
    Controller :=
  { c with registers := Function.update c.registers c.uenum (f (c.registers c.uenum)) }

def Controller.setUecfg1x (c : Controller) (value : UInt8) : Controller :=
  { c.update fun r => { r with uecfg1x := value } with
    allocations :=
      if value &&& alloc = 0 then c.allocations.filter (· ≠ c.uenum)
      else if c.uenum ∈ c.allocations then c.allocations
      else c.allocations ++ [c.uenum] }

/-- The end of the loop body of `Endpoint_ConfigureEndpoint_Prv`, for the values `r`. -/
def Controller.configure (c : Controller) (r : EndpointRegisters) : Controller :=
  let c := c.update fun r => { r with epen := false }
  let c := c.setUecfg1x ((c.registers c.uenum).uecfg1x &&& ~~~ alloc)
  let c := c.update fun r => { r with epen := true }
  let c := c.update fun old => { old with uecfg0x := r.uecfg0x }
  let c := c.setUecfg1x r.uecfg1x
  c.update fun old => { old with ueienx := r.ueienx }

/-- The loop of `Endpoint_ConfigureEndpoint_Prv` over the endpoints that are left. `cfgok` is
what `Endpoint_IsConfigured` returns. -/
def configureFrom (cfgok : Controller → Bool) (number : ℕ) (uecfg0xData uecfg1xData : UInt8)
    (c : Controller) : List ℕ → Controller × Bool
  | [] => ({ c with uenum := number }, true)
  | epNum :: rest =>
      let c := { c with uenum := epNum }
      let r : EndpointRegisters :=
        if epNum = number then ⟨true, uecfg0xData, uecfg1xData, 0⟩ else c.registers epNum
      if r.Allocated then
        let c := c.configure r
        if cfgok c then configureFrom cfgok number uecfg0xData uecfg1xData c rest else (c, false)
      else configureFrom cfgok number uecfg0xData uecfg1xData c rest

def endpointConfigureEndpointPrv (cfgok : Controller → Bool) (c : Controller) (number : ℕ)
    (uecfg0xData uecfg1xData : UInt8) : Controller × Bool :=
  configureFrom cfgok number uecfg0xData uecfg1xData c
    (List.range' number (endpointTotalEndpoints - number))

/-- The loop of `Endpoint_BytesToEPSizeMask`, for a size that fits a byte. -/
def endpointBytesToEpSizeMaskFrom (bytes : UInt8) : ℕ → ℕ → UInt8 → UInt8
  | 0, _, maskVal => maskVal
  | fuel + 1, checkBytes, maskVal =>
      if checkBytes < bytes.toNat then
        endpointBytesToEpSizeMaskFrom bytes fuel (checkBytes <<< 1) (maskVal + 1)
      else maskVal

def endpointBytesToEpSizeMask (bytes : UInt8) : UInt8 :=
  endpointBytesToEpSizeMaskFrom bytes 8 8 0 <<< 4

def endpointRegisters (address type size banks : UInt8) : EndpointRegisters where
  epen := true
  uecfg0x := type <<< 6 ||| if endpointIn address then 0x01 else 0
  uecfg1x := alloc ||| (if 1 < banks then 0x04 else 0) ||| endpointBytesToEpSizeMask size
  ueienx := 0

def endpointConfigureEndpoint (cfgok : Controller → Bool) (c : Controller)
    (address type size banks : UInt8) : Controller × Bool :=
  if endpointTotalEndpoints ≤ endpointNumber address then (c, false)
  else
    endpointConfigureEndpointPrv cfgok c (endpointNumber address)
      (endpointRegisters address type size banks).uecfg0x
      (endpointRegisters address type size banks).uecfg1x

abbrev epTypeInterrupt : UInt8 := 0x03

/-- The loop of `EVENT_USB_Device_ConfigurationChanged` as far as it configures endpoints, and
whether all of the calls succeed; the loop does not look at it. -/
def configureEndpoints (cfgok : Controller → Bool) (c : Controller) :
    List EndpointConfig → Controller × Bool
  | [] => (c, true)
  | e :: es =>
      if e.number = 0 then (c, true)
      else if e.type = epTypeInterrupt then
        let (c, ok) := endpointConfigureEndpoint cfgok c e.number e.type e.size 1
        let (c, rest) := configureEndpoints cfgok c es
        (c, ok && rest)
      else configureEndpoints cfgok c es

/-- The bits ALLOC have been set in the order of the numbers, and the endpoints that have it are
enabled. -/
structure Controller.Ordered (c : Controller) : Prop where
  sorted : c.allocations.Pairwise (· < ·)
  mem_iff : ∀ n, n ∈ c.allocations ↔ n < endpointTotalEndpoints ∧ (c.registers n).Allocated
  epen : ∀ n, (c.registers n).Allocated → (c.registers n).epen = true

section Configure

variable {cfgok : Controller → Bool} {c c' : Controller} {number : ℕ}
  {uecfg0xData uecfg1xData : UInt8}

theorem and_not_alloc (value : UInt8) : value &&& ~~~ alloc &&& alloc = 0 := by
  rw [UInt8.and_assoc]
  exact UInt8.and_zero

/-- The endpoint has the values, and its bit has been set behind those of all others. -/
theorem Controller.configure_eq (c : Controller) {r : EndpointRegisters} (h : r.Allocated) :
    c.configure r =
      ⟨c.uenum, Function.update c.registers c.uenum { r with epen := true },
        moveToBack c.allocations c.uenum⟩ := by
  have hset : ¬ (r.uecfg1x &&& alloc = 0) := h
  simp only [Controller.configure, Controller.setUecfg1x, Controller.update, and_not_alloc,
    Function.update_self, Function.update_idem, if_true, if_neg hset, List.mem_filter, ne_eq,
    not_true, decide_false, Bool.false_eq_true, and_false, if_false]
  rfl

def Controller.target (c : Controller) (number : ℕ) (uecfg0xData uecfg1xData : UInt8) (n : ℕ) :
    EndpointRegisters :=
  if n = number then ⟨true, uecfg0xData, uecfg1xData, 0⟩
  else { c.registers n with epen := true }

/-- The loop goes through the endpoints that have the bit or get it. -/
theorem configureFrom_spec {ns : List ℕ} (hnodup : ns.Nodup)
    (h : configureFrom cfgok number uecfg0xData uecfg1xData c ns = (c', true)) :
    c'.uenum = number ∧
      (∀ n, c'.registers n =
        if n ∈ ns ∧ (c.target number uecfg0xData uecfg1xData n).Allocated then
          c.target number uecfg0xData uecfg1xData n
        else c.registers n) ∧
      c'.allocations = moveAll c.allocations
        (ns.filter fun n => (c.target number uecfg0xData uecfg1xData n).Allocated) := by
  induction ns generalizing c with
  | nil =>
      obtain rfl := (Prod.mk.inj h).1
      exact ⟨rfl, fun n => by simp, rfl⟩
  | cons k ns ih =>
      obtain ⟨hk, hns⟩ := List.nodup_cons.1 hnodup
      rw [configureFrom] at h
      dsimp only at h
      have hvalues : { (if k = number then ⟨true, uecfg0xData, uecfg1xData, 0⟩
          else c.registers k : EndpointRegisters) with epen := true } =
            c.target number uecfg0xData uecfg1xData k := by
        unfold Controller.target
        split <;> rfl
      have hallocated : (if k = number then ⟨true, uecfg0xData, uecfg1xData, 0⟩
          else c.registers k : EndpointRegisters).Allocated ↔
            (c.target number uecfg0xData uecfg1xData k).Allocated := by
        rw [← hvalues]
        exact Iff.rfl
      by_cases hset : (c.target number uecfg0xData uecfg1xData k).Allocated
      · rw [if_pos (hallocated.2 hset), Controller.configure_eq _ (hallocated.2 hset),
          hvalues] at h
        dsimp only at h
        split at h
        next =>
          obtain ⟨huenum, hregisters, hallocations⟩ := ih hns h
          have htarget : ∀ n ∈ ns,
              Controller.target ⟨k, Function.update c.registers k
                (c.target number uecfg0xData uecfg1xData k), moveToBack c.allocations k⟩ number
                  uecfg0xData uecfg1xData n = c.target number uecfg0xData uecfg1xData n := by
            intro n hn
            have hne : n ≠ k := fun heq => hk (heq ▸ hn)
            simp [Controller.target, hne]
          refine ⟨huenum, fun n => ?_, ?_⟩
          · rw [hregisters n]
            by_cases hn : n ∈ ns
            · have hne : n ≠ k := fun heq => hk (heq ▸ hn)
              simp [htarget n hn, hn, hne]
            · by_cases heq : n = k
              · subst heq
                simp [hn, hset]
              · simp [hn, heq]
          · rw [hallocations, List.filter_cons_of_pos (by simpa using hset), moveAll_cons]
            exact congrArg _ (List.filter_congr fun n hn => by rw [htarget n hn])
        next => exact absurd (Prod.mk.inj h).2 (by simp)
      · rw [if_neg (mt hallocated.1 hset)] at h
        obtain ⟨huenum, hregisters, hallocations⟩ := ih hns h
        refine ⟨huenum, fun n => ?_, ?_⟩
        · rw [hregisters n]
          by_cases heq : n = k
          · subst heq
            simp [hk, hset]
          · simp [heq, Controller.target]
        · rw [hallocations, List.filter_cons_of_neg (by simpa using hset)]
          rfl

theorem Controller.Ordered.configuredPrv (h : c.Ordered)
    (hnumber : number < endpointTotalEndpoints)
    (halloc : uecfg1xData &&& alloc ≠ 0)
    (hcall : endpointConfigureEndpointPrv cfgok c number uecfg0xData uecfg1xData =
      (c', true)) :
    c'.Ordered ∧ c'.registers =
      Function.update c.registers number ⟨true, uecfg0xData, uecfg1xData, 0⟩ := by
  have hrange : ∀ n, n ∈ List.range' number (endpointTotalEndpoints - number) ↔
      number ≤ n ∧ n < endpointTotalEndpoints := by
    intro n
    rw [List.mem_range'_1]
    omega
  have hnodup : ((List.range' number (endpointTotalEndpoints - number)).filter fun n =>
      (c.target number uecfg0xData uecfg1xData n).Allocated).Nodup :=
    List.Nodup.filter _ List.nodup_range'
  obtain ⟨_, hregisters, hallocations⟩ := configureFrom_spec List.nodup_range' hcall
  have hsame : c'.registers =
      Function.update c.registers number ⟨true, uecfg0xData, uecfg1xData, 0⟩ := by
    funext n
    rw [hregisters n]
    by_cases heq : n = number
    · subst heq
      have hset : (c.target n uecfg0xData uecfg1xData n).Allocated := by
        rw [Controller.target, if_pos rfl]
        exact halloc
      rw [if_pos ⟨(hrange n).2 ⟨Nat.le_refl n, hnumber⟩, hset⟩]
      simp [Controller.target]
    · rw [Function.update_of_ne heq]
      split
      next hset =>
        have htarget : c.target number uecfg0xData uecfg1xData n =
            { c.registers n with epen := true } := if_neg heq
        have hepen : (c.registers n).epen = true := h.epen n (by
          rw [htarget] at hset
          exact hset.2)
        rw [htarget, ← hepen]
      next => rfl
  refine ⟨⟨?_, fun n => ?_, fun n hn => ?_⟩, hsame⟩
  · rw [hallocations]
    refine pairwise_moveAll hnodup h.sorted
      (List.Pairwise.filter _ List.pairwise_lt_range') fun a ha hnot k hk => ?_
    obtain ⟨hk, _⟩ := List.mem_filter.1 hk
    obtain ⟨hlt, hset⟩ := (h.mem_iff a).1 ha
    by_contra hle
    -- the bit of an endpoint from `number` on is set again
    refine hnot (List.mem_filter.2 ⟨(hrange a).2 ⟨?_, hlt⟩, decide_eq_true ?_⟩)
    · exact ((hrange k).1 hk).1.trans (not_lt.1 hle)
    · unfold Controller.target
      split
      · exact halloc
      · exact hset
  · rw [hallocations, mem_moveAll hnodup, List.mem_filter, hrange, h.mem_iff,
      hsame]
    by_cases heq : n = number
    · subst heq
      simpa [Controller.target, EndpointRegisters.Allocated, hnumber] using fun _ => halloc
    · rw [Function.update_of_ne heq]
      simp [Controller.target, heq, EndpointRegisters.Allocated]
      tauto
  · rw [hsame] at hn ⊢
    by_cases heq : n = number
    · rw [heq, Function.update_self]
    · rw [Function.update_of_ne heq] at hn ⊢
      exact h.epen n hn

theorem allocated_endpointRegisters (address type size banks : UInt8) :
    (endpointRegisters address type size banks).uecfg1x &&& alloc ≠ 0 := by
  have hbits : ∀ x y : UInt8, (alloc ||| x ||| y) &&& alloc = alloc := by
    intro x y
    rw [UInt8.or_assoc]
    apply UInt8.toBitVec_inj.1
    simp only [UInt8.toBitVec_and, UInt8.toBitVec_or]
    ext i hi
    simp only [BitVec.getElem_and, BitVec.getElem_or]
    grind
  intro hzero
  exact absurd ((hbits _ _).symm.trans hzero) (by decide)

theorem Controller.Ordered.configured (h : c.Ordered)
    {address type size banks : UInt8}
    (hcall : endpointConfigureEndpoint cfgok c address type size banks = (c', true)) :
    c'.Ordered ∧ c'.registers = Function.update c.registers (endpointNumber address)
      (endpointRegisters address type size banks) := by
  unfold endpointConfigureEndpoint at hcall
  split at hcall
  next => exact absurd (Prod.mk.inj hcall).2 (by simp)
  next hnumber =>
    exact h.configuredPrv (not_le.1 hnumber)
      (allocated_endpointRegisters address type size banks) hcall

/-- The bank has room for the packets of the endpoint. -/
theorem le_bankSize (address type : UInt8) {size : UInt8} (hsize : size.toNat ≤ 64) :
    size.toNat ≤ (endpointRegisters address type size 1).bankSize ∧
      (endpointRegisters address type size 1).bankSize ≤ 64 := by
  have hsizes : ∀ size : UInt8, size.toNat ≤ 64 →
      size.toNat ≤ (endpointRegisters 0 0 size 1).bankSize ∧
        (endpointRegisters 0 0 size 1).bankSize ≤ 64 := by
    rintro ⟨⟨size⟩⟩
    revert size
    decide +kernel
  exact hsizes size hsize

end Configure

end SerialUsb
