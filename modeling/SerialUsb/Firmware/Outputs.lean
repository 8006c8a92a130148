import SerialUsb.Firmware.Interrupt
import SerialUsb.Proxy.Process

/-!
# The OUT endpoints of the firmware

`outEndpoints`, which `EVENT_USB_Device_ConfigurationChanged` appends to, and the
cursor that `ReceiveNextOutput` moves over it.
-/

namespace SerialUsb

/-- The statics that are only used in the main. -/
structure Outputs where
  outEndpoints : Vector UInt8 maxEndpoints
  selectedOutEndpoint : UInt8
  outEndpointNumber : UInt8
  deriving DecidableEq

def Outputs.boot : Outputs := ⟨Vector.replicate _ 0, 0, 0⟩

def EndpointConfig.ofBytes (b : List UInt8) : EndpointConfig :=
  ⟨b.getD 0 0, b.getD 1 0, b.getD 2 0⟩

def readConfigs : ℕ → List UInt8 → List EndpointConfig
  | 0, _ => []
  | n + 1, b => EndpointConfig.ofBytes b :: readConfigs n (b.drop 3)

def Upload.configs (u : Upload) : List EndpointConfig :=
  readConfigs maxEndpoints u.endpoints.toList

def EndpointConfig.isOut (c : EndpointConfig) : Bool := c.number &&& 0x80 == 0

def Outputs.append (o : Outputs) (i : UInt8) : Outputs :=
  { o with
    outEndpoints := o.outEndpoints.setIfInBounds o.outEndpointNumber.toNat i
    outEndpointNumber := o.outEndpointNumber + 1 }

/-- The loop of `EVENT_USB_Device_ConfigurationChanged` from entry `i` on. The
endpoints it configures are no part of this state. -/
def configurationChangedFrom (o : Outputs) (i : UInt8) : List EndpointConfig → Outputs
  | [] => o
  | c :: cs =>
      if c.number = 0 then o
      else configurationChangedFrom (if c.isOut then o.append i else o) (i + 1) cs

def configurationChanged (u : Upload) (o : Outputs) : Outputs :=
  configurationChangedFrom o 0 u.configs

/-- The choice of the next endpoint in `ReceiveNextOutput`: the index it takes
from the list, if there is one. -/
def Outputs.selectNext (o : Outputs) : Outputs × Option UInt8 :=
  if 0 < o.outEndpointNumber then
    let selected := o.selectedOutEndpoint + 1
    ({ o with
        selectedOutEndpoint := if selected = o.outEndpointNumber then 0 else selected },
      some (o.outEndpoints.toList.getD o.selectedOutEndpoint.toNat 0))
  else (o, none)

def outputIndices (i : UInt8) : List EndpointConfig → List UInt8
  | [] => []
  | c :: cs =>
      if c.number = 0 then []
      else if c.isOut then i :: outputIndices (i + 1) cs
      else outputIndices (i + 1) cs

def Outputs.listed (o : Outputs) : List UInt8 :=
  o.outEndpoints.toList.take o.outEndpointNumber.toNat

theorem length_outputIndices_le (i : UInt8) (cs : List EndpointConfig) :
    (outputIndices i cs).length ≤ cs.length := by
  induction cs generalizing i with
  | nil => exact Nat.le_refl 0
  | cons c cs ih =>
      have hrest := ih (i + 1)
      rw [outputIndices, List.length_cons]
      split
      · exact Nat.zero_le _
      · split
        · rw [List.length_cons]
          omega
        · omega

theorem Outputs.toNat_number_append {o : Outputs} (h : o.outEndpointNumber.toNat < 255)
    (i : UInt8) : (o.append i).outEndpointNumber.toNat = o.outEndpointNumber.toNat + 1 := by
  rw [Outputs.append, UInt8.toNat_add]
  change (o.outEndpointNumber.toNat + 1) % 256 = _
  omega

theorem Outputs.listed_append {o : Outputs} (h : o.outEndpointNumber.toNat < maxEndpoints)
    (i : UInt8) : (o.append i).listed = o.listed ++ [i] := by
  rw [maxEndpoints_eq] at h
  rw [Outputs.listed, Outputs.toNat_number_append (by omega), Outputs.append, Outputs.listed,
    Vector.toList_setIfInBounds, List.take_add_one, List.getElem?_set_self (by simpa using h),
    List.take_set_of_le (Nat.le_refl _)]
  rfl

/-- The loop appends the indices of the OUT entries, as long as they fit. -/
theorem configurationChangedFrom_spec (o : Outputs) (i : UInt8) (cs : List EndpointConfig)
    (h : o.outEndpointNumber.toNat + (outputIndices i cs).length < 256) :
    (configurationChangedFrom o i cs).outEndpointNumber.toNat =
        o.outEndpointNumber.toNat + (outputIndices i cs).length ∧
      (configurationChangedFrom o i cs).selectedOutEndpoint = o.selectedOutEndpoint ∧
      (o.outEndpointNumber.toNat + (outputIndices i cs).length ≤ maxEndpoints →
        (configurationChangedFrom o i cs).listed = o.listed ++ outputIndices i cs) := by
  induction cs generalizing o i with
  | nil => simp [configurationChangedFrom, outputIndices]
  | cons c cs ih =>
      rw [outputIndices] at h ⊢
      rw [configurationChangedFrom]
      by_cases hzero : c.number = 0
      · simp [hzero]
      by_cases hout : c.isOut = true
      · simp only [if_neg hzero, hout, if_true, List.length_cons] at h ⊢
        have hnumber := Outputs.toNat_number_append (o := o) (by omega) i
        obtain ⟨hlen, hselected, hlisted⟩ := ih (o.append i) (i + 1) (by omega)
        refine ⟨by omega, hselected, fun hfit => ?_⟩
        rw [hlisted (by omega), Outputs.listed_append (by omega), List.append_assoc,
          List.singleton_append]
      · simp only [if_neg hzero, if_neg hout] at h ⊢
        exact ih o (i + 1) h

/-- Entry `i` of a table is an OUT entry: no entry up to it marks the end. -/
def IsOutEntry (cs : List EndpointConfig) (i : ℕ) : Prop :=
  ∃ c, (cs.takeWhile fun c => c.number != 0)[i]? = some c ∧ c.isOut = true

theorem isOutEntry_cons {c : EndpointConfig} (h : c.number ≠ 0) (cs : List EndpointConfig)
    (i : ℕ) :
    IsOutEntry (c :: cs) i ↔
      i = 0 ∧ c.isOut = true ∨ ∃ k, i = k + 1 ∧ IsOutEntry cs k := by
  have hwhile : (c :: cs).takeWhile (fun c => c.number != 0) =
      c :: cs.takeWhile fun c => c.number != 0 := by
    rw [List.takeWhile_cons, if_pos (by simpa using h)]
  unfold IsOutEntry
  rw [hwhile]
  cases i with
  | zero => simp
  | succ k => simp

theorem mem_outputIndices {i : UInt8} {cs : List EndpointConfig}
    (h : i.toNat + cs.length < 256) (x : UInt8) :
    x ∈ outputIndices i cs ↔ ∃ k, x.toNat = i.toNat + k ∧ IsOutEntry cs k := by
  induction cs generalizing i with
  | nil => simp [outputIndices, IsOutEntry]
  | cons c cs ih =>
      rw [List.length_cons] at h
      rw [outputIndices]
      by_cases hzero : c.number = 0
      · simp [hzero, IsOutEntry]
      have hnext : (i + 1).toNat = i.toNat + 1 := by
        rw [UInt8.toNat_add]
        change (i.toNat + 1) % 256 = _
        omega
      have hrest : x ∈ outputIndices (i + 1) cs ↔
          ∃ k, x.toNat = i.toNat + (k + 1) ∧ IsOutEntry cs k := by
        rw [ih (by omega), hnext]
        simp only [Nat.add_assoc, Nat.add_comm 1]
      have hsplit : (∃ k, x.toNat = i.toNat + k ∧ IsOutEntry (c :: cs) k) ↔
          x = i ∧ c.isOut = true ∨ ∃ k, x.toNat = i.toNat + (k + 1) ∧ IsOutEntry cs k := by
        simp only [isOutEntry_cons hzero]
        constructor
        · rintro ⟨k, hx, ⟨rfl, hout⟩ | ⟨j, rfl, hj⟩⟩
          · exact Or.inl ⟨UInt8.toNat_inj.1 hx, hout⟩
          · exact Or.inr ⟨j, hx, hj⟩
        · rintro (⟨rfl, hout⟩ | ⟨j, hx, hj⟩)
          · exact ⟨0, rfl, Or.inl ⟨rfl, hout⟩⟩
          · exact ⟨j + 1, hx, Or.inr ⟨j, rfl, hj⟩⟩
      rw [if_neg hzero, hsplit, ← hrest]
      by_cases hout : c.isOut = true
      · simp [hout]
      · simp [hout]

theorem nodup_outputIndices {i : UInt8} {cs : List EndpointConfig}
    (h : i.toNat + cs.length < 256) : (outputIndices i cs).Nodup := by
  induction cs generalizing i with
  | nil => exact List.nodup_nil
  | cons c cs ih =>
      rw [List.length_cons] at h
      have hnext : (i + 1).toNat = i.toNat + 1 := by
        rw [UInt8.toNat_add]
        change (i.toNat + 1) % 256 = _
        omega
      have hrest := ih (i := i + 1) (by omega)
      rw [outputIndices]
      split
      · exact List.nodup_nil
      · split
        · refine List.nodup_cons.2 ⟨fun hmem => ?_, hrest⟩
          obtain ⟨k, hk, _⟩ := (mem_outputIndices (by omega) i).1 hmem
          omega
        · exact hrest

theorem Upload.length_configs (u : Upload) : u.configs.length = maxEndpoints := by
  have hlen : ∀ n b, (readConfigs n b).length = n := by
    intro n
    induction n with
    | zero => exact fun _ => rfl
    | succ n ih => exact fun b => congrArg (· + 1) (ih _)
  exact hlen _ _

end SerialUsb
