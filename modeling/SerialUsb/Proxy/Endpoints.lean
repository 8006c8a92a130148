import Mathlib.Data.Vector.Basic
import Mathlib.Data.UInt
import SerialUsb.Protocol.Packet

/-!
# Endpoint addresses and the endpoint tables

The macros `ENDPOINT_ADDR_TO_INDEX`, `ENDPOINT_DIR_TO_INDEX`, `S2U_ENDPOINT` and
`U2S_ENDPOINT`. A table `[2][ENDPOINT_MAX_NUMBER]` is its 30 bytes in a row, and
an index outside of it reads whatever the memory holds there.
-/

namespace SerialUsb

abbrev endpointMaxNumber : ℕ := 15

@[simp] theorem endpointMaxNumber_eq : endpointMaxNumber = 15 := rfl

/-- `ENDPOINT_ADDR_TO_INDEX`, for arguments of any width. -/
def endpointAddrToIndex (endpoint : ℕ) : ℤ := (endpoint &&& 0x0f : ℕ) - 1

def endpointDirToIndex (endpoint : ℕ) : ℕ := endpoint >>> 7

def tableIndex (endpoint : ℕ) : ℤ :=
  endpointDirToIndex endpoint * endpointMaxNumber + endpointAddrToIndex endpoint

/-- `serialToUsbEndpoint` or `usbToSerialEndpoint`, with the memory around it. -/
structure EndpointTable where
  entries : Vector UInt8 30
  outside : ℤ → UInt8

def EndpointTable.get (t : EndpointTable) (endpoint : ℕ) : UInt8 :=
  if h : 0 ≤ tableIndex endpoint ∧ tableIndex endpoint < 30 then
    t.entries[(tableIndex endpoint).toNat]
  else t.outside (tableIndex endpoint)

def EndpointTable.set (t : EndpointTable) (endpoint : ℕ) (value : UInt8) :
    EndpointTable :=
  if h : 0 ≤ tableIndex endpoint ∧ tableIndex endpoint < 30 then
    { t with entries := t.entries.set (tableIndex endpoint).toNat value }
  else t

def endpointNumber (endpoint : UInt8) : ℕ := endpoint.toNat % 16

def endpointIn (endpoint : UInt8) : Bool := endpoint &&& 0x80 == 0x80

theorem tableIndex_eq (endpoint : ℕ) :
    tableIndex endpoint = (endpoint / 128 * 15 + endpoint % 16 : ℕ) - 1 := by
  have hand : endpoint &&& 0x0f = endpoint % 16 := Nat.and_two_pow_sub_one_eq_mod endpoint 4
  have hshift : endpoint >>> 7 = endpoint / 128 := Nat.shiftRight_eq_div_pow endpoint 7
  rw [tableIndex, endpointAddrToIndex, endpointDirToIndex, hand, hshift, endpointMaxNumber_eq]
  omega

theorem tableIndex_bounds {endpoint : UInt8} (h : endpointNumber endpoint ≠ 0) :
    0 ≤ tableIndex endpoint.toNat ∧ tableIndex endpoint.toNat < 30 := by
  have hlt := endpoint.toNat_lt
  unfold endpointNumber at h
  rw [tableIndex_eq]
  omega

theorem endpointIn_iff (endpoint : UInt8) :
    endpointIn endpoint = true ↔ 128 ≤ endpoint.toNat := by
  obtain ⟨⟨n⟩⟩ := endpoint
  revert n
  decide +kernel

/-- Two address bytes select the same element exactly when they have the same
direction and number. -/
theorem tableIndex_eq_iff (a b : UInt8) :
    tableIndex a.toNat = tableIndex b.toNat ↔
      (endpointIn a = endpointIn b ∧ endpointNumber a = endpointNumber b) ∨
      (endpointIn a ≠ endpointIn b ∧
        (endpointNumber a = 0 ∧ endpointNumber b = 15 ∧ endpointIn a = true ∨
          endpointNumber a = 15 ∧ endpointNumber b = 0 ∧ endpointIn b = true)) := by
  have ha := a.toNat_lt
  have hb := b.toNat_lt
  have hina := endpointIn_iff a
  have hinb := endpointIn_iff b
  unfold endpointNumber
  rw [tableIndex_eq, tableIndex_eq]
  cases hca : endpointIn a <;> cases hcb : endpointIn b <;>
    simp only [hca, hcb, Bool.false_eq_true, false_iff, true_iff, not_le] at hina hinb <;>
    simp <;> omega

theorem EndpointTable.get_set_self (t : EndpointTable) {endpoint : UInt8} (value : UInt8)
    (h : endpointNumber endpoint ≠ 0) :
    (t.set endpoint.toNat value).get endpoint.toNat = value := by
  have hbounds := tableIndex_bounds h
  simp [EndpointTable.set, EndpointTable.get, hbounds]

theorem EndpointTable.get_set_of_ne (t : EndpointTable) {a b : ℕ} (value : UInt8)
    (h : tableIndex a ≠ tableIndex b) : (t.set a value).get b = t.get b := by
  unfold EndpointTable.set
  split
  next ha =>
    unfold EndpointTable.get
    split
    next hb =>
      have hne : (tableIndex a).toNat ≠ (tableIndex b).toNat := by omega
      rw [Vector.getElem_set_ne _ _ hne]
    next => rfl
  next => rfl

def payloadsOf (endpoint : UInt8) (l : List (UInt8 × List UInt8)) : List (List UInt8) :=
  (l.filter fun x => x.1 = endpoint).map Prod.snd

theorem payloadsOf_concat (endpoint : UInt8) (l : List (UInt8 × List UInt8))
    (x : UInt8 × List UInt8) :
    payloadsOf endpoint (l ++ [x]) =
      payloadsOf endpoint l ++ if x.1 = endpoint then [x.2] else [] := by
  unfold payloadsOf
  rw [List.filter_append, List.map_append]
  by_cases h : x.1 = endpoint
  · rw [if_pos h, List.filter_cons_of_pos (by simpa using h)]
    rfl
  · rw [if_neg h, List.filter_cons_of_neg (by simpa using h)]
    rfl

theorem payloadsOf_concat_self (endpoint : UInt8) (l : List (UInt8 × List UInt8))
    (payload : List UInt8) :
    payloadsOf endpoint (l ++ [(endpoint, payload)]) = payloadsOf endpoint l ++ [payload] := by
  rw [payloadsOf_concat, if_pos rfl]

theorem payloadsOf_concat_of_ne {endpoint other : UInt8} (h : other ≠ endpoint)
    (l : List (UInt8 × List UInt8)) (payload : List UInt8) :
    payloadsOf endpoint (l ++ [(other, payload)]) = payloadsOf endpoint l := by
  rw [payloadsOf_concat, if_neg h, List.append_nil]

theorem payloadsOf_isPrefix (endpoint : UInt8) {l m : List (UInt8 × List UInt8)} (h : l <+: m) :
    payloadsOf endpoint l <+: payloadsOf endpoint m :=
  (h.filter _).map _

end SerialUsb
