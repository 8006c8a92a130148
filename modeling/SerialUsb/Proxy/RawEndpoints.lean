import SerialUsb.Gusb.Pointers
import SerialUsb.Proxy.EndpointMaps

/-!
# Rewriting the raw configurations

`fix_endpoints` as it reads and writes through the pointers of the descriptor tree. A
descriptor is read when the loop comes to it, from the bytes as they are by then, and so is the
number of interfaces. A parsed tree is rewritten as by one loop over its endpoints, which
changes the bytes of their addresses only.
-/

namespace SerialUsb

open Memory

def RawConfiguration.setByte (r : RawConfiguration) (i : ℕ) (b : UInt8) : RawConfiguration :=
  ⟨Function.update r.byte i b⟩

def PConfiguration.renumber (c : PConfiguration) : Bool := c.read.renumber

/-- The bytes when the first `n` endpoints in the order of the loops have got the addresses for
their positions. -/
def PConfiguration.rawAfter (c : PConfiguration) (n : ℕ) : RawConfiguration where
  byte i :=
    match ((c.endpoints.take n).zipIdx 1).find? fun y => y.1 + 2 = i with
    | some y => targetAddress c.renumber (c.raw.endpoint y.1, y.2)
    | none => c.raw.byte i

/-- The endpoint descriptors as the loops find them, each behind the addresses of those before
it. -/
def PConfiguration.found (c : PConfiguration) : List EndpointDescriptor :=
  c.endpoints.zipIdx.map fun y => (c.rawAfter y.2).endpoint y.1

theorem PConfiguration.found_congr {c c' : PConfiguration} (hraw : c.raw = c'.raw)
    (h : c.endpoints = c'.endpoints) : c.renumber = c'.renumber ∧ c.found = c'.found := by
  have hrenumber : c.renumber = c'.renumber := by
    unfold PConfiguration.renumber Configuration.renumber getEndpointProperties
    rw [c.endpoints_read, c'.endpoints_read, hraw, h]
  refine ⟨hrenumber, ?_⟩
  unfold PConfiguration.found PConfiguration.rawAfter
  rw [h, hrenumber, hraw]

section Loops

variable (configurationIndex : ℕ) (renumber : Bool)

def fixEndpointAt (x : EndpointMaps × RawConfiguration) (p : ℕ) :
    EndpointMaps × RawConfiguration :=
  let (m, e) := fixEndpoint configurationIndex renumber x.1 (x.2.endpoint p)
  (m, x.2.setByte (p + 2) e.bEndpointAddress)

def fixAltInterfaceAt (x : EndpointMaps × RawConfiguration) (a : PAltInterface) :
    EndpointMaps × RawConfiguration :=
  a.endpoints.visible.foldl (fixEndpointAt configurationIndex renumber) x

def fixInterfaceAt (x : EndpointMaps × RawConfiguration) (i : PInterface) :
    EndpointMaps × RawConfiguration :=
  i.altInterfaces.visible.foldl (fixAltInterfaceAt configurationIndex renumber) x

def fixInterfacesAt (c : PConfiguration) :
    ℕ → ℕ → EndpointMaps × RawConfiguration → EndpointMaps × RawConfiguration
  | 0, _, x => x
  | iterations + 1, interfaceIndex, x =>
      if interfaceIndex < x.2.bNumInterfaces.toNat then
        fixInterfacesAt c iterations (interfaceIndex + 1)
          (fixInterfaceAt configurationIndex renumber x (c.interface interfaceIndex))
      else x

end Loops

/-- The body of the outermost loop; `interfaceIndex` has 8 bits. -/
def fixConfigurationAt (configurationIndex : ℕ) (m : EndpointMaps) (c : PConfiguration) :
    EndpointMaps × PConfiguration :=
  let (m, raw) :=
    fixInterfacesAt configurationIndex c.renumber c 255 0 ({ m with number := 0 }, c.raw)
  (m, { c with raw := raw })

def fixConfigurationsAt (configurationIndex : ℕ) (m : EndpointMaps) :
    List PConfiguration → EndpointMaps × List PConfiguration
  | [] => (m, [])
  | c :: cs =>
      let (m, c) := fixConfigurationAt configurationIndex m c
      let (m, cs) := fixConfigurationsAt (configurationIndex + 1) m cs
      (m, c :: cs)

def fixEndpointsAt (m : EndpointMaps) (cs : List PConfiguration) :
    EndpointMaps × List PConfiguration :=
  fixConfigurationsAt 0 { m with endpoints := [] } cs

section Bytes

variable {configurationIndex : ℕ} {renumber : Bool}

theorem RawConfiguration.setByte_byte (r : RawConfiguration) (i : ℕ) (b : UInt8) :
    (r.setByte i b).byte i = b :=
  Function.update_self ..

theorem RawConfiguration.setByte_byte_of_ne (r : RawConfiguration) {i j : ℕ} (h : j ≠ i)
    (b : UInt8) : (r.setByte i b).byte j = r.byte j :=
  Function.update_of_ne h ..

theorem fixEndpointAt_spec (configurationIndex : ℕ) (renumber : Bool)
    (x : EndpointMaps × RawConfiguration) (p : ℕ) :
    ∃ number address, number = (if renumber then x.1.number + 1 else x.1.number) ∧
      address = (if renumber then (x.2.byte (p + 2) &&& 0x80) ||| number
        else x.2.byte (p + 2)) ∧
      (fixEndpointAt configurationIndex renumber x p).1.number = number ∧
      (fixEndpointAt configurationIndex renumber x p).2 = x.2.setByte (p + 2) address := by
  obtain ⟨number, address, hnumber, haddress, hfixed, hmaps⟩ :=
    fixEndpoint_cases configurationIndex renumber x.1 (x.2.endpoint p)
  refine ⟨number, address, hnumber, haddress, ?_, ?_⟩
  · change (fixEndpoint configurationIndex renumber x.1 (x.2.endpoint p)).1.number = number
    rw [hmaps]
    split <;> rfl
  · change x.2.setByte (p + 2)
      (fixEndpoint configurationIndex renumber x.1 (x.2.endpoint p)).2.bEndpointAddress = _
    rw [hfixed]

theorem foldl_fixEndpointAt_of_ne (ps : List ℕ) (x : EndpointMaps × RawConfiguration) {i : ℕ}
    (h : ∀ p ∈ ps, i ≠ p + 2) :
    (ps.foldl (fixEndpointAt configurationIndex renumber) x).2.byte i = x.2.byte i := by
  induction ps generalizing x with
  | nil => rfl
  | cons p ps ih =>
      obtain ⟨number, address, -, -, -, hbyte⟩ :=
        fixEndpointAt_spec configurationIndex renumber x p
      rw [List.foldl_cons, ih _ fun q hq => h q (List.mem_cons_of_mem p hq), hbyte]
      exact x.2.setByte_byte_of_ne (h p List.mem_cons_self) address

variable (configurationIndex renumber) in
/-- A loop over different endpoints gives each of them the address for its position. -/
theorem foldl_fixEndpointAt_address {ps : List ℕ} (hps : ps.Nodup)
    (x : EndpointMaps × RawConfiguration) (n : ℕ)
    (hx : x.1.number = if renumber then UInt8.ofNat n else 0) {y : ℕ × ℕ}
    (hy : y ∈ ps.zipIdx (n + 1)) :
    (ps.foldl (fixEndpointAt configurationIndex renumber) x).2.byte (y.1 + 2) =
      targetAddress renumber (x.2.endpoint y.1, y.2) := by
  induction ps generalizing x n with
  | nil => exact absurd hy List.not_mem_nil
  | cons p ps ih =>
      obtain ⟨number, address, hnumber, haddress, hcounted, hbyte⟩ :=
        fixEndpointAt_spec configurationIndex renumber x p
      rw [List.nodup_cons] at hps
      have hnext : number = if renumber then UInt8.ofNat (n + 1) else 0 := by
        rw [hnumber, hx, UInt8.ofNat_add]
        cases renumber <;> rfl
      rw [List.zipIdx_cons, List.mem_cons] at hy
      rw [List.foldl_cons]
      rcases hy with rfl | hy
      · rw [foldl_fixEndpointAt_of_ne ps, hbyte, RawConfiguration.setByte_byte, haddress, hnext]
        · cases renumber <;> rfl
        · rintro q hq heq
          obtain rfl : p = q := Nat.add_right_cancel heq
          exact hps.1 hq
      · have hmem := List.fst_mem_of_mem_zipIdx hy
        have hne : y.1 + 2 ≠ p + 2 := by
          intro heq
          rw [Nat.add_right_cancel heq] at hmem
          exact hps.1 hmem
        have hkept : ((fixEndpointAt configurationIndex renumber x p).2.endpoint
            y.1).bEndpointAddress = (x.2.endpoint y.1).bEndpointAddress := by
          rw [hbyte]
          exact x.2.setByte_byte_of_ne hne address
        rw [ih hps.2 _ (n + 1) (hcounted.trans hnext) hy]
        unfold targetAddress
        rw [hkept]

theorem fixInterfaceAt_eq (x : EndpointMaps × RawConfiguration) (i : PInterface) :
    fixInterfaceAt configurationIndex renumber x i =
      (i.altInterfaces.visible.flatMap fun a => a.endpoints.visible).foldl
        (fixEndpointAt configurationIndex renumber) x :=
  List.foldl_flatMap.symm

variable (configurationIndex renumber) in
/-- The loop over the interfaces, when no address lies over `bNumInterfaces`. -/
theorem fixInterfacesAt_eq {c : PConfiguration} (n : ℕ) (iterations interfaceIndex : ℕ)
    (x : EndpointMaps × RawConfiguration) (hx : x.2.bNumInterfaces.toNat = n)
    (hiterations : n ≤ interfaceIndex + iterations)
    (h : ∀ number < n, ∀ p ∈ (c.interface number).altInterfaces.visible.flatMap
      (fun a => a.endpoints.visible), 3 ≤ p) :
    fixInterfacesAt configurationIndex renumber c iterations interfaceIndex x =
      ((List.range' interfaceIndex (n - interfaceIndex)).flatMap fun number =>
        (c.interface number).altInterfaces.visible.flatMap fun a => a.endpoints.visible).foldl
          (fixEndpointAt configurationIndex renumber) x := by
  induction iterations generalizing interfaceIndex x with
  | zero =>
      have hzero : n - interfaceIndex = 0 := by omega
      rw [hzero]
      rfl
  | succ iterations ih =>
      rw [fixInterfacesAt, hx]
      by_cases hlt : interfaceIndex < n
      · obtain ⟨k, hk⟩ : ∃ k, n - interfaceIndex = k + 1 := ⟨n - interfaceIndex - 1, by omega⟩
        have hk' : n - (interfaceIndex + 1) = k := by omega
        rw [if_pos hlt, hk, List.range'_succ, List.flatMap_cons, List.foldl_append,
          ← fixInterfaceAt_eq, ← hk']
        refine ih (interfaceIndex + 1) _ ?_ (by omega)
        rw [fixInterfaceAt_eq, ← hx]
        refine congrArg UInt8.toNat (foldl_fixEndpointAt_of_ne _ x fun p hp => ?_)
        have h3 := h interfaceIndex hlt p hp
        omega
      · have hzero : n - interfaceIndex = 0 := by omega
        rw [if_neg hlt, hzero]
        rfl

theorem fixConfigurationAt_eq (configurationIndex : ℕ) (m : EndpointMaps) {c : PConfiguration}
    (h : ∀ p ∈ c.endpoints, 3 ≤ p) :
    ((fixConfigurationAt configurationIndex m c).1,
        (fixConfigurationAt configurationIndex m c).2.raw) =
      c.endpoints.foldl (fixEndpointAt configurationIndex c.renumber)
        ({ m with number := 0 }, c.raw) := by
  have hlt := c.raw.bNumInterfaces.toNat_lt
  have hparts : ∀ number < c.raw.bNumInterfaces.toNat,
      ∀ p ∈ (c.interface number).altInterfaces.visible.flatMap
        (fun a => a.endpoints.visible), 3 ≤ p := by
    intro number hnumber p hp
    exact h p (List.mem_flatMap.2 ⟨number, List.mem_range.2 hnumber, hp⟩)
  have hloop := fixInterfacesAt_eq configurationIndex c.renumber c.raw.bNumInterfaces.toNat 255 0
    ({ m with number := 0 }, c.raw) rfl (by omega) hparts
  rw [Nat.sub_zero, ← List.range_eq_range'] at hloop
  exact hloop

theorem foldl_take_fixEndpointAt {c : PConfiguration} (hnodup : c.endpoints.Nodup)
    (configurationIndex : ℕ) (m : EndpointMaps) (n : ℕ) :
    ((c.endpoints.take n).foldl (fixEndpointAt configurationIndex c.renumber)
      ({ m with number := 0 }, c.raw)).2 = c.rawAfter n := by
  have hps : (c.endpoints.take n).Nodup := hnodup.sublist (List.take_sublist n _)
  unfold PConfiguration.rawAfter
  refine congrArg RawConfiguration.mk (funext fun i => ?_)
  cases hfind : ((c.endpoints.take n).zipIdx 1).find? fun y => y.1 + 2 = i with
  | none =>
      refine foldl_fixEndpointAt_of_ne _ _ fun p hp heq => ?_
      obtain ⟨j, hj, hget⟩ := List.getElem_of_mem hp
      have hmem : (p, 1 + j) ∈ (c.endpoints.take n).zipIdx 1 := by
        rw [List.mk_add_mem_zipIdx_iff_getElem?, List.getElem?_eq_getElem hj, hget]
      have hne := List.find?_eq_none.1 hfind _ hmem
      exact hne (decide_eq_true heq.symm)
  | some y =>
      have hi : y.1 + 2 = i := by simpa using List.find?_some hfind
      have haddress := foldl_fixEndpointAt_address configurationIndex c.renumber hps
        ({ m with number := 0 }, c.raw) 0 (by cases c.renumber <;> rfl)
        (List.mem_of_find?_eq_some hfind)
      rw [← hi]
      exact haddress

theorem foldl_fixEndpointAt_maps {c : PConfiguration} (hnodup : c.endpoints.Nodup)
    (configurationIndex : ℕ) (m : EndpointMaps) (n : ℕ) :
    ((c.endpoints.take n).foldl (fixEndpointAt configurationIndex c.renumber)
      ({ m with number := 0 }, c.raw)).1 =
      (c.found.take n).foldl (fun m e => (fixEndpoint configurationIndex c.renumber m e).1)
        { m with number := 0 } := by
  induction n with
  | zero => rfl
  | succ n ih =>
      by_cases hn : n < c.endpoints.length
      · have hfound : n < c.found.length := by
          rwa [PConfiguration.found, List.length_map, List.length_zipIdx]
        have hget : c.found[n] = (c.rawAfter n).endpoint c.endpoints[n] := by
          simp only [PConfiguration.found, List.getElem_map, List.getElem_zipIdx, Nat.zero_add]
        rw [List.take_succ_eq_append_getElem hn, List.take_succ_eq_append_getElem hfound,
          List.foldl_concat, List.foldl_concat, ← ih, hget,
          ← foldl_take_fixEndpointAt hnodup configurationIndex m n]
        rfl
      · have hle : c.endpoints.length ≤ n := Nat.not_lt.1 hn
        have hle' : c.found.length ≤ n := by
          rwa [PConfiguration.found, List.length_map, List.length_zipIdx]
        rw [List.take_of_length_le hle, List.take_of_length_le hle'] at ih
        rw [List.take_of_length_le (Nat.le_succ_of_le hle),
          List.take_of_length_le (Nat.le_succ_of_le hle')]
        exact ih

/-- What the body of the outermost loop does with a parsed configuration. -/
theorem fixConfigurationAt_spec (configurationIndex : ℕ) (m : EndpointMaps) {c : PConfiguration}
    (hnodup : c.endpoints.Nodup) (h : ∀ p ∈ c.endpoints, 3 ≤ p) :
    fixConfigurationAt configurationIndex m c =
      (c.found.foldl (fun m e => (fixEndpoint configurationIndex c.renumber m e).1)
        { m with number := 0 }, { c with raw := c.rawAfter c.endpoints.length }) := by
  have hfold := fixConfigurationAt_eq configurationIndex m h
  have hraw := foldl_take_fixEndpointAt hnodup configurationIndex m c.endpoints.length
  have hmaps := foldl_fixEndpointAt_maps hnodup configurationIndex m c.endpoints.length
  have hlength : c.found.length = c.endpoints.length := by
    rw [PConfiguration.found, List.length_map, List.length_zipIdx]
  rw [List.take_length] at hraw
  rw [List.take_length, ← hlength, List.take_length] at hmaps
  rw [← hmaps, ← hraw, ← hfold]
  rfl

end Bytes

end SerialUsb
