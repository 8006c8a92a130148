import SerialUsb.Gusb.Walk

/-!
# Records in the order of their arrival

A record of an interface is told from the others by how many records of the interface came before
it: the count in a byte starts over, and so do the indices. `Arrivals` are the numbers of records
and the records that were given an endpoint, along a walk; `Arrived` is what the tree shows of
them.
-/

namespace SerialUsb

open Memory

/-- The number of records of each interface, and for each endpoint its interface and the arrival
of its record. -/
structure Arrivals where
  total : ℕ → ℕ
  endpoints : List (ℕ × ℕ)

namespace Arrivals

def start : Arrivals := ⟨fun _ => 0, []⟩

def first (a : Arrivals) (number : ℕ) : ℕ := a.total number / 256 * 256

def addAltInterface (a : Arrivals) (number : ℕ) : Arrivals :=
  { a with total := Function.update a.total number (a.total number + 1) }

def addEndpoint (a : Arrivals) (number alt : ℕ) : Arrivals :=
  { a with endpoints := a.endpoints ++ [(number, a.first number + alt)] }

def handle (a : Arrivals) (s : Probing) (p : ℕ) : Arrivals :=
  if s.tree.raw.bDescriptorType p = libusbDtInterface then
    a.addAltInterface (s.tree.raw.bInterfaceNumber p).toNat
  else if s.tree.raw.bDescriptorType p = libusbDtEndpoint then
    match s.tree.getInterface s.interface with
    | none => a
    | some (number, alt) => a.addEndpoint number alt
  else a

def handleAll : Arrivals → Probing → List ℕ → Arrivals
  | a, _, [] => a
  | a, s, p :: ps => (a.handle s p).handleAll (s.handle p) ps

def Shown (a : Arrivals) : Prop := ∀ x ∈ a.endpoints, a.first x.1 ≤ x.2

instance (a : Arrivals) : Decidable a.Shown := by
  unfold Shown
  infer_instance

end Arrivals

/-- The records of an interface show `total` arrivals: the count is their number in a byte, and a
record has an array of endpoints if its arrival was `given` one. -/
structure PInterface.Shows (i : PInterface) (total : ℕ) (given : ℕ → Prop) : Prop where
  count : i.altInterfaces.count.toNat = total % 256
  elements : i.altInterfaces.elements = [] ↔ total = 0
  endpoints : ∀ alt x, i.altInterfaces.visible[alt]? = some x →
    (x.endpoints.elements = [] ↔ ¬ given (total / 256 * 256 + alt))

namespace PInterface.Shows

variable {i : PInterface} {total : ℕ} {given : ℕ → Prop}

theorem empty (given : ℕ → Prop) : (⟨CountedArray.empty⟩ : PInterface).Shows 0 given where
  count := rfl
  elements := ⟨fun _ => rfl, fun _ => rfl⟩
  endpoints := by
    intro alt x hx
    change (List.take 0 [])[alt]? = some x at hx
    simp at hx

theorem push (h : i.Shows total given) (hgiven : ∀ k, given k → k < total) (p : ℕ) :
    (⟨i.altInterfaces.push (PAltInterface.start p)⟩ : PInterface).Shows (total + 1) given where
  count := by
    have hcount := h.count
    change (i.altInterfaces.count + 1).toNat = _
    rw [UInt8.toNat_add, hcount]
    change (_ + 1) % 256 = _
    omega
  elements := by simp [CountedArray.push]
  endpoints := by
    intro alt x hx
    rw [CountedArray.visible_push] at hx
    by_cases hfull : i.altInterfaces.count = 255
    · rw [if_pos hfull] at hx
      cases hx
    · have hcount := h.count
      have hlength := i.altInterfaces.length_visible
      have hne : i.altInterfaces.count.toNat ≠ 255 := fun heq => hfull (UInt8.toNat_inj.1 heq)
      have hfirst : (total + 1) / 256 * 256 = total / 256 * 256 := by omega
      rw [if_neg hfull] at hx
      rw [hfirst]
      by_cases halt : alt < i.altInterfaces.visible.length
      · rw [List.getElem?_append_left halt] at hx
        exact h.endpoints alt x hx
      · rw [List.getElem?_append_right (Nat.not_lt.1 halt), List.getElem?_singleton] at hx
        split at hx
        next hzero =>
          have hplace : alt = total % 256 := by
            rw [← hcount, ← hlength]
            omega
          have hlast : total / 256 * 256 + alt = total := by
            rw [hplace]
            exact Nat.div_add_mod' total 256
          obtain rfl := Option.some.inj hx
          rw [hlast]
          exact ⟨fun _ hmem => Nat.lt_irrefl _ (hgiven total hmem), fun _ => rfl⟩
        next => cases hx

theorem modify {given' : ℕ → Prop} (h : i.Shows total given) (alt : ℕ)
    {f : PAltInterface → PAltInterface}
    (hf : ∀ place x, i.altInterfaces.visible[place]? = some x →
      ((if alt = place then f x else x).endpoints.elements = [] ↔
        ¬ given' (total / 256 * 256 + place))) :
    (⟨i.altInterfaces.modify alt f⟩ : PInterface).Shows total given' where
  count := h.count
  elements := by
    refine Iff.trans ?_ h.elements
    unfold CountedArray.modify
    rw [← List.length_eq_zero_iff, List.length_modify, List.length_eq_zero_iff]
  endpoints := by
    intro place x hx
    rw [CountedArray.visible_modify, List.getElem?_modify] at hx
    obtain ⟨y, hy, rfl⟩ := Option.map_eq_some_iff.1 hx
    exact hf place y hy

theorem modify_of_endpoints_eq (h : i.Shows total given) (alt : ℕ)
    {f : PAltInterface → PAltInterface} (hf : ∀ x, (f x).endpoints = x.endpoints) :
    (⟨i.altInterfaces.modify alt f⟩ : PInterface).Shows total given := by
  apply h.modify
  intro place x hx
  have hsame : (if alt = place then f x else x).endpoints = x.endpoints := by
    split
    · exact hf x
    · rfl
  rw [hsame]
  exact h.endpoints place x hx

theorem addEndpoint (h : i.Shows total given) (alt p : ℕ) :
    (⟨i.altInterfaces.modify alt fun x => { x with endpoints := x.endpoints.push p }⟩ :
      PInterface).Shows total fun k => given k ∨ k = total / 256 * 256 + alt := by
  apply h.modify
  intro place x hx
  have hold := h.endpoints place x hx
  by_cases hplace : alt = place
  · simp [hplace, CountedArray.push]
  · simpa [hplace, Ne.symm hplace] using hold

end PInterface.Shows

/-- A tree shows the arrivals. -/
structure Arrived (c : PConfiguration) (a : Arrivals) : Prop where
  length : c.interfaces.length = c.raw.bNumInterfaces.toNat
  interface : ∀ number < c.raw.bNumInterfaces.toNat,
    (c.interface number).Shows (a.total number) fun k => (number, k) ∈ a.endpoints
  below : ∀ number k, (number, k) ∈ a.endpoints →
    number < c.raw.bNumInterfaces.toNat ∧ k < a.total number
  outside : ∀ number, c.raw.bNumInterfaces.toNat ≤ number → a.total number = 0

namespace Arrived

variable {c : PConfiguration} {a : Arrivals}

theorem start (raw : RawConfiguration) : Arrived (PConfiguration.start raw) Arrivals.start := by
  constructor
  · exact List.length_replicate
  · intro number _
    have hempty : (PConfiguration.start raw).interface number = ⟨CountedArray.empty⟩ := by
      unfold PConfiguration.interface PConfiguration.start
      rw [List.getD_eq_getElem?_getD, List.getElem?_replicate]
      split <;> rfl
    rw [hempty]
    exact PInterface.Shows.empty _
  · intro number k hmem
    cases hmem
  · intro number _
    rfl

theorem addAltInterface (h : Arrived c a) {p : ℕ}
    (hp : (c.raw.bInterfaceNumber p).toNat < c.raw.bNumInterfaces.toNat) :
    Arrived (c.addAltInterface p) (a.addAltInterface (c.raw.bInterfaceNumber p).toNat) := by
  constructor
  · exact (List.length_modify ..).trans h.length
  · intro number hnumber
    rw [PConfiguration.interface_addAltInterface (h.length ▸ hp)]
    unfold Arrivals.addAltInterface
    dsimp only
    by_cases heq : number = (c.raw.bInterfaceNumber p).toNat
    · rw [if_pos heq, ← heq, Function.update_self]
      exact (h.interface number hnumber).push (fun k hmem => (h.below number k hmem).2) p
    · rw [if_neg heq, Function.update_of_ne heq]
      exact h.interface number hnumber
  · intro number k hmem
    obtain ⟨hnumber, hk⟩ := h.below number k hmem
    refine ⟨hnumber, ?_⟩
    unfold Arrivals.addAltInterface
    dsimp only
    by_cases heq : number = (c.raw.bInterfaceNumber p).toNat
    · rw [← heq, Function.update_self]
      omega
    · rw [Function.update_of_ne heq]
      exact hk
  · intro number hle
    have hne : number ≠ (c.raw.bInterfaceNumber p).toNat := fun heq =>
      Nat.not_le.2 hp (heq ▸ hle)
    exact (Function.update_of_ne hne ..).trans (h.outside number hle)

theorem modify (h : Arrived c a) (number alt : ℕ) {f : PAltInterface → PAltInterface}
    (hf : ∀ x, (f x).endpoints = x.endpoints) : Arrived (c.modifyAltInterface number alt f) a := by
  by_cases hnumber : number < c.interfaces.length
  · constructor
    · exact (List.length_modify ..).trans h.length
    · intro other hother
      rw [PConfiguration.interface_modifyAltInterface hnumber]
      split
      · exact (h.interface other hother).modify_of_endpoints_eq alt hf
      · exact h.interface other hother
    · exact h.below
    · exact h.outside
  · have hsame : c.modifyAltInterface number alt f = c := by
      unfold PConfiguration.modifyAltInterface
      rw [List.modify_eq_self (Nat.not_lt.1 hnumber)]
    rwa [hsame]

theorem addEndpoint (h : Arrived c a) {number alt : ℕ}
    (hnumber : number < c.raw.bNumInterfaces.toNat)
    (halt : alt < (c.interface number).altInterfaces.count.toNat) (p : ℕ) :
    Arrived (c.addEndpoint number alt p) (a.addEndpoint number alt) := by
  unfold PConfiguration.addEndpoint Arrivals.addEndpoint
  constructor
  · exact (List.length_modify ..).trans h.length
  · intro other hother
    rw [PConfiguration.interface_modifyAltInterface (h.length ▸ hnumber)]
    by_cases heq : other = number
    · subst heq
      rw [if_pos rfl]
      simpa [Arrivals.first] using (h.interface other hother).addEndpoint alt p
    · rw [if_neg heq]
      simpa [heq] using h.interface other hother
  · intro other k hmem
    rw [List.mem_append, List.mem_singleton, Prod.mk.injEq] at hmem
    rcases hmem with hmem | ⟨rfl, rfl⟩
    · exact h.below other k hmem
    · have hcount := (h.interface other hnumber).count
      refine ⟨hnumber, ?_⟩
      unfold Arrivals.first
      dsimp only
      omega
  · exact h.outside

end Arrived

theorem PConfiguration.getInterface_eq_some {c : PConfiguration} {interface : Option ℕ}
    {number alt : ℕ} (h : c.getInterface interface = some (number, alt)) :
    number < c.raw.bNumInterfaces.toNat ∧
      alt < (c.interface number).altInterfaces.count.toNat := by
  unfold PConfiguration.getInterface at h
  cases interface with
  | none => cases h
  | some p =>
      dsimp only at h
      split at h
      · cases h
      next hnumber =>
        split at h
        · cases h
        next halt =>
          obtain ⟨rfl, rfl⟩ := Prod.mk.inj (Option.some.inj h)
          exact ⟨Nat.not_le.1 hnumber, Nat.not_le.1 halt⟩

section Walk

variable {env : Environment} {d : GusbDevice} {s : Probing} {a : Arrivals} {p : ℕ}

theorem Arrived.handle (h : Arrived s.tree a) (haccepts : s.Accepts p) :
    Arrived (s.handle p).tree (a.handle s p) := by
  unfold Probing.Accepts at haccepts
  unfold Probing.handle Arrivals.handle
  by_cases hinterface : s.tree.raw.bDescriptorType p = libusbDtInterface
  · rw [if_pos hinterface] at haccepts ⊢
    rw [if_pos hinterface]
    exact h.addAltInterface (UInt8.lt_iff_toNat_lt.1 haccepts)
  · rw [if_neg hinterface, if_neg hinterface]
    cases hrecord : s.tree.getInterface s.interface with
    | none =>
        dsimp only
        split <;> exact h
    | some record =>
        obtain ⟨number, alt⟩ := record
        obtain ⟨hnumber, halt⟩ := PConfiguration.getInterface_eq_some hrecord
        dsimp only
        by_cases hendpoint : s.tree.raw.bDescriptorType p = libusbDtEndpoint
        · rw [if_pos hendpoint, if_pos hendpoint]
          exact h.addEndpoint hnumber halt p
        · rw [if_neg hendpoint, if_neg hendpoint]
          split
          · exact h.modify number alt fun _ => rfl
          · exact h

theorem probeInterface_failed (h : (probeInterface env d s p).2.2 < 0) :
    (probeInterface env d s p).2.1 = s := by
  unfold probeInterface GusbDevice.allocate at h ⊢
  dsimp only at h ⊢
  split
  · rfl
  next hbounds =>
    rw [if_neg hbounds] at h
    split
    next hallocated =>
      rw [if_pos hallocated] at h
      exact absurd h (by simp)
    · rfl

theorem probeEndpoint_failed (h : (probeEndpoint env d s p).2.2 < 0) :
    (probeEndpoint env d s p).2.1 = s := by
  unfold probeEndpoint GusbDevice.allocate at h ⊢
  cases hrecord : s.tree.getInterface s.interface with
  | none => rfl
  | some record =>
      rw [hrecord] at h
      dsimp only at h ⊢
      split
      next hallocated =>
        rw [if_pos hallocated] at h
        exact absurd h (by simp)
      · rfl

theorem probeHid_tree (env : Environment) (d : GusbDevice) (s : Probing) (p : ℕ) :
    (probeHid env d s p).2.1.tree = s.tree ∨
      ∃ number alt, (probeHid env d s p).2.1.tree = s.tree.setHid number alt p := by
  unfold probeHid GusbDevice.allocate GusbDevice.controlTransfer
  cases s.tree.getInterface s.interface with
  | none => exact Or.inl rfl
  | some record =>
      dsimp only
      split
      · exact Or.inl rfl
      · right
        refine ⟨record.1, record.2, ?_⟩
        split
        · rfl
        · split
          · cases env.reply d.transfers <;> rfl
          · rfl

theorem probeDescriptor_failed (h : (probeDescriptor env d s p).2.2 < 0) :
    (probeDescriptor env d s p).2.1.tree = s.tree ∨
      ∃ number alt, (probeDescriptor env d s p).2.1.tree = s.tree.setHid number alt p := by
  unfold probeDescriptor at h ⊢
  split at h
  next hinterface =>
    rw [if_pos hinterface]
    exact Or.inl (congrArg Probing.tree (probeInterface_failed h))
  next hinterface =>
    rw [if_neg hinterface]
    split at h
    next hendpoint =>
      rw [if_pos hendpoint]
      exact Or.inl (congrArg Probing.tree (probeEndpoint_failed h))
    next hendpoint =>
      rw [if_neg hendpoint]
      split
      · exact probeHid_tree env d s p
      · exact Or.inl rfl

def ProbeResult.handled (r : ProbeResult) : List ℕ :=
  if r.ret < 0 then r.visited.dropLast else r.visited

theorem ProbeResult.handled_cons {r : ProbeResult} (h : r.ret < 0 → r.visited ≠ []) (p : ℕ) :
    ProbeResult.handled { r with visited := p :: r.visited } = p :: r.handled := by
  unfold ProbeResult.handled
  dsimp only
  split
  next hneg => rw [List.dropLast_cons_of_ne_nil (h hneg)]
  next => rfl

/-- The tree that a call leaves shows the arrivals before it, if the call fails. -/
theorem Arrived.failed (h : Arrived s.tree a) (hneg : (probeDescriptor env d s p).2.2 < 0) :
    Arrived (probeDescriptor env d s p).2.1.tree a ∧
      (probeDescriptor env d s p).2.1.tree.raw = s.tree.raw := by
  rcases probeDescriptor_failed hneg with htree | ⟨number, alt, htree⟩
  · rw [htree]
    exact ⟨h, rfl⟩
  · rw [htree]
    exact ⟨h.modify number alt fun _ => rfl, rfl⟩

/-- The tree that the loop leaves shows the arrivals behind the descriptors it has handled. -/
theorem Arrived.probeLoop {iterations : ℕ} {r : ProbeResult} (h : Arrived s.tree a)
    (hloop : probeLoop env iterations d s p = some r) :
    Arrived r.probing.tree (a.handleAll s r.handled) ∧ r.probing.tree.raw = s.tree.raw ∧
      (r.ret < 0 → r.visited ≠ []) := by
  induction iterations generalizing d s a p r with
  | zero =>
      by_cases hlt : p < s.tree.raw.wTotalLength.toNat
      · rw [probeLoop_zero env d hlt] at hloop
        cases hloop
      · rw [probeLoop_of_le env 0 d (Nat.not_lt.1 hlt)] at hloop
        obtain rfl := Option.some.inj hloop
        exact ⟨h, rfl, fun hneg => absurd hneg (by simp)⟩
  | succ iterations ih =>
      by_cases hlt : p < s.tree.raw.wTotalLength.toNat
      · rw [SerialUsb.probeLoop, if_pos hlt] at hloop
        dsimp only at hloop
        by_cases hneg : (probeDescriptor env d s p).2.2 < 0
        · rw [if_pos hneg] at hloop
          obtain rfl := Option.some.inj hloop
          obtain ⟨harrived, hraw⟩ := h.failed hneg
          exact ⟨harrived, hraw, fun _ => List.cons_ne_nil _ _⟩
        · rw [if_neg hneg] at hloop
          obtain ⟨r', hr', rfl⟩ := Option.map_eq_some_iff.1 hloop
          rcases probeDescriptor_cases env d s p with ⟨hret, -⟩ | ⟨hret, haccepts, -⟩
          · omega
          · rw [congrArg Prod.fst hret] at hr'
            obtain ⟨harrived, hraw, hvisited⟩ := ih (h.handle haccepts) hr'
            rw [ProbeResult.handled_cons hvisited]
            exact ⟨harrived, hraw.trans (Probing.handle_raw s p), fun _ => List.cons_ne_nil _ _⟩
      · rw [probeLoop_of_le env _ d (Nat.not_lt.1 hlt)] at hloop
        obtain rfl := Option.some.inj hloop
        exact ⟨h, rfl, fun hneg => absurd hneg (by simp)⟩

end Walk

end SerialUsb
