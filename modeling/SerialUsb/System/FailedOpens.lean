import SerialUsb.System.Teardown

/-!
# Opens that fail

An open that fails puts every slot that it tried back, and its descriptors are in the state in
which `get_descriptors` stopped. `UsbTable.open_leavesNoTrace_iff` says when it leaves no trace.
-/

namespace SerialUsb

open Memory Transition

section Descriptors

variable {env : Environment}

theorem Probed.walked {iterations : ℕ} {d : GusbDevice} {b : Buffer} {r : ProbeResult}
    (h : probeConfiguration env iterations d b.raw = some r) :
    Probed.Walked ⟨b, (d.allocate env).2, r⟩ := by
  unfold probeConfiguration at h
  cases hallocated : (d.allocate env).2 with
  | false =>
      rw [← Prod.eta (d.allocate env), hallocated] at h
      obtain rfl := Option.some.inj h
      constructor
      · rfl
      · intro htrue
        cases htrue
      · intro _
        exact ⟨rfl, rfl⟩
  | true =>
      rw [← Prod.eta (d.allocate env), hallocated] at h
      obtain ⟨harrived, hraw, -⟩ := (Arrived.start b.raw).probeLoop h
      constructor
      · exact hraw
      · intro _
        exact harrived
      · intro hfalse
        cases hfalse

theorem length_getRaws_le (cs : List ConfigurationReplies) :
    (getRaws cs).1.length ≤ cs.length := by
  induction cs with
  | nil => exact Nat.le_refl 0
  | cons c cs ih =>
      unfold getRaws
      split
      · exact Nat.zero_le _
      · split
        · exact Nat.le_add_left 1 _
        · exact Nat.succ_le_succ ih

theorem probeAll_walked {iterations : RawConfiguration → ℕ} {d d' : GusbDevice}
    {bs : List Buffer} {ys : List Probed} {ret : Int}
    (h : probeAll env iterations d bs = some (d', ys, ret)) :
    (∀ y ∈ ys, y.Walked) ∧
      ∀ (index : ℕ) y, ys[index]? = some y → bs[index]? = some y.buffer := by
  induction bs generalizing d d' ys ret with
  | nil =>
      obtain ⟨-, rfl, -⟩ := Prod.mk.inj (Option.some.inj h)
      simp
  | cons b bs ih =>
      unfold probeAll at h
      split at h
      · cases h
      next r hr =>
        have hwalked := Probed.walked hr
        dsimp only at h
        split at h
        · obtain ⟨-, hys⟩ := Prod.mk.inj (Option.some.inj h)
          obtain ⟨rfl, -⟩ := Prod.mk.inj hys
          refine ⟨by simpa using hwalked, ?_⟩
          intro index y hy
          cases index with
          | zero => exact congrArg (some ∘ Probed.buffer) (Option.some.inj hy)
          | succ index => cases hy
        · obtain ⟨⟨d'', ys', ret'⟩, hrest, heq⟩ := Option.map_eq_some_iff.1 h
          obtain ⟨-, hys⟩ := Prod.mk.inj heq
          obtain ⟨rfl, -⟩ := Prod.mk.inj hys
          obtain ⟨hall, hbuffers⟩ := ih hrest
          refine ⟨List.forall_mem_cons.2 ⟨hwalked, hall⟩, ?_⟩
          intro index y hy
          cases index with
          | zero => exact congrArg (some ∘ Probed.buffer) (Option.some.inj hy)
          | succ index => exact hbuffers index y hy

theorem Construction.staged_of_probed_nil {x : Construction} (hprobed : x.probed = [])
    (hnumber : ∀ raws, x.configurations = some raws → raws.length ≤ x.bNumConfigurations.toNat) :
    x.Staged := by
  constructor
  · simp [hprobed]
  · simp [hprobed]
  · exact hnumber

theorem Construction.zero_staged : Construction.zero.Staged :=
  staged_of_probed_nil rfl fun _ h => nomatch h

theorem getDescriptors_staged {o : DescriptorReplies} {x : Construction} {ret : Int}
    (h : getDescriptors o = some (x, ret)) : x.Staged := by
  unfold getDescriptors at h
  dsimp only at h
  split at h
  · obtain ⟨rfl, -⟩ := Prod.mk.inj (Option.some.inj h)
    exact Construction.staged_of_probed_nil rfl fun _ h => nomatch h
  next d n _ =>
    have hlength := length_getRaws_le ((List.range n.toNat).map o.configurations)
    rw [List.length_map, List.length_range] at hlength
    split at h
    · obtain ⟨rfl, -⟩ := Prod.mk.inj (Option.some.inj h)
      exact Construction.staged_of_probed_nil rfl fun _ h => nomatch h
    · split at h
      · split at h
        · obtain ⟨rfl, -⟩ := Prod.mk.inj (Option.some.inj h)
          apply Construction.staged_of_probed_nil rfl
          intro raws hraws
          obtain rfl := Option.some.inj hraws
          exact hlength
        · obtain ⟨⟨d', ys, ret'⟩, hprobe, heq⟩ := Option.map_eq_some_iff.1 h
          obtain ⟨rfl, -⟩ := Prod.mk.inj heq
          obtain ⟨hwalked, hbuffers⟩ := probeAll_walked hprobe
          constructor
          · exact hwalked
          · intro index y hy
            exact ⟨_, rfl, hbuffers index y hy⟩
          · intro raws hraws
            obtain rfl := Option.some.inj hraws
            exact hlength
      · obtain ⟨rfl, -⟩ := Prod.mk.inj (Option.some.inj h)
        exact Construction.staged_of_probed_nil rfl fun _ h => nomatch h

end Descriptors

/-- The slots without a device are cleared. -/
def UsbTable.Settled (t : UsbTable) : Prop :=
  ∀ i < usbasyncMaxDevices, (t.usbdevices i).devh = false → t.usbdevices i = UsbDevice.zero

def UsbTable.start : UsbTable := ⟨fun _ => UsbDevice.zero, []⟩

inductive UsbEvent where
  | opens (candidates : Option (List Candidate)) (call : OpenCall)
  | closes (i : ℕ)
  | transfers (i : ℕ) (pending : ℤ) (transfers : List UsbTransfer)

namespace UsbTable

def next (wait : UsbTable → UsbTable) (t : UsbTable) : UsbEvent → Option UsbTable
  | .opens candidates call => (t.open wait candidates call).map Prod.fst
  | .closes i => some (t.gusbClose wait i)
  | .transfers i pending transfers =>
      if (t.usbdevices i).devh then
        some (UsbTable.set ⟨t.usbdevices, transfers⟩ i { t.usbdevices i with pending := pending })
      else none

variable {t : UsbTable}

@[simp] theorem set_self (t : UsbTable) (i : ℕ) (device : UsbDevice) :
    (t.set i device).usbdevices i = device := Function.update_self ..

@[simp] theorem set_set (t : UsbTable) (i : ℕ) (device device' : UsbDevice) :
    (t.set i device).set i device' = t.set i device' := by
  unfold set
  simp

theorem set_eq_self (t : UsbTable) (i : ℕ) : t.set i (t.usbdevices i) = t := by
  unfold set
  simp

theorem Settled.start : start.Settled := fun _ _ _ => rfl

theorem Settled.set (h : t.Settled) (i : ℕ) {device : UsbDevice}
    (hdevice : device.devh = false → device = UsbDevice.zero) : (t.set i device).Settled := by
  intro j hj hclosed
  unfold UsbTable.set at hclosed ⊢
  dsimp only at hclosed ⊢
  by_cases heq : j = i
  · subst heq
    rw [Function.update_self] at hclosed ⊢
    exact hdevice hclosed
  · rw [Function.update_of_ne heq] at hclosed ⊢
    exact h j hj hclosed

theorem Settled.addDevice (h : t.Settled) {path : Path} {strdup : Bool} {t' : UsbTable}
    {slot : Option ℕ} (hadd : t.addDevice path strdup = (t', slot)) :
    (slot = none ∧ t' = t) ∨
      ∃ i, slot = some i ∧ t' = t.set i { UsbDevice.zero with path := some path } ∧
        i < usbasyncMaxDevices ∧ t.usbdevices i = UsbDevice.zero ∧
        ∀ j < usbasyncMaxDevices, (t.usbdevices j).path ≠ some path := by
  unfold UsbTable.addDevice at hadd
  split at hadd
  · obtain ⟨rfl, rfl⟩ := Prod.mk.inj hadd
    exact Or.inl ⟨rfl, rfl⟩
  next hpath =>
    split at hadd
    · obtain ⟨rfl, rfl⟩ := Prod.mk.inj hadd
      exact Or.inl ⟨rfl, rfl⟩
    next i hi =>
      have hmem := List.mem_of_find?_eq_some hi
      have hclosed : (t.usbdevices i).devh = false := by
        simpa using List.find?_some hi
      have hzero := h i (List.mem_range.1 hmem) hclosed
      split at hadd
      · obtain ⟨rfl, rfl⟩ := Prod.mk.inj hadd
        right
        refine ⟨i, rfl, ?_, List.mem_range.1 hmem, hzero, ?_⟩
        · rw [hzero]
        · intro j hj heq
          apply hpath
          rw [List.any_eq_true]
          exact ⟨j, List.mem_range.2 hj, decide_eq_true heq⟩
      · obtain ⟨rfl, rfl⟩ := Prod.mk.inj hadd
        left
        refine ⟨rfl, ?_⟩
        have hnone : { t.usbdevices i with path := none } = t.usbdevices i := by
          rw [hzero]
          rfl
        rw [hnone, set_eq_self]

/-- `claim_device` of a cleared slot changes nothing but the slot, which has no transfers. -/
theorem claimDevice_staged {i : ℕ} {path : Path} {o : ClaimOutcome} {t' : UsbTable} {ret : Int}
    (hclaim : (t.set i { UsbDevice.zero with path := some path }).claimDevice i o =
      some (t', ret)) :
    ∃ devh x, t' = t.set i ⟨some path, devh, false, 0, x⟩ ∧ x.Staged ∧
      (ret ≠ -1 → devh = true) := by
  unfold claimDevice at hclaim
  split at hclaim
  · dsimp only at hclaim
    rw [set_self] at hclaim
    split at hclaim
    · obtain ⟨⟨x, ret'⟩, hx, heq⟩ := Option.map_eq_some_iff.1 hclaim
      obtain ⟨rfl, -⟩ := Prod.mk.inj heq
      exact ⟨true, x, set_set .., getDescriptors_staged hx, fun _ => rfl⟩
    · obtain ⟨rfl, -⟩ := Prod.mk.inj (Option.some.inj hclaim)
      exact ⟨true, Construction.zero, set_set .., Construction.zero_staged, fun _ => rfl⟩
  · obtain ⟨rfl, rfl⟩ := Prod.mk.inj (Option.some.inj hclaim)
    exact ⟨false, Construction.zero, rfl, Construction.zero_staged, fun hne => absurd rfl hne⟩

/-- `gusb_close` clears the slot, and waits for nothing if it has no transfers. -/
theorem gusbClose_set (wait : UsbTable → UsbTable) (t : UsbTable) {i : ℕ} {device : UsbDevice}
    (hi : i < usbasyncMaxDevices) (hpending : device.pending = 0) :
    (t.set i device).gusbClose wait i = t.set i UsbDevice.zero := by
  unfold gusbClose
  rw [if_neg (Nat.not_le.2 hi), set_self]
  dsimp only
  split
  · rw [if_neg (not_not.2 hpending), set_set, set_set]
  · exact set_set ..

variable {wait : UsbTable → UsbTable} {accepts : Candidate → Option Path}

structure Tried (t : UsbTable) (x : Attempt) : Prop where
  cleared : t.usbdevices x.slot = UsbDevice.zero
  reusable : ∀ i < usbasyncMaxDevices, (t.usbdevices i).path ≠ some x.path
  staged : x.construction.Staged

theorem Settled.openLoop (h : t.Settled) {cs : List Candidate} {t' : UsbTable} {ret : Int}
    {attempts : List Attempt} (hopen : openLoop wait accepts t cs = some (t', ret, attempts)) :
    (∀ x ∈ attempts, t.Tried x) ∧
      ((ret = -1 ∧ t' = t) ∨
        ∃ i device, ret = (i : ℕ) ∧ t' = t.set i device ∧ device.devh = true) := by
  induction cs generalizing attempts with
  | nil =>
      obtain ⟨rfl, hret⟩ := Prod.mk.inj (Option.some.inj hopen)
      obtain ⟨rfl, rfl⟩ := Prod.mk.inj hret
      exact ⟨by simp, Or.inl ⟨rfl, rfl⟩⟩
  | cons c cs ih =>
      unfold UsbTable.openLoop at hopen
      split at hopen
      · exact ih hopen
      next path _ =>
        split at hopen
        next t₁ hadd =>
          rcases h.addDevice hadd with ⟨-, rfl⟩ | ⟨i, hslot, -⟩
          · exact ih hopen
          · cases hslot
        next t₁ i hadd =>
          rcases h.addDevice hadd with ⟨hslot, -⟩ | ⟨i', hslot, rfl, hi, hzero, hfree⟩
          · cases hslot
          · obtain rfl := Option.some.inj hslot
            split at hopen
            · cases hopen
            next t₂ ret₂ hclaim =>
              obtain ⟨devh, x, rfl, hstaged, hdevh⟩ := claimDevice_staged hclaim
              split at hopen
              next hne =>
                obtain ⟨rfl, hret⟩ := Prod.mk.inj (Option.some.inj hopen)
                obtain ⟨rfl, rfl⟩ := Prod.mk.inj hret
                exact ⟨by simp, Or.inr ⟨i, _, rfl, rfl, hdevh hne⟩⟩
              next =>
                obtain ⟨⟨t₃, ret₃, attempts₃⟩, hrest, heq⟩ := Option.map_eq_some_iff.1 hopen
                obtain ⟨rfl, hret⟩ := Prod.mk.inj heq
                obtain ⟨rfl, rfl⟩ := Prod.mk.inj hret
                -- the attempt has put the table back
                rw [gusbClose_set wait t hi rfl, ← hzero, set_eq_self] at hrest
                obtain ⟨htried, hresult⟩ := ih hrest
                refine ⟨List.forall_mem_cons.2 ⟨⟨hzero, hfree, ?_⟩, htried⟩, hresult⟩
                rwa [set_self]

variable {candidates : Option (List Candidate)} {call : OpenCall}

theorem open_cases (t : UsbTable) :
    t.open wait candidates call = some (t, -1, []) ∨
      ∃ accepts cs, t.open wait candidates call = openLoop wait accepts t cs := by
  cases call with
  | path path =>
      cases path with
      | none => exact Or.inl rfl
      | some path =>
          cases candidates with
          | none => exact Or.inl rfl
          | some cs => exact Or.inr ⟨_, cs, rfl⟩
  | ids vendor product =>
      cases candidates with
      | none => exact Or.inl rfl
      | some cs => exact Or.inr ⟨_, cs, rfl⟩

/-- An open leaves the table as it was, or with the device that was opened. -/
theorem Settled.open_cases (h : t.Settled) {t' : UsbTable} {ret : Int}
    {attempts : List Attempt} (hopen : t.open wait candidates call = some (t', ret, attempts)) :
    (∀ x ∈ attempts, t.Tried x) ∧
      ((ret = -1 ∧ t' = t) ∨
        ∃ i device, ret = (i : ℕ) ∧ t' = t.set i device ∧ device.devh = true) := by
  have hcases : t.open wait candidates call = some (t, -1, []) ∨
      ∃ accepts cs, t.open wait candidates call = UsbTable.openLoop wait accepts t cs :=
    UsbTable.open_cases t
  rcases hcases with hfail | ⟨accepts, cs, hloop⟩
  · rw [hfail] at hopen
    obtain ⟨rfl, hret⟩ := Prod.mk.inj (Option.some.inj hopen)
    obtain ⟨rfl, rfl⟩ := Prod.mk.inj hret
    exact ⟨by simp, Or.inl ⟨rfl, rfl⟩⟩
  · rw [hloop] at hopen
    exact h.openLoop hopen

theorem Settled.open (h : t.Settled) {t' : UsbTable} {ret : Int} {attempts : List Attempt}
    (hopen : t.open wait candidates call = some (t', ret, attempts)) : t'.Settled := by
  obtain ⟨-, ⟨-, rfl⟩ | ⟨i, device, -, rfl, hdevh⟩⟩ := h.open_cases hopen
  · exact h
  · apply h.set i
    intro hclosed
    rw [hdevh] at hclosed
    cases hclosed

theorem Settled.gusbClose (h : t.Settled) (hwait : ∀ t, t.Settled → (wait t).Settled) (i : ℕ) :
    (t.gusbClose wait i).Settled := by
  unfold UsbTable.gusbClose
  split
  · exact h
  · apply Settled.set _ i fun _ => rfl
    split
    next hdevh =>
      have hclosing : (t.set i { t.usbdevices i with closing := true }).Settled := by
        apply h.set i
        intro hclosed
        rw [hdevh] at hclosed
        cases hclosed
      dsimp only
      split
      · exact hwait _ hclosing
      · exact hclosing
    next => exact h

/-- In every run, the slots without a device are cleared. -/
theorem settled_of_exec (hwait : ∀ t, t.Settled → (wait t).Settled) {es : List UsbEvent}
    (hrun : exec (next wait) start es = some t) : t.Settled := by
  refine exec_invariant ?_ Settled.start hrun
  intro t e t' h hnext
  cases e with
  | opens candidates call =>
      obtain ⟨⟨t'', ret, attempts⟩, hopen, rfl⟩ := Option.map_eq_some_iff.1 hnext
      exact h.open hopen
  | closes i =>
      obtain rfl := Option.some.inj hnext
      exact h.gusbClose hwait i
  | transfers i pending transfers =>
      unfold next at hnext
      dsimp only at hnext
      split at hnext
      next hdevh =>
        obtain rfl := Option.some.inj hnext
        apply Settled.set (h : Settled ⟨t.usbdevices, transfers⟩) i
        intro hclosed
        dsimp only at hclosed
        rw [hdevh] at hclosed
        cases hclosed
      next => cases hnext

/-- An open that fails leaves no trace if and only if `gusb_close` can tear down what it finds. -/
theorem open_leavesNoTrace_iff (h : t.Settled) {t' : UsbTable} {attempts : List Attempt}
    (hopen : t.open wait candidates call = some (t', -1, attempts)) :
    LeavesNoTrace t t' attempts ↔ ∀ x ∈ attempts, x.construction.Clean := by
  obtain ⟨htried, ⟨-, rfl⟩ | ⟨i, device, hret, -⟩⟩ := h.open_cases hopen
  · constructor
    · intro htrace x hx
      exact (htried x hx).staged.tornDown_iff.1 (htrace.tornDown x hx)
    · intro hclean
      constructor
      · intro x hx
        exact (htried x hx).cleared
      · intro x hx
        exact (htried x hx).reusable
      · intro i _
        rfl
      · rfl
      · intro x hx
        exact (htried x hx).staged.tornDown_iff.2 (hclean x hx)
  · omega

end UsbTable

def singleConfiguration (alloc : ℕ → Bool) (raw : List UInt8) : Candidate where
  path := some ['0', '1']
  ids := some (1, 2)
  strdup := true
  claim :=
    { opened := true
      reset := true
      configuration := some 1
      setConfiguration := true
      handleInterfaces := true
      descriptors :=
        { env := ⟨alloc, fun n =>
            if n = 0 then some [4, 3, 9, 4]
            else some [18, 1, 0, 2, 0, 0, 0, 8, 1, 0, 2, 0, 0, 1, 0, 0, 0, 1]⟩
          allocated := true
          configurations := fun _ => ⟨some raw, true, some raw, fun _ => 0, fun _ => 0⟩
          iterations := fun _ => 2 } }

def badInterface : Candidate :=
  singleConfiguration (fun _ => true) [9, 2, 18, 0, 1, 1, 0, 128, 50, 9, 4, 1, 0, 0, 3, 0, 0, 0]

def refusedInterfaces : Candidate :=
  singleConfiguration (fun _ => false) [9, 2, 18, 0, 1, 1, 0, 128, 50, 9, 4, 0, 0, 0, 3, 0, 0, 0]

namespace UsbTable

theorem open_leavesNoTrace_iff_badInterface :
    ∃ t' attempts, start.open id (some [badInterface]) (.ids 1 2) = some (t', -1, attempts) ∧
      attempts.length = 1 ∧ LeavesNoTrace start t' attempts := by
  have hrun : ∃ r, r ∈ start.open id (some [badInterface]) (.ids 1 2) ∧
      r.2.1 = -1 ∧ r.2.2.length = 1 ∧ ∀ x ∈ r.2.2, x.construction.Clean := by
    decide +kernel
  obtain ⟨⟨t', ret, attempts⟩, hopen, rfl, hlength, hclean⟩ := hrun
  exact ⟨t', attempts, hopen, hlength, (open_leavesNoTrace_iff Settled.start hopen).2 hclean⟩

/-- `gusb_close` goes through the interfaces that are not there. -/
theorem not_leavesNoTrace_refusedInterfaces :
    ∃ t' attempts,
      start.open id (some [refusedInterfaces]) (.ids 1 2) = some (t', -1, attempts) ∧
        ¬ LeavesNoTrace start t' attempts := by
  have hrun : ∃ r, r ∈ start.open id (some [refusedInterfaces]) (.ids 1 2) ∧
      r.2.1 = -1 ∧ ∃ x ∈ r.2.2, ¬ x.construction.Clean := by
    decide +kernel
  obtain ⟨⟨t', ret, attempts⟩, hopen, rfl, x, hx, hnot⟩ := hrun
  refine ⟨t', attempts, hopen, fun htrace => hnot ?_⟩
  have htried := (Settled.start.open_cases hopen).1 x hx
  exact htried.staged.tornDown_iff.1 (htrace.tornDown x hx)

end UsbTable

end SerialUsb
