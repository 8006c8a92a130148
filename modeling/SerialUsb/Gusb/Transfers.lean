import Mathlib.Data.Int.Notation
import Mathlib.Data.List.Nodup
import Mathlib.Logic.Function.Basic
import SerialUsb.Transition.Run

/-!
# Accounting for transfers

The table `transfers` of `gusb.c` and the counts `pending_transfers` of the devices. Transfers
are submitted, complete in any order and at any time, and devices are closed and opened again. A
close waits until the count of its device is 0, unless the handling of events fails.
-/

namespace SerialUsb

open Transition

abbrev usbasyncMaxDevices : ℕ := 256

structure UsbTransfer where
  address : ℕ
  userData : ℤ
  number : ℕ
deriving DecidableEq

/-- What the calls in `gusb_poll` and `gusb_write` come to: the endpoint with its type, the
callback and the memory are there, the address of `libusb_alloc_transfer`, and whether the
`realloc` of the table and `libusb_submit_transfer` succeed. -/
structure SubmitOutcome where
  ready : Bool
  address : ℕ
  realloc : Bool
  submit : Bool
deriving DecidableEq

/-- The table with the fields of `usbdevices` that go with it. Beside them: the transfers that
are allocated, those that libusb has, those whose callback runs, how many were passed to
`libusb_submit_transfer`, and the numbers of those that were freed. -/
structure TransferTable where
  transfers : List UsbTransfer
  devh : ℤ → Bool
  closing : ℤ → Bool
  pending : ℤ → ℤ
  allocated : List ℕ
  flying : List UsbTransfer
  calling : List UsbTransfer
  submitted : ℕ
  freed : List ℕ

def TransferTable.start : TransferTable :=
  ⟨[], fun _ => false, fun _ => false, fun _ => 0, [], [], [], 0, []⟩

/-- A call, or what libusb does. The functions of the program that a callback or the wait of a
close runs are events of their own. -/
inductive TransferEvent where
  | poll (device : ℤ) (o : SubmitOutcome)
  | write (device : ℤ) (o : SubmitOutcome)
  | complete (t : UsbTransfer) (cancelled : Bool)
  | returns (t : UsbTransfer)
  | close (device : ℤ)
  | closed (device : ℤ) (failed : Bool)
  | opens (device : ℤ)
deriving DecidableEq

namespace TransferTable

def addTransfer (s : TransferTable) (t : UsbTransfer) (realloc : Bool) : TransferTable × ℤ :=
  if s.transfers.any fun u => u.address = t.address then (s, 0)
  else if realloc then
    ({ s with
        transfers := s.transfers ++ [t]
        pending := Function.update s.pending t.userData (s.pending t.userData + 1) }, 0)
  else (s, -1)

def removeTransfer (s : TransferTable) (t : UsbTransfer) : TransferTable :=
  if s.transfers.any fun u => u.address = t.address then
    { s with
      transfers := s.transfers.eraseP fun u => u.address = t.address
      pending := Function.update s.pending t.userData (s.pending t.userData - 1)
      allocated := s.allocated.erase t.address
      freed := s.freed ++ [t.number] }
  else s

def submitTransfer (s : TransferTable) (t : UsbTransfer) (o : SubmitOutcome) :
    TransferTable × ℤ :=
  let (s, ret) := s.addTransfer t o.realloc
  if ret ≠ -1 then
    let s := { s with submitted := s.submitted + 1 }
    if o.submit then ({ s with flying := s.flying ++ [t] }, 0)
    else (s.removeTransfer t, -1)
  else (s, ret)

def checkDevice (s : TransferTable) (device : ℤ) : Bool :=
  decide (0 ≤ device ∧ device < usbasyncMaxDevices ∧ s.devh device = true)

def submitNew (s : TransferTable) (device : ℤ) (o : SubmitOutcome) : TransferTable × ℤ :=
  if s.checkDevice device then
    if o.ready then
      { s with allocated := o.address :: s.allocated }.submitTransfer
        ⟨o.address, device, s.submitted⟩ o
    else (s, -1)
  else (s, -1)

def gusbPoll (s : TransferTable) (device : ℤ) (o : SubmitOutcome) : TransferTable × ℤ :=
  s.submitNew device o

def gusbWrite (s : TransferTable) (device : ℤ) (o : SubmitOutcome) : TransferTable × ℤ :=
  s.submitNew device o

/-- `usb_callback`, up to the callback of the program if it calls one. -/
def usbCallback (s : TransferTable) (t : UsbTransfer) (cancelled : Bool) : TransferTable :=
  if s.checkDevice t.userData = false ∨ cancelled then s.removeTransfer t
  else { s with calling := s.calling ++ [t] }

def clear (s : TransferTable) (device : ℤ) : TransferTable :=
  { s with
    devh := Function.update s.devh device false
    closing := Function.update s.closing device false
    pending := Function.update s.pending device 0 }

/-- `gusb_close`, up to the wait of `cancel_transfers`; there is none for a device that is not
open. -/
def gusbClose (s : TransferTable) (device : ℤ) : TransferTable :=
  if device < 0 ∨ usbasyncMaxDevices ≤ device then s
  else if s.devh device then { s with closing := Function.update s.closing device true }
  else s.clear device

/-- One event. The wait of a close ends when the count is 0, or when `libusb_handle_events` fails
before. -/
def next (s : TransferTable) : TransferEvent → Option TransferTable
  | .poll device o =>
      if o.address ∈ s.allocated then none else some (s.gusbPoll device o).1
  | .write device o =>
      if o.address ∈ s.allocated then none else some (s.gusbWrite device o).1
  | .complete t cancelled =>
      if t ∈ s.flying then some ({ s with flying := s.flying.erase t }.usbCallback t cancelled)
      else none
  | .returns t =>
      if t ∈ s.calling then some ({ s with calling := s.calling.erase t }.removeTransfer t)
      else none
  | .close device => some (s.gusbClose device)
  | .closed device failed =>
      if s.devh device ∧ s.closing device ∧ (failed ↔ s.pending device ≠ 0) then
        some (s.clear device)
      else none
  | .opens device =>
      if 0 ≤ device ∧ device < usbasyncMaxDevices ∧ s.devh device = false then
        some { s with devh := Function.update s.devh device true }
      else none

def entries (s : TransferTable) (device : ℤ) : ℕ :=
  s.transfers.countP fun t => t.userData = device

/-- No transfer is twice in the table, the counts are those of the entries, each transfer that
was submitted is in the table or was freed once, and only devices that are open have entries. -/
structure Accounted (s : TransferTable) : Prop where
  distinct : (s.transfers.map UsbTransfer.address).Nodup
  counted : ∀ device, s.pending device = s.entries device
  nonneg : ∀ device, 0 ≤ s.pending device
  once : s.freed.Nodup
  freed : ∀ n < s.submitted, n ∈ s.freed ↔ n ∉ s.transfers.map UsbTransfer.number
  closed : ∀ device, s.devh device = false → ∀ t ∈ s.transfers, t.userData ≠ device

/-- No close ends its wait because the handling of events fails. -/
def Waits (_ : TransferTable) (e : TransferEvent) : Prop := ∀ device, e ≠ .closed device true

structure Inv (s : TransferTable) : Prop extends Accounted s where
  allocated : ∀ t ∈ s.transfers, t.address ∈ s.allocated
  held : ∀ t ∈ s.flying ++ s.calling, t ∈ s.transfers
  apart : (s.flying ++ s.calling).Nodup
  numbers : (s.transfers.map UsbTransfer.number).Nodup
  below : ∀ t ∈ s.transfers, t.number < s.submitted
  freedBelow : ∀ n ∈ s.freed, n < s.submitted

theorem Inv.start : start.Inv where
  distinct := List.nodup_nil
  counted := fun _ => rfl
  nonneg := fun _ => Int.le_refl _
  once := List.nodup_nil
  freed := by simp [TransferTable.start]
  closed := by simp [TransferTable.start]
  allocated := by simp [TransferTable.start]
  held := by simp [TransferTable.start]
  apart := List.nodup_nil
  numbers := List.nodup_nil
  below := by simp [TransferTable.start]
  freedBelow := by simp [TransferTable.start]

variable {s : TransferTable} {t : UsbTransfer}

theorem any_address_eq_true (ht : t ∈ s.transfers) :
    (s.transfers.any fun u => u.address = t.address) = true := by
  rw [List.any_eq_true]
  exact ⟨t, ht, by simp⟩

theorem eraseP_address (l : List UsbTransfer) (hl : (l.map UsbTransfer.address).Nodup)
    (ht : t ∈ l) : (l.eraseP fun u => u.address = t.address) = l.erase t := by
  induction l with
  | nil => rfl
  | cons u l ih =>
      rw [List.map_cons, List.nodup_cons] at hl
      by_cases heq : u = t
      · subst heq
        rw [List.erase_cons_head, List.eraseP_cons_of_pos (by simp)]
      · have hmem : t ∈ l := (List.mem_cons.1 ht).resolve_left (Ne.symm heq)
        have hne : u.address ≠ t.address := fun h => hl.1 (h ▸ List.mem_map_of_mem hmem)
        rw [List.erase_cons_tail (by simpa using heq),
          List.eraseP_cons_of_neg (by simpa using hne), ih hl.2 hmem]

theorem removeTransfer_of_mem (h : s.Inv) (ht : t ∈ s.transfers) :
    s.removeTransfer t =
      { s with
        transfers := s.transfers.erase t
        pending := Function.update s.pending t.userData (s.pending t.userData - 1)
        allocated := s.allocated.erase t.address
        freed := s.freed ++ [t.number] } := by
  unfold removeTransfer
  rw [if_pos (any_address_eq_true ht), eraseP_address _ h.distinct ht]

theorem counted_update (h : ∀ device, s.pending device = s.entries device) {l : List UsbTransfer}
    {device change : ℤ}
    (hl : ∀ other, ((l.countP fun u => u.userData = other : ℕ) : ℤ) =
      s.entries other + if device = other then change else 0) (other : ℤ) :
    Function.update s.pending device (s.pending device + change) other =
      ((l.countP fun u => u.userData = other : ℕ) : ℤ) := by
  rw [hl]
  by_cases heq : other = device
  · rw [heq, Function.update_self, h, if_pos rfl]
  · rw [Function.update_of_ne heq, h, if_neg (Ne.symm heq), Int.add_zero]

theorem entries_erase (ht : t ∈ s.transfers) (device : ℤ) :
    (((s.transfers.erase t).countP fun u => u.userData = device : ℕ) : ℤ) =
      s.entries device + if t.userData = device then -1 else 0 := by
  rw [entries, (List.perm_cons_erase ht).countP_eq, List.countP_cons]
  by_cases heq : t.userData = device
  · simp only [heq, decide_true, if_true]
    omega
  · simp [heq]

theorem entries_append (s : TransferTable) (t : UsbTransfer) (device : ℤ) :
    (((s.transfers ++ [t]).countP fun u => u.userData = device : ℕ) : ℤ) =
      s.entries device + if t.userData = device then 1 else 0 := by
  rw [entries, List.countP_append, List.countP_singleton]
  by_cases heq : t.userData = device <;> simp [heq]

theorem Inv.eq_of_number (h : s.Inv) {u : UsbTransfer} (hu : u ∈ s.transfers)
    (ht : t ∈ s.transfers) (heq : u.number = t.number) : u = t :=
  List.inj_on_of_nodup_map h.numbers hu ht heq

theorem Inv.eq_of_address (h : s.Inv) {u : UsbTransfer} (hu : u ∈ s.transfers)
    (ht : t ∈ s.transfers) (heq : u.address = t.address) : u = t :=
  List.inj_on_of_nodup_map h.distinct hu ht heq

theorem Inv.mem_erase (h : s.Inv) {u : UsbTransfer} :
    u ∈ s.transfers.erase t ↔ u ≠ t ∧ u ∈ s.transfers :=
  h.numbers.of_map.mem_erase_iff

/-- A transfer that leaves the table is freed for the first time. -/
theorem Inv.not_freed (h : s.Inv) (ht : t ∈ s.transfers) : t.number ∉ s.freed := by
  intro hfreed
  exact (h.freed t.number (h.below t ht)).1 hfreed (List.mem_map_of_mem ht)

theorem Inv.freed_erase (h : s.Inv) (ht : t ∈ s.transfers) {n : ℕ} (hn : n < s.submitted) :
    n ∈ s.freed ++ [t.number] ↔ n ∉ (s.transfers.erase t).map UsbTransfer.number := by
  have hold := h.freed n hn
  simp only [List.mem_append, List.mem_singleton, List.mem_map, h.mem_erase, not_exists,
    not_and] at hold ⊢
  constructor
  · rintro (hfreed | rfl) u ⟨hne, hu⟩ hnum
    · exact hold.1 hfreed u hu hnum
    · exact hne (h.eq_of_number hu ht hnum)
  · intro hall
    by_cases heq : n = t.number
    · exact Or.inr heq
    · left
      rw [hold]
      intro u hu hnum
      refine hall u ⟨?_, hu⟩ hnum
      rintro rfl
      exact heq hnum.symm

theorem Inv.remove (h : s.Inv) (ht : t ∈ s.transfers) (hback : t ∉ s.flying ++ s.calling) :
    (s.removeTransfer t).Inv := by
  have hcounted : ∀ device,
      Function.update s.pending t.userData (s.pending t.userData - 1) device =
        (((s.transfers.erase t).countP fun u => u.userData = device : ℕ) : ℤ) := by
    rw [Int.sub_eq_add_neg]
    exact counted_update h.counted (entries_erase ht)
  rw [removeTransfer_of_mem h ht]
  exact {
    distinct := (List.erase_sublist.map _).nodup h.distinct
    counted := hcounted
    nonneg := fun device => by
      dsimp only
      rw [hcounted]
      exact Int.natCast_nonneg _
    once := by
      rw [List.nodup_append]
      refine ⟨h.once, List.nodup_singleton _, ?_⟩
      intro a ha b hb heq
      rw [List.mem_singleton] at hb
      exact h.not_freed ht (hb ▸ heq ▸ ha)
    freed := fun n hn => h.freed_erase ht hn
    closed := fun device hclosed u hu => h.closed device hclosed u (h.mem_erase.1 hu).2
    allocated := by
      intro u hu
      obtain ⟨hne, hu⟩ := h.mem_erase.1 hu
      exact (List.mem_erase_of_ne fun heq => hne (h.eq_of_address hu ht heq)).2
        (h.allocated u hu)
    held := fun u hu => h.mem_erase.2 ⟨fun heq => hback (heq ▸ hu), h.held u hu⟩
    apart := h.apart
    numbers := (List.erase_sublist.map _).nodup h.numbers
    below := fun u hu => h.below u (h.mem_erase.1 hu).2
    freedBelow := by
      intro n hn
      rw [List.mem_append, List.mem_singleton] at hn
      rcases hn with hn | rfl
      · exact h.freedBelow n hn
      · exact h.below t ht }

theorem nodup_map_append {β : Type*} {l : List UsbTransfer} {f : UsbTransfer → β}
    (h : (l.map f).Nodup) (hne : ∀ u ∈ l, f u ≠ f t) : ((l ++ [t]).map f).Nodup := by
  rw [List.map_append, List.nodup_append]
  refine ⟨h, List.nodup_singleton _, ?_⟩
  intro a ha b hb
  obtain ⟨u, hu, rfl⟩ := List.mem_map.1 ha
  rw [List.map_singleton, List.mem_singleton] at hb
  rw [hb]
  exact hne u hu

theorem Inv.add (h : s.Inv) {address : ℕ} {device : ℤ} (hopen : s.devh device = true)
    (hnew : address ∉ s.allocated) :
    Inv { s with
      transfers := s.transfers ++ [UsbTransfer.mk address device s.submitted]
      pending := Function.update s.pending device (s.pending device + 1)
      allocated := address :: s.allocated
      submitted := s.submitted + 1 } := by
  have hcounted := counted_update h.counted (s.entries_append ⟨address, device, s.submitted⟩)
  have hmem : ∀ {u}, u ∈ s.transfers ++ [UsbTransfer.mk address device s.submitted] →
      u ∈ s.transfers ∨ u = ⟨address, device, s.submitted⟩ := by
    intro u hu
    simpa using hu
  exact {
    distinct := by
      apply nodup_map_append h.distinct
      intro u hu heq
      have haddress : u.address = address := heq
      exact hnew (haddress ▸ h.allocated u hu)
    counted := hcounted
    nonneg := fun other => by
      dsimp only
      rw [hcounted]
      exact Int.natCast_nonneg _
    once := h.once
    freed := by
      intro n hn
      dsimp only at hn ⊢
      rw [List.map_append, List.map_singleton, List.mem_append, List.mem_singleton, not_or]
      by_cases heq : n = s.submitted
      · exact ⟨fun hfreed => absurd (h.freedBelow n hfreed) (by omega),
          fun hall => absurd heq hall.2⟩
      · rw [h.freed n (by omega)]
        exact ⟨fun hall => ⟨hall, heq⟩, And.left⟩
    closed := by
      intro other hclosed u hu
      rcases hmem hu with hu | rfl
      · exact h.closed other hclosed u hu
      · rintro rfl
        dsimp only at hclosed
        rw [hopen] at hclosed
        cases hclosed
    allocated := by
      intro u hu
      rcases hmem hu with hu | rfl
      · exact List.mem_cons_of_mem _ (h.allocated u hu)
      · exact List.mem_cons_self
    held := fun u hu => List.mem_append_left _ (h.held u hu)
    apart := h.apart
    numbers := by
      apply nodup_map_append h.numbers
      intro u hu
      exact Nat.ne_of_lt (h.below u hu)
    below := by
      intro u hu
      rcases hmem hu with hu | rfl
      · exact Nat.lt_succ_of_lt (h.below u hu)
      · exact Nat.lt_succ_self _
    freedBelow := by
      intro n hn
      exact Nat.lt_succ_of_lt (h.freedBelow n hn) }

theorem Inv.fly (h : s.Inv) (ht : t ∈ s.transfers) (hback : t ∉ s.flying ++ s.calling) :
    Inv { s with flying := s.flying ++ [t] } := by
  have hperm : ((s.flying ++ [t]) ++ s.calling).Perm (t :: (s.flying ++ s.calling)) := by
    rw [List.append_assoc, List.singleton_append]
    exact List.perm_middle
  exact { h with
    held := fun u hu => by
      rcases List.mem_cons.1 (hperm.mem_iff.1 hu) with rfl | hu
      · exact ht
      · exact h.held u hu
    apart := hperm.nodup_iff.2 (List.nodup_cons.2 ⟨hback, h.apart⟩) }

theorem Inv.call (h : s.Inv) (ht : t ∈ s.transfers) (hback : t ∉ s.flying ++ s.calling) :
    Inv { s with calling := s.calling ++ [t] } := by
  have hperm : (s.flying ++ (s.calling ++ [t])).Perm (t :: (s.flying ++ s.calling)) := by
    rw [← List.append_assoc]
    exact List.perm_append_singleton _ _
  exact { h with
    held := fun u hu => by
      rcases List.mem_cons.1 (hperm.mem_iff.1 hu) with rfl | hu
      · exact ht
      · exact h.held u hu
    apart := hperm.nodup_iff.2 (List.nodup_cons.2 ⟨hback, h.apart⟩) }

theorem Inv.land (h : s.Inv) (ht : t ∈ s.flying) :
    Inv { s with flying := s.flying.erase t } ∧ t ∈ s.transfers ∧
      t ∉ s.flying.erase t ++ s.calling := by
  have hperm : (s.flying ++ s.calling).Perm (t :: (s.flying.erase t ++ s.calling)) :=
    (List.perm_cons_erase ht).append_right _
  have hnodup := List.nodup_cons.1 (hperm.nodup_iff.1 h.apart)
  refine ⟨{ h with
    held := fun u hu => h.held u (hperm.mem_iff.2 (List.mem_cons_of_mem _ hu))
    apart := hnodup.2 }, h.held t (List.mem_append_left _ ht), hnodup.1⟩

theorem Inv.return (h : s.Inv) (ht : t ∈ s.calling) :
    Inv { s with calling := s.calling.erase t } ∧ t ∈ s.transfers ∧
      t ∉ s.flying ++ s.calling.erase t := by
  have hperm : (s.flying ++ s.calling).Perm (t :: (s.flying ++ s.calling.erase t)) :=
    ((List.perm_cons_erase ht).append_left _).trans List.perm_middle
  have hnodup := List.nodup_cons.1 (hperm.nodup_iff.1 h.apart)
  refine ⟨{ h with
    held := fun u hu => h.held u (hperm.mem_iff.2 (List.mem_cons_of_mem _ hu))
    apart := hnodup.2 }, h.held t (List.mem_append_right _ ht), hnodup.1⟩

theorem Inv.clear (h : s.Inv) {device : ℤ} (hpending : s.pending device = 0) :
    (s.clear device).Inv := by
  have hsame : Function.update s.pending device 0 = s.pending := by
    rw [← hpending, Function.update_eq_self]
  have hempty : s.entries device = 0 := by
    have hcounted := h.counted device
    omega
  unfold TransferTable.clear
  rw [hsame]
  exact { h with
    closed := by
      intro other hclosed u hu
      by_cases heq : other = device
      · rintro huser
        have hpositive : 0 < s.entries device :=
          List.countP_pos_iff.2 ⟨u, hu, by simp [huser, heq]⟩
        omega
      · dsimp only at hclosed
        rw [Function.update_of_ne heq] at hclosed
        exact h.closed other hclosed u hu }

theorem Inv.opens (h : s.Inv) (device : ℤ) :
    Inv { s with devh := Function.update s.devh device true } := by
  exact { h with
    closed := by
      intro other hclosed
      by_cases heq : other = device
      · subst heq
        simp at hclosed
      · dsimp only at hclosed
        rw [Function.update_of_ne heq] at hclosed
        exact h.closed other hclosed }

theorem Inv.submitNew (h : s.Inv) (device : ℤ) {o : SubmitOutcome}
    (hnew : o.address ∉ s.allocated) : (s.submitNew device o).1.Inv := by
  unfold TransferTable.submitNew
  by_cases hcheck : s.checkDevice device = true
  · have hopen : s.devh device = true := (of_decide_eq_true hcheck).2.2
    rw [if_pos hcheck]
    split
    · have habsent : (s.transfers.any fun u => u.address = o.address) = false := by
        rw [List.any_eq_false]
        intro u hu heq
        exact hnew (of_decide_eq_true heq ▸ h.allocated u hu)
      have hentry := h.add hopen hnew
      have hback : (⟨o.address, device, s.submitted⟩ : UsbTransfer) ∉ s.flying ++ s.calling := by
        intro hheld
        exact absurd (h.below _ (h.held _ hheld)) (by simp)
      have hmem : (⟨o.address, device, s.submitted⟩ : UsbTransfer) ∈
          s.transfers ++ [⟨o.address, device, s.submitted⟩] := by simp
      unfold submitTransfer addTransfer
      dsimp only
      rw [habsent]
      by_cases hrealloc : o.realloc = true
      · by_cases hsubmit : o.submit = true
        · simpa [hrealloc, hsubmit] using hentry.fly hmem hback
        · simpa [hrealloc, hsubmit] using hentry.remove hmem hback
      · -- the transfer stays allocated, and is not submitted
        simp only [hrealloc]
        exact { h with
          allocated := fun u hu => List.mem_cons_of_mem _ (h.allocated u hu) }
    · exact h
  · rw [if_neg hcheck]
    exact h

theorem Inv.usbCallback (h : s.Inv) (ht : t ∈ s.transfers) (hback : t ∉ s.flying ++ s.calling)
    (cancelled : Bool) : (s.usbCallback t cancelled).Inv := by
  unfold TransferTable.usbCallback
  split
  · exact h.remove ht hback
  · exact h.call ht hback

theorem Inv.gusbClose (h : s.Inv) (device : ℤ) : (s.gusbClose device).Inv := by
  unfold TransferTable.gusbClose
  split
  · exact h
  · split
    · exact { h with }
    next hclosed =>
      apply h.clear
      rw [h.counted]
      rw [Bool.not_eq_true] at hclosed
      have hnone : s.entries device = 0 := by
        apply List.countP_eq_zero.2
        intro u hu
        simpa using h.closed device hclosed u hu
      rw [hnone]
      rfl

/-- An event other than a wait that is cut short leaves the transfers accounted for. -/
theorem Inv.next (h : s.Inv) {e : TransferEvent} (hwaits : s.Waits e) {s' : TransferTable}
    (hnext : s.next e = some s') : s'.Inv := by
  unfold TransferTable.next at hnext
  cases e with
  | poll device o =>
      dsimp only at hnext
      split at hnext
      · cases hnext
      next hnew => exact Option.some.inj hnext ▸ h.submitNew device hnew
  | write device o =>
      dsimp only at hnext
      split at hnext
      · cases hnext
      next hnew => exact Option.some.inj hnext ▸ h.submitNew device hnew
  | complete t cancelled =>
      dsimp only at hnext
      split at hnext
      next hflying =>
        obtain ⟨hland, hmem, hback⟩ := h.land hflying
        exact Option.some.inj hnext ▸ hland.usbCallback hmem hback cancelled
      next => cases hnext
  | returns t =>
      dsimp only at hnext
      split at hnext
      next hcalling =>
        obtain ⟨hreturn, hmem, hback⟩ := h.return hcalling
        exact Option.some.inj hnext ▸ hreturn.remove hmem hback
      next => cases hnext
  | close device => exact Option.some.inj hnext ▸ h.gusbClose device
  | closed device failed =>
      dsimp only at hnext
      split at hnext
      next hcond =>
        cases failed with
        | true => exact absurd rfl (hwaits device)
        | false =>
            have hpending : s.pending device = 0 := by simpa using hcond.2.2
            exact Option.some.inj hnext ▸ h.clear hpending
      next => cases hnext
  | opens device =>
      dsimp only at hnext
      split at hnext
      · exact Option.some.inj hnext ▸ h.opens device
      · cases hnext

/-- A wait that is cut short leaves entries of a device that is not open any more. -/
theorem not_accounted_of_failed (h : s.Accounted) {device : ℤ} {s' : TransferTable}
    (hnext : s.next (.closed device true) = some s') : ¬ s'.Accounted := by
  intro haccounted
  unfold TransferTable.next at hnext
  dsimp only at hnext
  split at hnext
  next hcond =>
    have hpending : s.pending device ≠ 0 := hcond.2.2.1 rfl
    have hentries : 0 < s.entries device := by
      have hcounted := h.counted device
      omega
    obtain ⟨u, hu, huser⟩ := List.countP_pos_iff.1 hentries
    obtain rfl := Option.some.inj hnext
    exact haccounted.closed device (by simp [TransferTable.clear]) u hu (by simpa using huser)
  next => cases hnext

/-- In a run, the transfers are accounted for in all states, if and only if no close of the run
ends its wait because the handling of events fails. -/
theorem accounted_iff_waits {es : List TransferEvent} {s : TransferTable}
    (hrun : exec TransferTable.next start es = some s) :
    Always TransferTable.next Accounted start es ↔ Along TransferTable.next Waits start es := by
  refine always_iff_along (I := Inv) (fun _ _ _ h hwaits hnext => h.next hwaits hnext) ?_
    Inv.start Inv.start.toAccounted hrun
  intro s e s' h haccounted hnext
  constructor
  · rintro haccounted' device rfl
    exact not_accounted_of_failed haccounted hnext haccounted'
  · intro hwaits
    exact (h.next hwaits hnext).toAccounted

def onePoll : SubmitOutcome := ⟨true, 1, true, true⟩

def cancelledPoll : List TransferEvent :=
  [.opens 0, .poll 0 onePoll, .close 0, .complete ⟨1, 0, 0⟩ true, .closed 0 false]

theorem accounted_iff_waits_cancelledPoll :
    Always TransferTable.next Accounted start cancelledPoll ↔
      Along TransferTable.next Waits start cancelledPoll := by
  have hsome : (exec TransferTable.next start cancelledPoll).isSome = true := by decide
  exact accounted_iff_waits (Option.some_get hsome).symm

def failedWait : List TransferEvent :=
  [.opens 0, .poll 0 onePoll, .close 0, .closed 0 true, .complete ⟨1, 0, 0⟩ true]

/-- The count of the device, which is not open any more, is -1. -/
theorem not_accounted_failedWait :
    (exec TransferTable.next start failedWait).map (fun s => (s.pending 0, s.devh 0)) =
        some (-1, false) ∧
      ¬ Always TransferTable.next Accounted start failedWait := by
  have hlast : (exec TransferTable.next start failedWait).map
      (fun s => (s.pending 0, s.devh 0)) = some (-1, false) := by decide
  refine ⟨hlast, fun h => ?_⟩
  obtain ⟨s, hrun, hs⟩ := Option.map_eq_some_iff.1 hlast
  have hnonneg := (h.last hrun).nonneg 0
  rw [Prod.mk.injEq] at hs
  omega

end TransferTable

end SerialUsb
