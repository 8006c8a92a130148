import Mathlib.Data.Finset.Basic
import Mathlib.Data.Finset.Card
import Mathlib.Data.List.Nodup
import SerialUsb.Gasync.Sources
import SerialUsb.Transition.Run

/-!
# Timers

`gtimer.c`, over the descriptors of the process. A run starts and closes timers and has events
of timers, with any identifier. Beside the slots it keeps the identifiers of the timers that run:
those that `gtimer_start` returned and that were not closed since.
-/

namespace SerialUsb

abbrev maxTimers : ℕ := 32

/-- The functions that are registered as callbacks: those of the library, `adapter_recv`, and
those that the program passes. -/
inductive Callback where
  | gtimerRead
  | gtimerClose
  | asyncRead
  | asyncClose
  | gusbHandleEvents
  | gusbClose
  | adapterRecv
  | program (n : ℕ)
deriving DecidableEq

structure Files where
  gpoll : Gpoll Callback
  opened : Finset ℤ

abbrev RegisterFd : Type :=
  Gpoll Callback → ℤ → ℤ → Option Callback → Option Callback → Option Callback →
    Gpoll Callback × ℤ

structure Timer where
  fd : ℤ
  user : ℤ
  fpRead : Option Callback
  fpClose : Option Callback
deriving DecidableEq

def Timer.zero : Timer := ⟨0, 0, none, none⟩

structure Gtimer where
  timers : ℕ → Timer
  files : Files

def Gtimer.start (files : Files) : Gtimer := ⟨fun _ => { Timer.zero with fd := -1 }, files⟩

namespace Gtimer

def checkTimer (g : Gtimer) (timer : ℤ) : Bool :=
  decide (¬ (timer < 0 ∨ maxTimers ≤ timer ∨ (g.timers timer.toNat).fd < 0))

def getSlot (g : Gtimer) : Option ℕ :=
  (List.range maxTimers).find? fun i => (g.timers i).fd = -1

/-- `gtimer_start`, where `timerfd_create` returns a descriptor or fails, and `timerfd_settime`
succeeds or not. -/
def gtimerStart (g : Gtimer) (user : ℤ) (fpRead fpClose : Option Callback)
    (fpRegister : RegisterFd) (timerfdCreate : Option ℕ) (timerfdSettime : Bool) : Gtimer × ℤ :=
  match g.getSlot with
  | none => (g, -1)
  | some slot =>
      match timerfdCreate with
      | none => (g, -1)
      | some tfd =>
          let opened := insert (tfd : ℤ) g.files.opened
          if timerfdSettime then
            let (gpoll, ret) := fpRegister g.files.gpoll tfd slot (some .gtimerRead) none
              (some .gtimerClose)
            if ret < 0 then ({ g with files := ⟨gpoll, opened.erase tfd⟩ }, -1)
            else
              (⟨Function.update g.timers slot ⟨tfd, user, fpRead, fpClose⟩, ⟨gpoll, opened⟩⟩,
                slot)
          else ({ g with files := { g.files with opened := opened.erase tfd } }, -1)

def gtimerClose (g : Gtimer) (timer : ℤ) : Gtimer × ℤ :=
  if g.checkTimer timer then
    let fd := (g.timers timer.toNat).fd
    (⟨Function.update g.timers timer.toNat Timer.zero,
      ⟨gpollRemoveFd g.files.gpoll fd, g.files.opened.erase fd⟩⟩, 1)
  else (g, -1)

/-- What an event callback comes to: `CHECK_TIMER` rejects the identifier, the read of the
descriptor fails, or a callback of the program is called with its user. -/
inductive Event where
  | rejected
  | readFailed (fd : ℤ)
  | called (fp : Option Callback) (user : ℤ)
deriving DecidableEq

/-- `read_callback`, where `read` tells whether the descriptor had 8 bytes. -/
def readCallback (g : Gtimer) (timer : ℤ) (read : Bool) : Event :=
  if g.checkTimer timer then
    let t := g.timers timer.toNat
    if read then .called t.fpRead t.user else .readFailed t.fd
  else .rejected

def closeCallback (g : Gtimer) (timer : ℤ) : Event :=
  if g.checkTimer timer then
    let t := g.timers timer.toNat
    .called t.fpClose t.user
  else .rejected

end Gtimer

structure TimerRun where
  gtimer : Gtimer
  running : List ℤ

def TimerRun.start (files : Files) : TimerRun := ⟨Gtimer.start files, []⟩

/-- A call or an event; the calls of `timerfd` succeed. -/
inductive TimerCall where
  | start (user : ℤ) (fpRead fpClose : Option Callback) (fpRegister : RegisterFd) (tfd : ℕ)
  | close (timer : ℤ)
  | readable (timer : ℤ) (read : Bool)
  | failed (timer : ℤ)

namespace TimerRun

/-- The state behind a call. What a callback of the program does are further calls. -/
def step (s : TimerRun) : TimerCall → TimerRun
  | .start user fpRead fpClose fpRegister tfd =>
      let (g, ret) := s.gtimer.gtimerStart user fpRead fpClose fpRegister (some tfd) true
      ⟨g, if ret < 0 then s.running else s.running ++ [ret]⟩
  | .close timer => ⟨(s.gtimer.gtimerClose timer).1, s.running.filter (· ≠ timer)⟩
  | .readable _ _ => s
  | .failed _ => s

/-- The slots agree with the timers that run: a slot can be taken if its timer does not run, and
only then, and each timer that runs has a slot of its own. -/
structure Agrees (s : TimerRun) : Prop where
  reusable : ∀ slot < maxTimers,
    (s.gtimer.timers slot).fd = -1 ↔ (slot : ℤ) ∉ s.running
  distinct : s.running.Nodup
  slots : ∀ timer ∈ s.running, 0 ≤ timer ∧ timer < maxTimers

/-- A call does what the state of the timers asks for: a start succeeds if fewer than
`MAX_TIMERS` run, and an identifier that does not run is rejected and nothing is changed. -/
def Answers (s : TimerRun) : TimerCall → Prop
  | .start user fpRead fpClose fpRegister tfd =>
      s.running.length < maxTimers →
        0 ≤ (s.gtimer.gtimerStart user fpRead fpClose fpRegister (some tfd) true).2
  | .close timer => timer ∉ s.running → s.gtimer.gtimerClose timer = (s.gtimer, -1)
  | .readable timer read => timer ∉ s.running → s.gtimer.readCallback timer read = .rejected
  | .failed timer => timer ∉ s.running → s.gtimer.closeCallback timer = .rejected

/-- A start is not refused by `fp_register`, and a close is not of a timer that runs. -/
def Sound (s : TimerRun) : TimerCall → Prop
  | .start _ _ _ fpRegister tfd =>
      ∀ slot, s.gtimer.getSlot = some slot →
        0 ≤ (fpRegister s.gtimer.files.gpoll tfd slot (some .gtimerRead) none
          (some .gtimerClose)).2
  | .close timer => timer ∉ s.running
  | .readable _ _ => True
  | .failed _ => True

structure Inv (s : TimerRun) : Prop extends Agrees s where
  fds : ∀ slot, -1 ≤ (s.gtimer.timers slot).fd

theorem Inv.start (files : Files) : (TimerRun.start files).Inv where
  reusable := by simp [TimerRun.start, Gtimer.start]
  distinct := List.nodup_nil
  slots := by simp [TimerRun.start]
  fds := by simp [TimerRun.start, Gtimer.start]

end TimerRun

namespace Gtimer

theorem getSlot_eq_some {g : Gtimer} {slot : ℕ} (h : g.getSlot = some slot) :
    slot < maxTimers ∧ (g.timers slot).fd = -1 := by
  have hmem := List.mem_of_find?_eq_some h
  have hfd := List.find?_some h
  exact ⟨List.mem_range.1 hmem, by simpa using hfd⟩

theorem getSlot_ne_none {g : Gtimer} {slot : ℕ} (hslot : slot < maxTimers)
    (hfd : (g.timers slot).fd = -1) : g.getSlot ≠ none := by
  intro h
  have hall := List.find?_eq_none.1 h slot (List.mem_range.2 hslot)
  simp [hfd] at hall

theorem gtimerStart_cases (g : Gtimer) (user : ℤ) (fpRead fpClose : Option Callback)
    (fpRegister : RegisterFd) (tfd : ℕ) :
    (g.gtimerStart user fpRead fpClose fpRegister (some tfd) true).2 = -1 ∧
        (g.gtimerStart user fpRead fpClose fpRegister (some tfd) true).1.timers = g.timers ∧
        (∀ slot, g.getSlot = some slot → (fpRegister g.files.gpoll tfd slot
          (some .gtimerRead) none (some .gtimerClose)).2 < 0) ∨
      ∃ slot, g.getSlot = some slot ∧
        (g.gtimerStart user fpRead fpClose fpRegister (some tfd) true).2 = slot ∧
        (g.gtimerStart user fpRead fpClose fpRegister (some tfd) true).1.timers =
          Function.update g.timers slot ⟨tfd, user, fpRead, fpClose⟩ ∧
        0 ≤ (fpRegister g.files.gpoll tfd slot (some .gtimerRead) none
          (some .gtimerClose)).2 := by
  unfold gtimerStart
  cases hslot : g.getSlot with
  | none => exact Or.inl ⟨rfl, rfl, by simp⟩
  | some slot =>
      dsimp only
      rw [if_pos rfl]
      split
      next hret =>
        refine Or.inl ⟨rfl, rfl, ?_⟩
        intro other hother
        rw [Option.some.injEq] at hother
        exact hother ▸ hret
      next hret => exact Or.inr ⟨slot, rfl, rfl, rfl, not_lt.1 hret⟩

end Gtimer

namespace TimerRun

variable {s : TimerRun}

theorem Inv.checkTimer_eq_false (h : s.Inv) {timer : ℤ} (hnot : timer ∉ s.running) :
    s.gtimer.checkTimer timer = false := by
  unfold Gtimer.checkTimer
  rw [decide_eq_false_iff_not, not_not]
  by_cases hbounds : timer < 0 ∨ maxTimers ≤ timer
  · rcases hbounds with hlow | hhigh
    · exact Or.inl hlow
    · exact Or.inr (Or.inl hhigh)
  · rw [not_or, not_lt, not_le] at hbounds
    obtain ⟨hlow, hhigh⟩ := hbounds
    have hslot : timer.toNat < maxTimers := by omega
    have hfree : (s.gtimer.timers timer.toNat).fd = -1 := by
      rw [h.reusable _ hslot, Int.toNat_of_nonneg hlow]
      exact hnot
    exact Or.inr (Or.inr (by omega))

theorem Inv.checkTimer_eq_true (h : s.Inv) {timer : ℤ} (hrunning : timer ∈ s.running) :
    s.gtimer.checkTimer timer = true := by
  obtain ⟨hlow, hhigh⟩ := h.slots timer hrunning
  have hslot : timer.toNat < maxTimers := by omega
  have htaken : (s.gtimer.timers timer.toNat).fd ≠ -1 := by
    rw [Ne, h.reusable _ hslot, Int.toNat_of_nonneg hlow, not_not]
    exact hrunning
  have hfd := h.fds timer.toNat
  unfold Gtimer.checkTimer
  rw [decide_eq_true_eq]
  omega

/-- Fewer than `MAX_TIMERS` timers run exactly when a slot can be taken. -/
theorem Inv.length_lt_iff (h : s.Inv) :
    s.running.length < maxTimers ↔ ∃ slot, s.gtimer.getSlot = some slot := by
  rw [← List.toFinset_card_of_nodup h.distinct]
  have hsubset : s.running.toFinset ⊆ (Finset.range maxTimers).image (fun n : ℕ => (n : ℤ)) := by
    intro timer htimer
    obtain ⟨hlow, hhigh⟩ := h.slots timer (List.mem_toFinset.1 htimer)
    exact Finset.mem_image.2 ⟨timer.toNat, Finset.mem_range.2 (by omega), by omega⟩
  have hcard : ((Finset.range maxTimers).image (fun n : ℕ => (n : ℤ))).card = maxTimers := by
    rw [Finset.card_image_of_injective _ fun _ _ h => Int.ofNat_inj.1 h, Finset.card_range]
  constructor
  · intro hlength
    obtain ⟨timer, htimer, hnot⟩ := Finset.exists_mem_notMem_of_card_lt_card
      (hlength.trans_eq hcard.symm)
    obtain ⟨slot, hslot, rfl⟩ := Finset.mem_image.1 htimer
    rw [Finset.mem_range] at hslot
    have hfree : (s.gtimer.timers slot).fd = -1 := by
      rw [h.reusable slot hslot]
      exact mt List.mem_toFinset.2 hnot
    exact Option.ne_none_iff_exists'.1 (Gtimer.getSlot_ne_none hslot hfree)
  · rintro ⟨slot, hslot⟩
    obtain ⟨hbound, hfree⟩ := Gtimer.getSlot_eq_some hslot
    rw [h.reusable slot hbound] at hfree
    rw [← hcard]
    apply Finset.card_lt_card
    refine ⟨hsubset, fun hall => hfree (List.mem_toFinset.1 (hall ?_))⟩
    exact Finset.mem_image.2 ⟨slot, Finset.mem_range.2 hbound, rfl⟩

theorem Inv.take (h : s.Inv) {slot : ℕ} (hslot : s.gtimer.getSlot = some slot) {g : Gtimer}
    {tfd : ℕ} {user : ℤ} {fpRead fpClose : Option Callback}
    (htimers : g.timers = Function.update s.gtimer.timers slot ⟨tfd, user, fpRead, fpClose⟩) :
    Inv ⟨g, s.running ++ [(slot : ℤ)]⟩ := by
  obtain ⟨hbound, hfree⟩ := Gtimer.getSlot_eq_some hslot
  have hnot : (slot : ℤ) ∉ s.running := (h.reusable slot hbound).1 hfree
  refine ⟨⟨?_, ?_, ?_⟩, ?_⟩
  · intro other hother
    dsimp only
    rw [htimers, List.mem_append, List.mem_singleton, not_or, Int.ofNat_inj]
    by_cases heq : other = slot
    · subst heq
      rw [Function.update_self]
      simp
    · rw [Function.update_of_ne heq, h.reusable other hother]
      simp [heq]
  · rw [List.nodup_append]
    refine ⟨h.distinct, List.nodup_singleton _, ?_⟩
    intro a ha b hb
    rw [List.mem_singleton] at hb
    exact hb ▸ fun heq => hnot (heq ▸ ha)
  · intro timer htimer
    rw [List.mem_append, List.mem_singleton] at htimer
    rcases htimer with htimer | rfl
    · exact h.slots timer htimer
    · omega
  · intro other
    dsimp only
    rw [htimers]
    by_cases heq : other = slot
    · subst heq
      rw [Function.update_self]
      dsimp only
      omega
    · rw [Function.update_of_ne heq]
      exact h.fds other

theorem Inv.step_close (h : s.Inv) {timer : ℤ} (hnot : timer ∉ s.running) :
    s.step (.close timer) = s := by
  have hclose : s.gtimer.gtimerClose timer = (s.gtimer, -1) := by
    unfold Gtimer.gtimerClose
    rw [h.checkTimer_eq_false hnot]
    rfl
  have hrunning : s.running.filter (· ≠ timer) = s.running := by
    rw [List.filter_eq_self]
    intro other hother
    simpa using fun heq : other = timer => hnot (heq ▸ hother)
  unfold step
  dsimp only
  rw [hclose, hrunning]

theorem Inv.step (h : s.Inv) {call : TimerCall} (hsound : s.Sound call) : (s.step call).Inv := by
  cases call with
  | start user fpRead fpClose fpRegister tfd =>
      unfold TimerRun.step
      dsimp only
      rcases s.gtimer.gtimerStart_cases user fpRead fpClose fpRegister tfd with
        ⟨hret, htimers, -⟩ | ⟨slot, hslot, hret, htimers, -⟩
      · rw [hret, if_pos (by omega)]
        exact ⟨⟨by simpa [htimers] using h.reusable, h.distinct, h.slots⟩,
          by simpa [htimers] using h.fds⟩
      · rw [hret, if_neg (by omega)]
        exact h.take hslot htimers
  | close timer => rwa [h.step_close hsound]
  | readable timer read => exact h
  | failed timer => exact h

/-- In a state where the slots agree with the timers that run, a call is answered and leaves
them in agreement exactly when it is sound. -/
theorem Inv.answers_iff (h : s.Inv) (call : TimerCall) :
    s.Answers call ∧ (s.step call).Agrees ↔ s.Sound call := by
  constructor
  · rintro ⟨hanswers, hagrees⟩
    cases call with
    | start user fpRead fpClose fpRegister tfd =>
        intro slot hslot
        have hret := hanswers (h.length_lt_iff.2 ⟨slot, hslot⟩)
        rcases s.gtimer.gtimerStart_cases user fpRead fpClose fpRegister tfd with
          ⟨hfailed, -⟩ | ⟨other, hother, -, -, haccepted⟩
        · omega
        · rw [hslot, Option.some.injEq] at hother
          exact hother ▸ haccepted
    | close timer =>
        intro hrunning
        -- the slot has the descriptor 0, and the timer does not run any more
        obtain ⟨hlow, hhigh⟩ := h.slots timer hrunning
        have hslot : timer.toNat < maxTimers := by omega
        have hfree := (hagrees.reusable timer.toNat hslot).2 (by
          rw [Int.toNat_of_nonneg hlow]
          simp [TimerRun.step])
        simp [TimerRun.step, Gtimer.gtimerClose, h.checkTimer_eq_true hrunning, Timer.zero]
          at hfree
    | readable timer read => trivial
    | failed timer => trivial
  · intro hsound
    refine ⟨?_, (h.step hsound).toAgrees⟩
    cases call with
    | start user fpRead fpClose fpRegister tfd =>
        intro hlength
        obtain ⟨slot, hslot⟩ := h.length_lt_iff.1 hlength
        rcases s.gtimer.gtimerStart_cases user fpRead fpClose fpRegister tfd with
          ⟨-, -, hrefused⟩ | ⟨other, -, hret, -⟩
        · exact absurd (hsound slot hslot) (not_le.2 (hrefused slot hslot))
        · rw [hret]
          omega
    | close timer =>
        intro hnot
        unfold Gtimer.gtimerClose
        rw [h.checkTimer_eq_false hnot]
        rfl
    | readable timer read =>
        intro hnot
        unfold Gtimer.readCallback
        rw [h.checkTimer_eq_false hnot]
        rfl
    | failed timer =>
        intro hnot
        unfold Gtimer.closeCallback
        rw [h.checkTimer_eq_false hnot]
        rfl

def next (s : TimerRun) (call : TimerCall) : Option TimerRun := some (s.step call)

/-- All calls of a run are answered, and the slots agree with the timers that run behind each of
them, if and only if every call of the run is sound. -/
theorem answers_iff_sound (files : Files) (calls : List TimerCall) :
    Transition.Along next (fun s call => s.Answers call ∧ (s.step call).Agrees)
        (TimerRun.start files) calls ↔
      Transition.Along next Sound (TimerRun.start files) calls := by
  apply Transition.along_congr (I := Inv) (fun s call h => h.answers_iff call) ?_ (.start files)
  intro s call t h hsound hnext
  rw [next, Option.some.injEq] at hnext
  exact hnext ▸ h.step hsound

def startFive : TimerCall :=
  .start 0 (some (.program 0)) (some (.program 1)) gpollRegisterFd 5

/-- A timer that was started and closed: none runs, its slot cannot be taken, and the next close
is not rejected. It unregisters and closes the descriptor 0. -/
theorem not_answers_closedTwice :
    ¬ Transition.Along next (fun s call => s.Answers call ∧ (s.step call).Agrees)
        (TimerRun.start ⟨Gpoll.start, {0, 1, 2}⟩) [startFive, .close 0] ∧
      let s := ((TimerRun.start ⟨Gpoll.start, {0, 1, 2}⟩).step startFive).step (.close 0)
      s.running = [] ∧ (s.gtimer.timers 0).fd = 0 ∧ (s.gtimer.gtimerClose 0).2 = 1 ∧
        0 ∈ s.gtimer.files.opened ∧ 0 ∉ (s.gtimer.gtimerClose 0).1.files.opened := by
  refine ⟨?_, by decide⟩
  rintro ⟨-, htail⟩
  have hagrees := ((htail _ rfl).1.2).reusable 0 (by decide)
  exact absurd hagrees (by decide)

end TimerRun

end SerialUsb
