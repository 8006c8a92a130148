import Mathlib.Data.List.Nodup
import SerialUsb.Gasync.Sources
import SerialUsb.Transition.Run

/-!
# Dispatching events

The loop of `gpoll`. What `poll` returns is a snapshot; the callbacks change the table while the
loop walks over it. A callback is what it does to the table, and what it returns.
-/

namespace SerialUsb

inductive EventKind where
  | close
  | read
  | write
deriving DecidableEq

def Source.callback {κ : Type*} (source : Source κ) : EventKind → Option κ
  | .close => source.fpClose
  | .read => source.fpRead
  | .write => source.fpWrite

inductive PollOp (κ : Type*) where
  | register (fd user : ℤ) (fpRead fpWrite fpClose : Option κ)
  | remove (fd : ℤ)

/-- What an invocation of a callback does to the table, and its result. -/
structure Behaviour (κ : Type*) where
  ops : List (PollOp κ)
  ret : ℤ

/-- The bits of `revents`: `POLLERR`, `POLLHUP` or `POLLNVAL`, `POLLIN`, and `POLLOUT`. -/
structure Revents where
  error : Bool
  pollin : Bool
  pollout : Bool
deriving DecidableEq

structure PollEvent where
  fd : ℕ
  kind : EventKind
deriving DecidableEq

/-- An invocation: the pointer that is called, its argument, and what was done to the table since
the call of `poll`. -/
structure Invocation (κ : Type*) where
  event : PollEvent
  fp : Option κ
  user : ℤ
  since : List (PollOp κ)

/-- One iteration of the outer loop: the conditions of the descriptors if `poll` returns a
positive number, and the behaviour of each invocation. -/
structure PollRound (κ : Type*) where
  conditions : Option (ℕ → Revents)
  behaviour : ℕ → Behaviour κ

section

variable {κ : Type*}

namespace Gpoll

def apply (g : Gpoll κ) : PollOp κ → Gpoll κ
  | .register fd user fpRead fpWrite fpClose =>
      (gpollRegisterFd g fd user fpRead fpWrite fpClose).1
  | .remove fd => gpollRemoveFd g fd

def applyAll (g : Gpoll κ) (ops : List (PollOp κ)) : Gpoll κ := ops.foldl apply g

def fillFds (g : Gpoll κ) : List ℕ :=
  (List.range (g.maxSource + 1)).filter fun fd =>
    (g.sources fd).pollin || (g.sources fd).pollout

/-- `poll` reports the conditions that `events` asks for, and the errors. -/
def revents (g : Gpoll κ) (conditions : ℕ → Revents) (fd : ℕ) : Revents where
  error := (conditions fd).error
  pollin := (conditions fd).pollin && (g.sources fd).pollin
  pollout := (conditions fd).pollout && (g.sources fd).pollout

end Gpoll

structure Dispatch (κ : Type*) where
  gpoll : Gpoll κ
  since : List (PollOp κ)
  invoked : List (Invocation κ)

namespace Dispatch

def change (d : Dispatch κ) (ops : List (PollOp κ)) : Dispatch κ :=
  { d with gpoll := d.gpoll.applyAll ops, since := d.since ++ ops }

def invoke (behaviour : ℕ → Behaviour κ) (d : Dispatch κ) (fd : ℕ) (kind : EventKind) :
    Dispatch κ × ℤ :=
  let source := d.gpoll.sources fd
  let b := behaviour d.invoked.length
  let call : Invocation κ := ⟨⟨fd, kind⟩, source.callback kind, source.user, d.since⟩
  ({ d with invoked := d.invoked ++ [call] }.change b.ops, b.ret)

def dispatchFd (behaviour : ℕ → Behaviour κ) (d : Dispatch κ) (fd : ℕ) (revents : Revents) :
    Dispatch κ × Bool :=
  if revents.error then
    let (d, res) := d.invoke behaviour fd .close
    (d.change [.remove fd], res ≠ 0)
  else
    let (d, res) := if revents.pollin then d.invoke behaviour fd .read else (d, 0)
    if res ≠ 0 then (d, true)
    else
      let (d, res) := if revents.pollout then d.invoke behaviour fd .write else (d, 0)
      (d, res ≠ 0)

def dispatch (behaviour : ℕ → Behaviour κ) (revents : ℕ → Revents) (d : Dispatch κ) :
    List ℕ → Dispatch κ × Bool
  | [] => (d, false)
  | fd :: fds =>
      let (d, returned) := d.dispatchFd behaviour fd (revents fd)
      if returned then (d, true) else dispatch behaviour revents d fds

end Dispatch

def gpollRound (g : Gpoll κ) (round : PollRound κ) : Dispatch κ × Bool :=
  match round.conditions with
  | none => (⟨g, [], []⟩, false)
  | some conditions =>
      Dispatch.dispatch round.behaviour (g.revents conditions) ⟨g, [], []⟩ g.fillFds

def gpollNext (g : Gpoll κ) (round : PollRound κ) : Option (Gpoll κ) :=
  let (d, returned) := gpollRound g round
  if returned then none else some d.gpoll

def Revents.events (revents : Revents) (fd : ℕ) : List PollEvent :=
  if revents.error then [⟨fd, .close⟩]
  else (if revents.pollin then [⟨fd, .read⟩] else []) ++
    if revents.pollout then [⟨fd, .write⟩] else []

def PollRound.events (g : Gpoll κ) (round : PollRound κ) : List PollEvent :=
  match round.conditions with
  | none => []
  | some conditions => g.fillFds.flatMap fun fd => (g.revents conditions fd).events fd

/-- The bits of `event` are those of callbacks that are set. -/
structure Source.Coherent (source : Source κ) : Prop where
  read : source.pollin = true → source.fpRead ≠ none
  write : source.pollout = true → source.fpWrite ≠ none
  close : source.pollin = true ∨ source.pollout = true → source.fpClose ≠ none

theorem Source.Coherent.empty : (Source.empty : Source κ).Coherent where
  read := by simp [Source.empty]
  write := by simp [Source.empty]
  close := by simp [Source.empty]

theorem Source.Coherent.register {source : Source κ} (h : source.Coherent) (user : ℤ)
    {fpRead fpWrite fpClose : Option κ} (hclose : fpClose ≠ none) :
    (source.register user fpRead fpWrite fpClose).Coherent where
  read := by
    intro hbit
    cases fpRead with
    | none => simpa [Source.register] using h.read (by simpa [Source.register] using hbit)
    | some fp => simp [Source.register]
  write := by
    intro hbit
    cases fpWrite with
    | none => simpa [Source.register] using h.write (by simpa [Source.register] using hbit)
    | some fp => simp [Source.register]
  close := fun _ => hclose

def Gpoll.Coherent (g : Gpoll κ) : Prop := ∀ fd, (g.sources fd).Coherent

theorem Gpoll.Coherent.start : (Gpoll.start : Gpoll κ).Coherent := fun _ => .empty

theorem Gpoll.Coherent.update {g : Gpoll κ} (h : g.Coherent) {source : Source κ}
    (hsource : source.Coherent) (fd maxSource : ℕ) :
    Gpoll.Coherent ⟨Function.update g.sources fd source, maxSource⟩ := by
  intro other
  by_cases heq : other = fd
  · subst heq
    simpa using hsource
  · simpa [heq] using h other

theorem Gpoll.Coherent.apply {g : Gpoll κ} (h : g.Coherent) (op : PollOp κ) :
    (g.apply op).Coherent := by
  cases op with
  | register fd user fpRead fpWrite fpClose =>
      unfold Gpoll.apply
      dsimp only
      by_cases haccepts : registerAccepts fd fpRead fpWrite fpClose = true
      · rw [gpollRegisterFd_of_accepts g haccepts]
        exact h.update ((h _).register user (registerAccepts_iff.1 haccepts).1) _ _
      · rwa [gpollRegisterFd_of_refused g (Bool.eq_false_iff.2 haccepts)]
  | remove fd =>
      unfold Gpoll.apply gpollRemoveFd
      dsimp only
      split
      · exact h.update .empty _ _
      · exact h

theorem Gpoll.Coherent.applyAll {g : Gpoll κ} (h : g.Coherent) (ops : List (PollOp κ)) :
    (g.applyAll ops).Coherent := by
  induction ops generalizing g with
  | nil => exact h
  | cons op ops ih => exact ih (h.apply op)

namespace Gpoll

theorem applyAll_cons (g : Gpoll κ) (op : PollOp κ) (ops : List (PollOp κ)) :
    g.applyAll (op :: ops) = (g.apply op).applyAll ops := rfl

theorem applyAll_append (g : Gpoll κ) (ops ops' : List (PollOp κ)) :
    g.applyAll (ops ++ ops') = (g.applyAll ops).applyAll ops' := List.foldl_append

end Gpoll

namespace Dispatch

variable (behaviour : ℕ → Behaviour κ)

/-- The loop over the events: each invokes a callback, and a failed descriptor is removed. -/
def dispatchEvents (d : Dispatch κ) : List PollEvent → Dispatch κ × Bool
  | [] => (d, false)
  | e :: es =>
      let (d, res) := d.invoke behaviour e.fd e.kind
      let d := if e.kind = .close then d.change [.remove e.fd] else d
      if res ≠ 0 then (d, true) else dispatchEvents d es

def call (d : Dispatch κ) (e : PollEvent) : Invocation κ :=
  ⟨e, (d.gpoll.sources e.fd).callback e.kind, (d.gpoll.sources e.fd).user, d.since⟩

def own (e : PollEvent) : List (PollOp κ) := if e.kind = .close then [.remove e.fd] else []

def after (d : Dispatch κ) (e : PollEvent) (b : Behaviour κ) : Dispatch κ where
  gpoll := d.gpoll.applyAll (b.ops ++ own e)
  since := d.since ++ (b.ops ++ own e)
  invoked := d.invoked ++ [d.call e]

theorem dispatchEvents_cons (d : Dispatch κ) (e : PollEvent) (es : List PollEvent) :
    d.dispatchEvents behaviour (e :: es) =
      if (behaviour d.invoked.length).ret ≠ 0 then
        (d.after e (behaviour d.invoked.length), true)
      else (d.after e (behaviour d.invoked.length)).dispatchEvents behaviour es := by
  obtain ⟨fd, kind⟩ := e
  have hafter : (if kind = .close then
      (d.invoke behaviour fd kind).1.change [.remove fd] else (d.invoke behaviour fd kind).1) =
        d.after ⟨fd, kind⟩ (behaviour d.invoked.length) := by
    by_cases hkind : kind = .close <;>
      simp [invoke, change, after, own, call, hkind, Gpoll.applyAll_append]
  rw [dispatchEvents]
  dsimp only
  rw [hafter]
  rfl

theorem dispatchEvents_append (d : Dispatch κ) (es es' : List PollEvent) :
    d.dispatchEvents behaviour (es ++ es') =
      if (d.dispatchEvents behaviour es).2 then d.dispatchEvents behaviour es
      else (d.dispatchEvents behaviour es).1.dispatchEvents behaviour es' := by
  induction es generalizing d with
  | nil => rfl
  | cons e es ih =>
      rw [List.cons_append, dispatchEvents, dispatchEvents]
      dsimp only
      split
      · rfl
      · exact ih _

/-- The body of the inner loop is the loop over the events of the descriptor. -/
theorem dispatchFd_eq (d : Dispatch κ) (fd : ℕ) (revents : Revents) :
    d.dispatchFd behaviour fd revents = d.dispatchEvents behaviour (revents.events fd) := by
  obtain ⟨error, pollin, pollout⟩ := revents
  unfold dispatchFd Revents.events
  cases error
  · cases pollin
    · cases pollout
      · rfl
      · by_cases hres : (d.invoke behaviour fd .write).2 = 0 <;> simp [dispatchEvents, hres]
    · by_cases hres : (d.invoke behaviour fd .read).2 = 0
      · cases pollout
        · simp [dispatchEvents, hres]
        · by_cases hwrite : ((d.invoke behaviour fd .read).1.invoke behaviour fd .write).2 = 0 <;>
            simp [dispatchEvents, hres, hwrite]
      · cases pollout <;> simp [dispatchEvents, hres]
  · by_cases hres : (d.invoke behaviour fd .close).2 = 0 <;> simp [dispatchEvents, hres]

theorem dispatch_eq (revents : ℕ → Revents) (d : Dispatch κ) (fds : List ℕ) :
    d.dispatch behaviour revents fds =
      d.dispatchEvents behaviour (fds.flatMap fun fd => (revents fd).events fd) := by
  induction fds generalizing d with
  | nil => rfl
  | cons fd fds ih =>
      rw [dispatch, List.flatMap_cons, dispatchEvents_append, ← dispatchFd_eq]
      dsimp only
      split
      next hreturned => rw [← hreturned]
      next => exact ih _

end Dispatch

theorem fd_of_mem_events {revents : Revents} {fd : ℕ} {e : PollEvent}
    (he : e ∈ revents.events fd) : e.fd = fd := by
  obtain ⟨error, pollin, pollout⟩ := revents
  cases error <;> cases pollin <;> cases pollout <;> simp [Revents.events] at he <;>
    rcases he with rfl | rfl <;> rfl

theorem callback_ne_none_of_mem_events {g : Gpoll κ} (h : g.Coherent) {round : PollRound κ}
    {e : PollEvent} (he : e ∈ round.events g) :
    (g.sources e.fd).callback e.kind ≠ none := by
  unfold PollRound.events at he
  split at he
  · cases he
  next conditions _ =>
    obtain ⟨fd, hfd, he⟩ := List.mem_flatMap.1 he
    have hbits : (g.sources fd).pollin = true ∨ (g.sources fd).pollout = true := by
      simpa [Gpoll.fillFds] using (List.mem_filter.1 hfd).2
    unfold Revents.events Gpoll.revents at he
    dsimp only at he
    split at he
    · rw [List.mem_singleton] at he
      subst he
      exact (h fd).close hbits
    · rw [List.mem_append] at he
      rcases he with he | he
      · split at he
        next hbit =>
          rw [List.mem_singleton] at he
          subst he
          exact (h fd).read ((Bool.and_eq_true _ _ ▸ hbit).2)
        next => cases he
      · split at he
        next hbit =>
          rw [List.mem_singleton] at he
          subst he
          exact (h fd).write ((Bool.and_eq_true _ _ ▸ hbit).2)
        next => cases he

/-- An iteration is the loop over its events. -/
theorem gpollRound_eq (g : Gpoll κ) (round : PollRound κ) :
    gpollRound g round =
      Dispatch.dispatchEvents round.behaviour ⟨g, [], []⟩ (round.events g) := by
  unfold gpollRound PollRound.events
  split
  · rfl
  · rw [Dispatch.dispatch_eq]

theorem Gpoll.Coherent.dispatchEvents {behaviour : ℕ → Behaviour κ} {d : Dispatch κ}
    (h : d.gpoll.Coherent) (es : List PollEvent) :
    (d.dispatchEvents behaviour es).1.gpoll.Coherent := by
  induction es generalizing d with
  | nil => exact h
  | cons e es ih =>
      have hafter : ∀ b, (d.after e b).gpoll.Coherent := fun b => h.applyAll _
      rw [Dispatch.dispatchEvents_cons]
      split
      · exact hafter _
      · exact ih (hafter _)

theorem Gpoll.Coherent.gpollNext {g g' : Gpoll κ} (h : g.Coherent) {round : PollRound κ}
    (hnext : gpollNext g round = some g') : g'.Coherent := by
  have hround : (gpollRound g round).1.gpoll.Coherent := by
    rw [gpollRound_eq]
    exact Gpoll.Coherent.dispatchEvents h _
  unfold SerialUsb.gpollNext at hnext
  dsimp only at hnext
  split at hnext
  · cases hnext
  · rw [Option.some.injEq] at hnext
    exact hnext ▸ hround

end

end SerialUsb
