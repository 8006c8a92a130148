import SerialUsb.Gasync.Dispatch

/-!
# Live sources

When the loop of `gpoll` invokes callbacks of live sources only: those that were in the table when
`poll` was called, and were not removed since. It reads the table at each event, so that what
earlier callbacks of the iteration do to a source shows.
-/

namespace SerialUsb

section

variable {κ : Type*}

def PollOp.fd : PollOp κ → ℤ
  | .register fd _ _ _ _ => fd
  | .remove fd => fd

/-- An invocation is of a callback of the source that was in the table `g`, with its argument, and
that source was not removed. -/
structure Invocation.Live (g : Gpoll κ) (call : Invocation κ) : Prop where
  set : call.fp ≠ none
  fp : call.fp = (g.sources call.event.fd).callback call.event.kind
  user : call.user = (g.sources call.event.fd).user
  kept : PollOp.remove (call.event.fd : ℤ) ∉ call.since

def PollOp.userFor (fd : ℕ) : PollOp κ → Option ℤ
  | .register other user fpRead fpWrite fpClose =>
      if registerAccepts other fpRead fpWrite fpClose ∧ other = fd then some user else none
  | .remove _ => none

def PollOp.callbackFor (e : PollEvent) : PollOp κ → Option κ
  | .register other _ fpRead fpWrite fpClose =>
      if registerAccepts other fpRead fpWrite fpClose ∧ other = e.fd then
        match e.kind with
        | .close => fpClose
        | .read => fpRead
        | .write => fpWrite
      else none
  | .remove _ => none

/-- Some changes do not remove the descriptor of an event, and what they register for it last is
the argument and the callback of the source. -/
structure Undisturbed (g : Gpoll κ) (e : PollEvent) (ops : List (PollOp κ)) : Prop where
  kept : PollOp.remove (e.fd : ℤ) ∉ ops
  user : (ops.filterMap (PollOp.userFor e.fd)).getLastD (g.sources e.fd).user =
    (g.sources e.fd).user
  callback : ((ops.filterMap (PollOp.callbackFor e)).getLast?).or
      ((g.sources e.fd).callback e.kind) = (g.sources e.fd).callback e.kind

/-- The callbacks that are invoked before an event leave its source undisturbed. -/
def Quiet (g : Gpoll κ) (events : List PollEvent) (behaviour : ℕ → Behaviour κ) : Prop :=
  ∀ j e, events[j]? = some e → (∀ i < j, (behaviour i).ret = 0) →
    Undisturbed g e ((List.range j).flatMap fun i => (behaviour i).ops)

namespace Gpoll

theorem apply_sources (g : Gpoll κ) (e : PollEvent) {op : PollOp κ}
    (h : op ≠ .remove (e.fd : ℤ)) :
    ((g.apply op).sources e.fd).user = (op.userFor e.fd).getD (g.sources e.fd).user ∧
      ((g.apply op).sources e.fd).callback e.kind =
        (op.callbackFor e).or ((g.sources e.fd).callback e.kind) := by
  cases op with
  | remove fd =>
      have hfd : fd ≠ e.fd := fun heq => h (heq ▸ rfl)
      unfold apply gpollRemoveFd PollOp.userFor PollOp.callbackFor
      dsimp only
      split
      next hbounds =>
        have hne : e.fd ≠ fd.toNat := by omega
        simp [hne]
      next => simp
  | register fd user fpRead fpWrite fpClose =>
      unfold apply PollOp.userFor PollOp.callbackFor
      dsimp only
      by_cases haccepts : registerAccepts fd fpRead fpWrite fpClose = true
      · obtain ⟨hclose, -, hlow, -⟩ := registerAccepts_iff.1 haccepts
        rw [gpollRegisterFd_of_accepts g haccepts]
        by_cases hfd : fd = e.fd
        · subst hfd
          obtain ⟨fp, rfl⟩ := Option.ne_none_iff_exists'.1 hclose
          cases e.kind <;> simp [Source.register, Source.callback, haccepts]
        · have hne : e.fd ≠ fd.toNat := by omega
          simp [hfd, hne]
      · rw [gpollRegisterFd_of_refused g (Bool.eq_false_iff.2 haccepts)]
        simp [haccepts]

theorem applyAll_sources (g : Gpoll κ) (e : PollEvent) {ops : List (PollOp κ)}
    (h : PollOp.remove (e.fd : ℤ) ∉ ops) :
    ((g.applyAll ops).sources e.fd).user =
        (ops.filterMap (PollOp.userFor e.fd)).getLastD (g.sources e.fd).user ∧
      ((g.applyAll ops).sources e.fd).callback e.kind =
        ((ops.filterMap (PollOp.callbackFor e)).getLast?).or
          ((g.sources e.fd).callback e.kind) := by
  induction ops generalizing g with
  | nil => exact ⟨rfl, rfl⟩
  | cons op ops ih =>
      rw [List.mem_cons, not_or] at h
      obtain ⟨huser, hcallback⟩ := g.apply_sources e (Ne.symm h.1)
      obtain ⟨huser', hcallback'⟩ := ih (g.apply op) h.2
      rw [applyAll_cons, huser', hcallback', huser, hcallback]
      constructor
      · cases hop : op.userFor e.fd with
        | none => rw [List.filterMap_cons_none hop, Option.getD_none]
        | some user => rw [List.filterMap_cons_some hop, List.getLastD_cons, Option.getD_some]
      · cases hop : op.callbackFor e with
        | none => rw [List.filterMap_cons_none hop, Option.none_or]
        | some fp =>
            rw [List.filterMap_cons_some hop, List.getLast?_cons]
            cases (ops.filterMap (PollOp.callbackFor e)).getLast? <;> rfl

end Gpoll

/-- An invocation behind some changes is of a live source exactly when they left it
undisturbed. -/
theorem live_iff_undisturbed {g : Gpoll κ} {e : PollEvent} {ops : List (PollOp κ)}
    (hset : (g.sources e.fd).callback e.kind ≠ none) :
    Invocation.Live g ⟨e, ((g.applyAll ops).sources e.fd).callback e.kind,
        ((g.applyAll ops).sources e.fd).user, ops⟩ ↔ Undisturbed g e ops := by
  constructor
  · intro h
    obtain ⟨huser, hcallback⟩ := g.applyAll_sources e h.kept
    exact ⟨h.kept, huser ▸ h.user, hcallback ▸ h.fp⟩
  · intro h
    obtain ⟨huser, hcallback⟩ := g.applyAll_sources e h.kept
    have hsame := hcallback.trans h.callback
    exact ⟨fun hnone => hset (hsame.symm.trans hnone), hsame, huser.trans h.user, h.kept⟩

def PollOp.touches (fd : ℕ) (op : PollOp κ) : Bool := decide (op.fd = (fd : ℤ))

theorem undisturbed_congr {g : Gpoll κ} {e : PollEvent} {ops ops' : List (PollOp κ)}
    (h : ops.filter (PollOp.touches e.fd) = ops'.filter (PollOp.touches e.fd)) :
    Undisturbed g e ops ↔ Undisturbed g e ops' := by
  have huser : ∀ op : PollOp κ, (if op.touches e.fd then op.userFor e.fd else none) =
      op.userFor e.fd := by
    intro op
    cases op <;> simp [PollOp.touches, PollOp.fd, PollOp.userFor] <;> grind
  have hcallback : ∀ op : PollOp κ, (if op.touches e.fd then op.callbackFor e else none) =
      op.callbackFor e := by
    intro op
    cases op <;> simp [PollOp.touches, PollOp.fd, PollOp.callbackFor] <;> grind
  have hmem : ∀ ops : List (PollOp κ), PollOp.remove (e.fd : ℤ) ∈ ops ↔
      PollOp.remove (e.fd : ℤ) ∈ ops.filter (PollOp.touches e.fd) := by
    intro ops
    simp [PollOp.touches, PollOp.fd]
  have husers : ∀ ops : List (PollOp κ), ops.filterMap (PollOp.userFor e.fd) =
      (ops.filter (PollOp.touches e.fd)).filterMap (PollOp.userFor e.fd) := by
    intro ops
    simp [List.filterMap_filter, huser]
  have hcallbacks : ∀ ops : List (PollOp κ), ops.filterMap (PollOp.callbackFor e) =
      (ops.filter (PollOp.touches e.fd)).filterMap (PollOp.callbackFor e) := by
    intro ops
    simp [List.filterMap_filter, hcallback]
  constructor
  · rintro ⟨hkept, hu, hc⟩
    refine ⟨?_, ?_, ?_⟩
    · rwa [hmem, ← h, ← hmem]
    · rwa [husers, ← h, ← husers]
    · rwa [hcallbacks, ← h, ← hcallbacks]
  · rintro ⟨hkept, hu, hc⟩
    refine ⟨?_, ?_, ?_⟩
    · rwa [hmem, h, ← hmem]
    · rwa [husers, h, ← husers]
    · rwa [hcallbacks, h, ← hcallbacks]

def QuietFrom (g : Gpoll κ) (behaviour : ℕ → Behaviour κ) (n : ℕ) (ops : List (PollOp κ))
    (events : List PollEvent) : Prop :=
  ∀ j e, events[j]? = some e → (∀ i < j, (behaviour (n + i)).ret = 0) →
    Undisturbed g e (ops ++ (List.range j).flatMap fun i => (behaviour (n + i)).ops)

theorem quietFrom_nil (g : Gpoll κ) (behaviour : ℕ → Behaviour κ) (n : ℕ)
    (ops : List (PollOp κ)) : QuietFrom g behaviour n ops [] := by
  simp [QuietFrom]

theorem quietFrom_cons (g : Gpoll κ) (behaviour : ℕ → Behaviour κ) (n : ℕ)
    (ops : List (PollOp κ)) (e : PollEvent) (es : List PollEvent) :
    QuietFrom g behaviour n ops (e :: es) ↔ Undisturbed g e ops ∧
      ((behaviour n).ret = 0 →
        QuietFrom g behaviour (n + 1) (ops ++ (behaviour n).ops) es) := by
  have hshift : ∀ i, n + 1 + i = n + (i + 1) := by
    intro i
    omega
  have hops : ∀ j, (List.range (j + 1)).flatMap (fun i => (behaviour (n + i)).ops) =
      (behaviour n).ops ++ (List.range j).flatMap fun i => (behaviour (n + 1 + i)).ops := by
    intro j
    rw [List.range_succ_eq_map, List.flatMap_cons, List.flatMap_map]
    simp [hshift]
  constructor
  · intro h
    refine ⟨by simpa using h 0 e rfl (by simp), fun hret j e' he' hrets => ?_⟩
    have hnext := h (j + 1) e' (by simpa using he') (by
      intro i hi
      cases i with
      | zero => exact hret
      | succ i => exact hshift i ▸ hrets i (by omega))
    rwa [hops, ← List.append_assoc] at hnext
  · rintro ⟨hfirst, hrest⟩ j e' he' hrets
    cases j with
    | zero =>
        rw [List.getElem?_cons_zero, Option.some.injEq] at he'
        simpa [he'] using hfirst
    | succ j =>
        rw [hops, ← List.append_assoc]
        refine hrest (hrets 0 (by omega)) j e' (by simpa using he') fun i hi => ?_
        exact hshift i ▸ hrets (i + 1) (by omega)

/-- No event is left of a descriptor that failed. -/
def Separate (events : List PollEvent) : Prop :=
  events.Pairwise fun e e' => e.kind = .close → e'.fd ≠ e.fd

/-- A step of the loop over the events: all invocations are of live sources exactly when those
behind it were, and the events that are left find their sources undisturbed. -/
theorem dispatchEvents_live_iff {g : Gpoll κ} {behaviour : ℕ → Behaviour κ}
    {events : List PollEvent} (hset : ∀ e ∈ events, (g.sources e.fd).callback e.kind ≠ none)
    (hseparate : Separate events) (d : Dispatch κ) (hgpoll : d.gpoll = g.applyAll d.since)
    (ops : List (PollOp κ))
    (hsame : ∀ e ∈ events, d.since.filter (PollOp.touches e.fd) =
      ops.filter (PollOp.touches e.fd)) :
    (∀ call ∈ (d.dispatchEvents behaviour events).1.invoked, call.Live g) ↔
      (∀ call ∈ d.invoked, call.Live g) ∧
        QuietFrom g behaviour d.invoked.length ops events := by
  induction events generalizing d ops with
  | nil => exact ⟨fun h => ⟨h, quietFrom_nil _ _ _ _⟩, And.left⟩
  | cons e es ih =>
      rw [List.forall_mem_cons] at hset hsame
      have hfirst : (d.call e).Live g ↔ Undisturbed g e ops := by
        unfold Dispatch.call
        rw [hgpoll, live_iff_undisturbed hset.1]
        exact undisturbed_congr hsame.1
      have hinvoked : ∀ b, (∀ call ∈ (d.after e b).invoked, call.Live g) ↔
          (∀ call ∈ d.invoked, call.Live g) ∧ Undisturbed g e ops := by
        intro b
        unfold Dispatch.after
        dsimp only
        rw [List.forall_mem_append, List.forall_mem_singleton, hfirst]
      have hgpoll' : ∀ b, (d.after e b).gpoll = g.applyAll (d.after e b).since := by
        intro b
        simp [Dispatch.after, hgpoll, Gpoll.applyAll_append]
      have hsame' : ∀ b, ∀ e' ∈ es, (d.after e b).since.filter (PollOp.touches e'.fd) =
          (ops ++ b.ops).filter (PollOp.touches e'.fd) := by
        intro b e' he'
        -- what the loop removes is not the descriptor of an event that is left
        have hown : (Dispatch.own e : List (PollOp κ)).filter (PollOp.touches e'.fd) = [] := by
          unfold Dispatch.own
          split
          next hclose =>
            have hne := (List.pairwise_cons.1 hseparate).1 e' he' hclose
            have hne' : (e.fd : ℤ) ≠ e'.fd := by omega
            simp [PollOp.touches, PollOp.fd, hne']
          next => rfl
        simp [Dispatch.after, hsame.2 e' he', hown]
      rw [Dispatch.dispatchEvents_cons, quietFrom_cons]
      by_cases hret : (behaviour d.invoked.length).ret = 0
      · rw [if_neg (not_not.2 hret),
          ih hset.2 hseparate.of_cons _ (hgpoll' _) _ (hsame' _), hinvoked]
        simp [Dispatch.after, hret, and_assoc]
      · rw [if_pos hret, hinvoked]
        simp [hret]

theorem separate_events (g : Gpoll κ) (round : PollRound κ) : Separate (round.events g) := by
  unfold PollRound.events Separate
  split
  · exact List.Pairwise.nil
  next conditions _ =>
    rw [List.pairwise_flatMap]
    constructor
    · intro fd _
      unfold Revents.events
      split
      · exact List.pairwise_singleton _ _
      · split <;> split <;> simp
    · have hnodup : g.fillFds.Nodup := List.nodup_range.filter _
      refine hnodup.imp fun hne e he e' he' _ => ?_
      rw [fd_of_mem_events he, fd_of_mem_events he']
      exact Ne.symm hne

/-- In an iteration all invocations are of live sources, if and only if the callbacks that are
invoked before an event leave its source undisturbed. -/
theorem gpollRound_live_iff {g : Gpoll κ} (h : g.Coherent) (round : PollRound κ) :
    (∀ call ∈ (gpollRound g round).1.invoked, call.Live g) ↔
      Quiet g (round.events g) round.behaviour := by
  have hquiet : Quiet g (round.events g) round.behaviour ↔
      QuietFrom g round.behaviour 0 [] (round.events g) := by
    simp [Quiet, QuietFrom]
  rw [hquiet, gpollRound_eq, dispatchEvents_live_iff (fun e => callback_ne_none_of_mem_events h)
    (separate_events g round) ⟨g, [], []⟩ rfl [] fun _ _ => rfl]
  simp

/-- `gpoll`, from any table that registrations and removals make: in all iterations all
invocations are of live sources, if and only if in all iterations the callbacks leave the sources
of the events behind them undisturbed. -/
theorem gpoll_live_iff (setup : List (PollOp κ)) (rounds : List (PollRound κ)) :
    Transition.Along gpollNext
        (fun g round => ∀ call ∈ (gpollRound g round).1.invoked, call.Live g)
        (Gpoll.start.applyAll setup) rounds ↔
      Transition.Along gpollNext
        (fun g round => Quiet g (round.events g) round.behaviour)
        (Gpoll.start.applyAll setup) rounds := by
  apply Transition.along_congr (fun _ round h => gpollRound_live_iff h round)
    (fun _ _ _ h _ hnext => h.gpollNext hnext)
  exact Gpoll.Coherent.start.applyAll setup

end

/-- The sources of a proxy: the serial port with the descriptor 4, and the timer of the start with
the descriptor 5. Callbacks are numbered. -/
def serialAndTimer : List (PollOp ℕ) :=
  [.register 4 0 (some 1) none (some 2), .register 5 0 (some 3) none (some 4)]

/-- Both are readable, and the callback of the serial port closes the timer, as `process_packet`
does for `E_TYPE_ENDPOINTS`. -/
def closesTimer : PollRound ℕ where
  conditions := some fun _ => ⟨false, true, false⟩
  behaviour
    | 0 => ⟨[.remove 5], 0⟩
    | _ => ⟨[], 0⟩

/-- The loop calls NULL for the timer. -/
theorem not_live_closesTimer :
    ((gpollRound (Gpoll.start.applyAll serialAndTimer) closesTimer).1.invoked.map
        fun call => (call.event.fd, call.fp)) = [(4, some 1), (5, none)] ∧
      ¬ Transition.Along gpollNext
        (fun g round => ∀ call ∈ (gpollRound g round).1.invoked, call.Live g)
        (Gpoll.start.applyAll serialAndTimer) [closesTimer] := by
  have hcalls : ((gpollRound (Gpoll.start.applyAll serialAndTimer) closesTimer).1.invoked.map
      fun call => (call.event.fd, call.fp)) = [(4, some 1), (5, none)] := by decide
  refine ⟨hcalls, fun h => ?_⟩
  have hmem : (5, none) ∈ (gpollRound (Gpoll.start.applyAll serialAndTimer)
      closesTimer).1.invoked.map fun call => (call.event.fd, call.fp) := by
    rw [hcalls]
    simp
  obtain ⟨call, hcall, heq⟩ := List.mem_map.1 hmem
  rw [Prod.mk.injEq] at heq
  exact (h.1 call hcall).set heq.2

end SerialUsb
