import SerialUsb.Adapter.Delivered
import SerialUsb.System.InPath
import SerialUsb.Transition.Progress

/-!
# No IN packet waits for ever

A packet that a poll has returned is written to its endpoint after a bounded number of steps of
the two parties, whatever the other endpoints do meanwhile: it keeps its place in `inEpFifo`,
every acknowledgement brings it forward by one, and a packet under way has so many steps left.
So an endpoint that is always ready does not keep the others waiting, and none of them is
served twice before it.
-/

namespace SerialUsb

open Framing Memory Transition

/-- How many acknowledgements are to come before the packet of an endpoint is sent. -/
def Proxy.turn (p : Proxy) (endpoint : UInt8) : ℕ :=
  if p.inPending = endpoint then 0 else p.inEpFifo.idxOf endpoint + 1

/-- How many steps the firmware has left with the packet under way, which fits its bank, and
with its acknowledgement. -/
def InputPhase.left (input : InputBuffer) : InputPhase → ℕ
  | .idle => if input.endpoint ≠ 0 then maxPayloadSizeEp + 7 else 0
  | .writing _ length _ bank => length - bank.length + 6
  | .cleared => 5
  | .acking => 4
  | .ackLength => 2
  | .inTask _ _ _ | .waiting _ _ _ | .failed _ => 0

/-- How many steps are left until the packet under way has been acknowledged by the firmware. -/
def InPath.hold (s : InPath) : ℕ :=
  if s.proxy.serial.line = [] then s.phase.left s.fw.input else maxPayloadSizeEp + 8

/-- And until the proxy has read the acknowledgement. -/
def InPath.way (s : InPath) : ℕ :=
  s.hold + s.toProxy.length + if s.session.receiver.read.count = 0 then 1 else 0

theorem InPath.hold_of_nil {s : InPath} (h : s.proxy.serial.line = []) :
    s.hold = s.phase.left s.fw.input :=
  if_pos h

theorem InPath.hold_congr {s t : InPath} (hline : t.proxy.serial.line = s.proxy.serial.line)
    (hinput : t.fw.input = s.fw.input) (hphase : t.phase = s.phase) : t.hold = s.hold := by
  rw [InPath.hold, InPath.hold, hline, hinput, hphase]

/-- The steps that the packets of one endpoint take at most. -/
def stepsPerPacket : ℕ := maxPayloadSizeEp + 9

def InPath.Waits (s : InPath) (q : UInt8 × UInt8) : Prop :=
  (s.writtenAt q.2).length < (s.completedAt q.1).length

instance InPath.decidableWaits (s : InPath) (q : UInt8 × UInt8) : Decidable (s.Waits q) :=
  inferInstanceAs (Decidable (_ < _))

def InPath.Moves (s : InPath) : InEvent → Prop
  | .complete _ _ => False
  | .interrupt => True
  | .mainLoop inReady => s.phase ≠ .idle ∨ s.fw.input.endpoint ≠ 0 ∧ inReady = true
  | .read n => 0 < n ∨ s.session.receiver.read.count = 0

/-- The steps that are taken before the packet `n` of an endpoint has been written. -/
def InPath.Advances (q : UInt8 × UInt8) (n : ℕ) (s : InPath) (e : InEvent) : Prop :=
  (s.writtenAt q.2).length ≤ n ∧ s.Moves e

instance InPath.decidableMoves (s : InPath) (e : InEvent) : Decidable (s.Moves e) :=
  match e with
  | .complete _ _ => isFalse id
  | .interrupt => isTrue trivial
  | .mainLoop _ => inferInstanceAs (Decidable (_ ∨ _))
  | .read _ => inferInstanceAs (Decidable (_ ∨ _))

instance InPath.decidableAdvances (q : UInt8 × UInt8) (n : ℕ) (s : InPath) (e : InEvent) :
    Decidable (InPath.Advances q n s e) :=
  inferInstanceAs (Decidable (_ ∧ _))

theorem InputBuffer.Holds.length_le {i : InputBuffer} {endpoint : UInt8} {payload : List UInt8}
    (h : i.Holds endpoint payload) : payload.length ≤ maxPayloadSizeEp := by
  have hlen := congrArg List.length h.input
  rw [List.length_take, Vector.length_toList, List.length_cons] at hlen
  omega

section Turn

variable {size : UInt8 → ℕ} {l : List (UInt8 × UInt8)} {s t : InPath} {q : UInt8 × UInt8}

/-- Where the packet of an endpoint that waits is. -/
theorem InPath.Inv.waits_cases (h : s.Inv size l) (hq : q ∈ l) (hwaits : s.Waits q) :
    s.proxy.inPending ≠ 0 ∧ q.1 ∉ s.proxy.polled ∧
      (s.proxy.inPending = q.1 ∨ s.proxy.inPending ≠ q.1 ∧ q.1 ∈ s.proxy.inEpFifo) := by
  have hpolled : q.1 ∉ s.proxy.polled := by
    intro hmem
    rw [InPath.Waits, h.polled q hq hmem] at hwaits
    exact absurd hwaits (Nat.lt_irrefl _)
  by_cases hpending : s.proxy.inPending = q.1
  · rw [hpending]
    exact ⟨h.credit.tables.original_ne_zero hq, hpolled, Or.inl rfl⟩
  · have hfifo : q.1 ∈ s.proxy.inEpFifo := by
      have hone := h.credit.once q hq
      rw [if_neg hpending, List.count_eq_zero_of_not_mem hpolled] at hone
      exact List.count_pos_iff.1 (by omega)
    refine ⟨fun hzero => ?_, hpolled, Or.inr ⟨hpending, hfifo⟩⟩
    rw [h.credit.idle hzero] at hfifo
    exact absurd hfifo List.not_mem_nil

/-- A packet that waits has its place in the queue, or it is the one under way. -/
theorem InPath.Inv.turn_le (h : s.Inv size l) (hq : q ∈ l) (hwaits : s.Waits q) :
    s.proxy.turn q.1 ≤ s.proxy.inEpFifo.length := by
  rw [Proxy.turn]
  rcases (h.waits_cases hq hwaits).2.2 with hpending | ⟨hpending, hfifo⟩
  · rw [if_pos hpending]
    exact Nat.zero_le _
  · rw [if_neg hpending]
    exact List.idxOf_lt_length_of_mem hfifo

theorem InPath.Inv.turn_complete (h : s.Inv size l) (hq : q ∈ l) (hwaits : s.Waits q) {i : ℕ}
    {payload : List UInt8} (ht : s.next size (.complete i payload) = some t) :
    t.proxy.turn q.1 = s.proxy.turn q.1 ∧ t.way = s.way ∧
      ∃ r ∈ l, r.1 ∈ s.proxy.polled ∧ t.proxy.turn r.1 = s.proxy.inEpFifo.length + 1 ∧
        t.completed = s.completed ++ [(r.1, payload)] ∧ t.written = s.written := by
  obtain ⟨hpending, _, hplace⟩ := h.waits_cases hq hwaits
  obtain ⟨r, hr, transfer, htransfer, hendpoint, hlen, p, hp, rfl⟩ := h.complete_cases ht
  obtain ⟨packets, _, _, heq⟩ := usbCallback_completed h.credit htransfer hr hendpoint hlen
  have hpolled : r.1 ∈ s.proxy.polled :=
    hendpoint ▸ List.mem_map_of_mem (List.mem_of_getElem? htransfer)
  obtain ⟨hfifo, hrpending, _⟩ := h.credit.length_fifo.2.2 r hr hpolled
  have hresult := Option.some.inj (hp.symm.trans heq)
  rw [if_neg hpending] at hresult
  subst hresult
  have hturn : ∀ x : UInt8, Proxy.turn (Proxy.removeTransfer
      { s.proxy with inPackets := packets, inEpFifo := s.proxy.inEpFifo ++ [r.1] } i) x =
        if s.proxy.inPending = x then 0 else (s.proxy.inEpFifo ++ [r.1]).idxOf x + 1 :=
    fun _ => rfl
  refine ⟨?_, rfl, r, hr, hpolled, ?_, rfl, rfl⟩
  · refine (hturn q.1).trans ?_
    rw [Proxy.turn]
    rcases hplace with hsame | ⟨hother, hmem⟩
    · rw [if_pos hsame, if_pos hsame]
    · rw [if_neg hother, if_neg hother, List.idxOf_append_of_mem hmem]
  · refine (hturn r.1).trans ?_
    rw [if_neg hrpending, List.idxOf_append_of_notMem hfifo, List.idxOf_cons_self]

theorem InPath.Inv.turn_acked (h : s.Inv size l) {r : UInt8 × UInt8} (hr : r ∈ l)
    (hrpending : s.proxy.inPending = r.1) (hpending : s.proxy.inPending ≠ q.1)
    (hfifo : q.1 ∈ s.proxy.inEpFifo) :
    (ackIn s.proxy).1.turn q.1 + 1 = s.proxy.turn q.1 := by
  obtain ⟨transfer, _, _, hcases⟩ := ackIn_eq h.credit hr hrpending h.holdsPacket
  rcases hcases with ⟨hnil, _⟩ | ⟨x, _, rest, payload, hlen, hcons, _, hack⟩
  · rw [hnil] at hfifo
    exact absurd hfifo List.not_mem_nil
  · rw [hack, Proxy.turn, Proxy.turn, if_neg hpending, hcons]
    dsimp only
    by_cases hfirst : x.1 = q.1
    · rw [if_pos hfirst, hfirst, List.idxOf_cons_self]
    · rw [if_neg hfirst, List.idxOf_cons_ne _ hfirst]

/-- A read leaves the packets where they are, or it brings them forward by one. -/
theorem InPath.Inv.turn_read (h : s.Inv size l) (hq : q ∈ l) (hwaits : s.Waits q) {n : ℕ}
    (ht : s.next size (.read n) = some t) :
    (t.proxy = s.proxy ∧ t.way ≤ s.way ∧ (s.Moves (.read n) → t.way < s.way) ∨
      t.proxy.turn q.1 + 1 = s.proxy.turn q.1 ∧ t.way < stepsPerPacket ∧
        ∃ r ∈ l, s.proxy.inPending = r.1 ∧ ¬ s.Waits r ∧ t.proxy = (ackIn s.proxy).1) ∧
      t.completed = s.completed ∧ t.written = s.written := by
  have hreads := h.read_cases ht
  obtain ⟨hcan, hread⟩ := Option.ite_none_left_eq_some.1 ht
  obtain ⟨session, hrecv, rfl⟩ := Option.map_eq_some_iff.1 hread
  have hcount := Session.count_recv (fun _ => rfl) h.waiting hrecv
  rcases hreads with ⟨_, _, hproxy, _, _, _, _⟩ |
    ⟨r, hr, hrpending, _, hinput, hidle, hghost, _, hback, hproxy, _, _, _, _⟩
  · refine ⟨Or.inl ⟨hproxy, ?_⟩, rfl, rfl⟩
    have hhold : InPath.hold { s with session := session, toProxy := s.toProxy.drop n } = s.hold :=
      InPath.hold_congr (congrArg (fun p : Proxy => p.serial.line) hproxy) rfl rfl
    simp only [InPath.way, hhold, List.length_drop, if_neg hcount]
    refine ⟨by omega, fun hmoves => ?_⟩
    rcases hmoves with hn | hzero
    · omega
    · rw [if_pos hzero]
      omega
  · refine ⟨Or.inr ?_, rfl, rfl⟩
    have hdone : ¬ s.Waits r := by
      rw [InPath.Waits, hghost]
      exact Nat.lt_irrefl _
    obtain ⟨_, _, hplace⟩ := h.waits_cases hq hwaits
    have hother : s.proxy.inPending ≠ q.1 := by
      intro hsame
      rw [h.credit.tables.eq_of_original hr hq (hrpending.symm.trans hsame)] at hdone
      exact hdone hwaits
    have hfifo := (hplace.resolve_left hother).2
    refine ⟨?_, ?_, r, hr, hrpending, hdone, hproxy⟩
    · rw [hproxy]
      exact h.turn_acked hr hrpending hother hfifo
    · have hnone : s.toProxy.drop n = [] := (List.append_eq_nil_iff.1 hback).2
      simp only [InPath.way, InPath.hold, hnone, if_neg hcount, hidle, InputPhase.left, hinput,
        stepsPerPacket]
      split
      · simp
      · simp

theorem InPath.Inv.way_interrupt (h : s.Inv size l) (ht : s.next size .interrupt = some t) :
    t.proxy.turn q.1 = s.proxy.turn q.1 ∧ t.way < s.way ∧ t.completed = s.completed ∧
      t.written = s.written := by
  have hline : s.proxy.serial.line ≠ [] := by
    intro hnil
    obtain ⟨_, hreceive, _⟩ := Option.map_eq_some_iff.1 ht
    rw [hnil] at hreceive
    exact absurd hreceive (by simp [receive])
  obtain ⟨_, _, _, _, _, hphase, _, _, _, _, rfl⟩ := h.interrupt_cases ht
  refine ⟨rfl, ?_, rfl, rfl⟩
  rw [InPath.way, InPath.way, InPath.hold_of_nil rfl, InPath.hold, if_neg hline]
  simp only [hphase, InPath.setProxy, InputPhase.left]
  split <;> omega

theorem InPath.way_sendNextInput (hline : s.proxy.serial.line = []) {inReady : Bool}
    {step : InputStep} (hstep : sendNextInput size s.fw inReady s.phase = step)
    (ht : s.next size (.mainLoop inReady) = some t) :
    t.way + s.phase.left s.fw.input = s.way + step.phase.left step.fw.input + step.sent.length := by
  have hsession : t.session = s.session := by rw [← Option.some.inj ht]
  have hphase : t.phase = step.phase := by rw [← Option.some.inj ht, hstep]
  have hfw : t.fw = step.fw := by rw [← Option.some.inj ht, hstep]
  have htoProxy : t.toProxy = s.toProxy ++ step.sent := by rw [← Option.some.inj ht, hstep]
  have hline' : t.proxy.serial.line = [] := by rw [InPath.proxy, hsession, ← hline, InPath.proxy]
  rw [InPath.way, InPath.way, InPath.hold_of_nil hline, InPath.hold_of_nil hline', hsession, hphase,
    hfw, htoProxy, List.length_append]
  omega

theorem InPath.Stage.way_mainLoop {endpoint : UInt8} {payload : List UInt8} {written : Bool}
    (h : s.Stage endpoint payload written) (hne : endpoint ≠ 0)
    (hfits : payload.length ≤ size endpoint) {inReady : Bool}
    (ht : s.next size (.mainLoop inReady) = some t) :
    t.way ≤ s.way ∧ (s.Moves (.mainLoop inReady) → t.way < s.way) := by
  have hsame : sendNextInput size s.fw inReady s.phase = ⟨s.fw, s.phase, none, []⟩ → t = s := by
    intro hstep
    rw [← Option.some.inj ht, hstep]
    simp
  cases h with
  | onLine hlen line input phase back =>
      rw [hsame (by rw [phase, sendNextInput_empty input])]
      simp [InPath.Moves, phase, input]
  | held line holds phase back =>
      have hlen := holds.length_le
      cases inReady with
      | false =>
          rw [hsame (by rw [phase, sendNextInput_busy])]
          simp [InPath.Moves, phase]
      | true =>
          have hway := InPath.way_sendNextInput line
            (by rw [phase, sendNextInput_ready holds hne]) ht
          simp only [phase, InputPhase.left, holds.endpoint_eq, if_pos hne, List.length_nil] at hway
          omega
  | writing line holds n hn phase back =>
      by_cases hlt : n < payload.length
      · have hway := InPath.way_sendNextInput line
          (by rw [phase, sendNextInput_writing holds hfits hlt]) ht
        simp only [phase, InputPhase.left, List.length_take, List.length_nil] at hway
        omega
      · have hfull : payload.take n = payload := List.take_of_length_le (Nat.not_lt.1 hlt)
        rw [hfull] at phase
        have hway := InPath.way_sendNextInput line (by rw [phase, sendNextInput_written]) ht
        simp only [phase, InputPhase.left, List.length_nil] at hway
        omega
  | cleared line phase back =>
      have hway := InPath.way_sendNextInput line (by rw [phase, sendNextInput]) ht
      simp only [phase, InputPhase.left, List.length_nil] at hway
      omega
  | acking line input phase back =>
      have hway := InPath.way_sendNextInput line (by rw [phase, sendNextInput]) ht
      simp only [phase, InputPhase.left, List.length_singleton] at hway
      omega
  | ackLength line input phase back =>
      have hway := InPath.way_sendNextInput line (by rw [phase, sendNextInput]) ht
      simp only [phase, InputPhase.left, List.length_singleton, input, ne_eq, not_true_eq_false,
        if_false] at hway
      omega
  | acked line input phase back =>
      rw [hsame (by rw [phase, sendNextInput_empty input])]
      simp [InPath.Moves, phase, input]

/-- What a step of `SendNextInput` writes, and how far it brings the packet under way. -/
theorem InPath.Inv.mainLoop_cases (h : s.Inv size l) {inReady : Bool}
    (ht : s.next size (.mainLoop inReady) = some t) :
    t.proxy = s.proxy ∧ t.completed = s.completed ∧ t.way ≤ s.way ∧
      (s.Moves (.mainLoop inReady) → t.way < s.way) ∧
      (t.written = s.written ∨ ∃ r ∈ l, ∃ payload, s.proxy.inPending = r.1 ∧
        s.completedAt r.1 = s.writtenAt r.2 ++ [payload] ∧
          t.written = s.written ++ [(r.2, payload)]) := by
  have hproxy : t.proxy = s.proxy := by rw [← Option.some.inj ht, InPath.proxy, InPath.proxy]
  have hcompleted : t.completed = s.completed := by rw [← Option.some.inj ht]
  refine ⟨hproxy, hcompleted, ?_⟩
  by_cases hpending : s.proxy.inPending = 0
  · obtain ⟨_, hinput, hphase, _⟩ := h.idle hpending
    have hsame : t = s := by
      rw [← Option.some.inj ht, hphase, sendNextInput_empty hinput, ← hphase]
      simp
    rw [hsame]
    simp [InPath.Moves, hphase, hinput]
  · obtain ⟨r, hr, hrpending⟩ := h.credit.pending hpending
    obtain ⟨payload, written, hfits, hstage, hghost⟩ := h.pending r hr hrpending
    have hne := h.credit.tables.target_ne_zero hr
    obtain ⟨hle, hlt⟩ := hstage.way_mainLoop hne hfits ht
    refine ⟨hle, hlt, ?_⟩
    rcases hstage.mainLoop hne hfits inReady ht with ⟨_, hw⟩ | ⟨rfl, _, hw⟩
    · exact Or.inl hw
    · exact Or.inr ⟨r, hr, payload, hrpending, hghost, hw⟩

/-- A step brings a packet that waits nearer to its turn, or it leaves it where it is and
brings the packet under way on if it moves. -/
theorem InPath.Inv.turn_next (h : s.Inv size l) (hq : q ∈ l) (hwaits : s.Waits q) {e : InEvent}
    (ht : s.next size e = some t) :
    t.proxy.turn q.1 = s.proxy.turn q.1 ∧ t.way ≤ s.way ∧ (s.Moves e → t.way < s.way) ∨
      t.proxy.turn q.1 + 1 = s.proxy.turn q.1 ∧ t.way < stepsPerPacket := by
  cases e with
  | complete i payload =>
      obtain ⟨hturn, hway, _⟩ := h.turn_complete hq hwaits ht
      exact Or.inl ⟨hturn, hway.le, False.elim⟩
  | interrupt =>
      obtain ⟨hturn, hway, _⟩ := h.way_interrupt (q := q) ht
      exact Or.inl ⟨hturn, hway.le, fun _ => hway⟩
  | mainLoop inReady =>
      obtain ⟨hproxy, _, hle, hlt, _⟩ := h.mainLoop_cases ht
      exact Or.inl ⟨by rw [hproxy], hle, hlt⟩
  | read n =>
      rcases (h.turn_read hq hwaits ht).1 with ⟨hproxy, hle, hlt⟩ | ⟨hturn, hway, _⟩
      · exact Or.inl ⟨by rw [hproxy], hle, hlt⟩
      · exact Or.inr ⟨hturn, hway⟩

theorem InPath.isPrefix_next {e : InEvent} (ht : s.next size e = some t) :
    s.completed <+: t.completed ∧ s.written <+: t.written := by
  cases e with
  | complete i payload =>
      obtain ⟨_, hcall⟩ := Option.ite_none_right_eq_some.1 ht
      obtain ⟨transfer, _, hcall⟩ := Option.bind_eq_some_iff.1 hcall
      obtain ⟨p, _, rfl⟩ := Option.map_eq_some_iff.1 hcall
      exact ⟨List.prefix_append _ _, List.prefix_rfl⟩
  | interrupt =>
      obtain ⟨_, _, rfl⟩ := Option.map_eq_some_iff.1 ht
      exact ⟨List.prefix_rfl, List.prefix_rfl⟩
  | mainLoop inReady =>
      obtain rfl := Option.some.inj ht
      exact ⟨List.prefix_rfl, List.prefix_append _ _⟩
  | read n =>
      obtain ⟨_, hread⟩ := Option.ite_none_left_eq_some.1 ht
      obtain ⟨_, _, rfl⟩ := Option.map_eq_some_iff.1 hread
      exact ⟨List.prefix_rfl, List.prefix_rfl⟩

theorem InPath.Inv.way_le (h : s.Inv size l) : s.way ≤ stepsPerPacket := by
  have hback : s.back.length = s.session.receiver.stored.length + s.toProxy.length :=
    List.length_append
  have hfirst : (if s.session.receiver.read.count = 0 then 1 else 0) ≤ 1 := by split <;> omega
  rw [InPath.way]
  by_cases hpending : s.proxy.inPending = 0
  · obtain ⟨hline, hinput, hphase, hnil⟩ := h.idle hpending
    rw [hnil, List.length_nil] at hback
    rw [InPath.hold_of_nil hline, hphase, InputPhase.left, if_neg (not_not.2 hinput),
      stepsPerPacket]
    omega
  · obtain ⟨r, hr, hrpending⟩ := h.credit.pending hpending
    obtain ⟨payload, written, _, hstage, _⟩ := h.pending r hr hrpending
    rw [stepsPerPacket]
    cases hstage with
    | onLine hlen line input phase back =>
        rw [back, List.length_nil] at hback
        rw [InPath.hold]
        split
        · rw [phase, InputPhase.left, if_neg (not_not.2 input)]
          omega
        · omega
    | held line holds phase back =>
        rw [back, List.length_nil] at hback
        rw [InPath.hold_of_nil line, phase, InputPhase.left]
        split <;> omega
    | writing line holds n hn phase back =>
        have hlen := holds.length_le
        rw [back, List.length_nil] at hback
        rw [InPath.hold_of_nil line, phase, InputPhase.left]
        omega
    | cleared line phase back =>
        rw [back, List.length_nil] at hback
        rw [InPath.hold_of_nil line, phase, InputPhase.left]
        omega
    | acking line input phase back =>
        rw [back, List.length_nil] at hback
        rw [InPath.hold_of_nil line, phase, InputPhase.left]
        omega
    | ackLength line input phase back =>
        rw [back, List.length_singleton] at hback
        rw [InPath.hold_of_nil line, phase, InputPhase.left]
        omega
    | acked line input phase back =>
        have htwo : s.back.length = 2 := by
          rw [back]
          rfl
        rw [InPath.hold_of_nil line, phase, InputPhase.left, if_neg (not_not.2 input)]
        omega

/-- As long as a packet is under way, a step can bring it on. -/
theorem InPath.Inv.moves (h : s.Inv size l) (hpending : s.proxy.inPending ≠ 0) :
    ∃ e t, s.Moves e ∧ s.next size e = some t := by
  obtain ⟨r, hr, hrpending⟩ := h.credit.pending hpending
  obtain ⟨payload, written, _, hstage, _⟩ := h.pending r hr hrpending
  have hloop : ∀ inReady, s.Moves (.mainLoop inReady) → ∃ e t, s.Moves e ∧ s.next size e = some t :=
    fun inReady hmoves => ⟨.mainLoop inReady, _, hmoves, rfl⟩
  cases hstage with
  | onLine hlen line input phase back =>
      have htaken := receive_encode (f := inFrame r.2 payload hlen) (t := .eTypeIn) h.halted rfl
        (Or.inr rfl) []
      rw [List.append_nil, ← line] at htaken
      exact ⟨.interrupt, _, trivial, by rw [InPath.next, htaken]; rfl⟩
  | held line holds phase back =>
      have hne := h.credit.tables.target_ne_zero hr
      exact hloop true (Or.inr ⟨holds.endpoint_eq.symm ▸ hne, rfl⟩)
  | writing line holds n hn phase back => exact hloop false (Or.inl (by simp [phase]))
  | cleared line phase back => exact hloop false (Or.inl (by simp [phase]))
  | acking line input phase back => exact hloop false (Or.inl (by simp [phase]))
  | ackLength line input phase back => exact hloop false (Or.inl (by simp [phase]))
  | acked line input phase back =>
      have hread : ∀ n, n ≤ s.toProxy.length → n ≤ s.session.receiver.read.count →
          ∃ t, s.next size (.read n) = some t := by
        intro n hn hcount
        obtain ⟨session, hsession⟩ : ∃ session, s.session.recv (fun _ => true) processPacket
            (s.toProxy.take n) = some session :=
          Session.exists_recv ((List.length_take_le n _).trans hcount)
        exact ⟨_, by rw [InPath.next, if_neg (not_lt.2 hn), hsession]; rfl⟩
      by_cases hzero : s.session.receiver.read.count = 0
      · -- the first read
        obtain ⟨t, ht⟩ := hread 0 (Nat.zero_le _) (Nat.zero_le _)
        exact ⟨.read 0, t, Or.inr hzero, ht⟩
      · have hmore : s.toProxy ≠ [] := by
          intro hnil
          rw [InPath.back, hnil, List.append_nil] at back
          exact h.waiting.stored_ne ⟨PacketType.eTypeIn.toByte, [], by simp⟩ [] back
        have hpos := List.length_pos_iff.2 hmore
        obtain ⟨t, ht⟩ := hread 1 (by omega) (by omega)
        exact ⟨.read 1, t, Or.inl Nat.one_pos, ht⟩

end Turn

def InPath.left (q : UInt8 × UInt8) (n : ℕ) (s : InPath) : ℕ :=
  if n < (s.writtenAt q.2).length then 0 else s.proxy.turn q.1 * stepsPerPacket + s.way

structure InPath.Polled (size : UInt8 → ℕ) (l : List (UInt8 × UInt8)) (q : UInt8 × UInt8)
    (n : ℕ) (s : InPath) : Prop where
  inv : s.Inv size l
  polled : n < (s.completedAt q.1).length

/-- How often another endpoint is served, with the packet of it that is served next if that
is in front. -/
def InPath.served (q r : UInt8 × UInt8) (s : InPath) : ℕ :=
  (s.writtenAt r.2).length +
    if s.Waits r ∧ s.proxy.turn r.1 < s.proxy.turn q.1 then 1 else 0

section Polled

variable {size : UInt8 → ℕ} {l : List (UInt8 × UInt8)} {s t : InPath} {q r : UInt8 × UInt8} {n : ℕ}

theorem InPath.Polled.next (h : s.Polled size l q n) {e : InEvent} (hbank : s.FitsBank size e)
    (ht : s.next size e = some t) : t.Polled size l q n where
  inv := h.inv.next hbank ht
  polled := h.polled.trans_le (payloadsOf_isPrefix q.1 (InPath.isPrefix_next ht).1).length_le

theorem InPath.Polled.waits (h : s.Polled size l q n) (hnot : (s.writtenAt q.2).length ≤ n) :
    s.Waits q :=
  hnot.trans_lt h.polled

theorem InPath.Polled.left_next (h : s.Polled size l q n) (hq : q ∈ l) {e : InEvent}
    (ht : s.next size e = some t) :
    t.left q n ≤ s.left q n ∧ (InPath.Advances q n s e → t.left q n < s.left q n) := by
  have hmono : (s.writtenAt q.2).length ≤ (t.writtenAt q.2).length :=
    (payloadsOf_isPrefix q.2 (InPath.isPrefix_next ht).2).length_le
  by_cases hwritten : n < (s.writtenAt q.2).length
  · rw [InPath.left, if_pos (hwritten.trans_le hmono)]
    exact ⟨Nat.zero_le _, fun hadvances => absurd hwritten (not_lt.2 hadvances.1)⟩
  · have hnot := not_lt.1 hwritten
    have hbound : t.left q n ≤ t.proxy.turn q.1 * stepsPerPacket + t.way := by
      rw [InPath.left]
      split
      · exact Nat.zero_le _
      · exact Nat.le_refl _
    rw [InPath.left.eq_1 q n s, if_neg hwritten]
    rcases h.inv.turn_next hq (h.waits hnot) ht with ⟨hturn, hle, hlt⟩ | ⟨hturn, hway⟩
    · rw [hturn] at hbound
      refine ⟨by omega, fun hadvances => ?_⟩
      have hless := hlt hadvances.2
      omega
    · rw [← hturn, Nat.succ_mul]
      omega

theorem InPath.measures (hq : q ∈ l) :
    Measures (guarded (InPath.next size) (InPath.FitsBank size)) (InPath.Advances q n)
      (InPath.Polled size l q n) (InPath.left q n) where
  keeps := by
    intro s e t h ht
    obtain ⟨hbank, hnext⟩ := guarded_eq_some.1 ht
    exact h.next hbank hnext
  le := fun _ _ _ h ht => (h.left_next hq (guarded_eq_some.1 ht).2).1
  lt := fun _ _ _ h ht hadvances => (h.left_next hq (guarded_eq_some.1 ht).2).2 hadvances

theorem InPath.Polled.left_le (h : s.Polled size l q n) (hq : q ∈ l) :
    s.left q n ≤ stepsPerPacket * (s.proxy.inEpFifo.length + 1) := by
  rw [InPath.left]
  split
  · exact Nat.zero_le _
  · next hwritten =>
      have hturn := h.inv.turn_le hq (h.waits (not_lt.1 hwritten))
      calc s.proxy.turn q.1 * stepsPerPacket + s.way
          ≤ s.proxy.inEpFifo.length * stepsPerPacket + stepsPerPacket :=
            Nat.add_le_add (Nat.mul_le_mul_right _ hturn) h.inv.way_le
        _ = stepsPerPacket * (s.proxy.inEpFifo.length + 1) := by
            rw [← Nat.succ_mul, Nat.mul_comm]

theorem InPath.served_le (hwritten : t.written = s.written)
    (hahead : t.Waits r → t.proxy.turn r.1 < t.proxy.turn q.1 →
      s.Waits r ∧ s.proxy.turn r.1 < s.proxy.turn q.1) :
    t.served q r ≤ s.served q r := by
  rw [InPath.served, InPath.served, InPath.writtenAt, InPath.writtenAt, hwritten]
  refine Nat.add_le_add_left ?_ _
  by_cases hcase : t.Waits r ∧ t.proxy.turn r.1 < t.proxy.turn q.1
  · rw [if_pos hcase, if_pos (hahead hcase.1 hcase.2)]
  · rw [if_neg hcase]
    exact Nat.zero_le _

/-- While a packet of `q` waits, no other endpoint is served but for a packet in front. -/
theorem InPath.Inv.served_next (h : s.Inv size l) (hq : q ∈ l) (hr : r ∈ l) (hne : r ≠ q)
    (hwaits : s.Waits q) {e : InEvent} (ht : s.next size e = some t) :
    t.served q r ≤ s.served q r := by
  have hsame : t.completed = s.completed → t.written = s.written → (t.Waits r ↔ s.Waits r) := by
    intro hcompleted hwritten
    rw [InPath.Waits, InPath.Waits, InPath.writtenAt, InPath.writtenAt, InPath.completedAt,
      InPath.completedAt, hcompleted, hwritten]
  cases e with
  | complete i payload =>
      obtain ⟨hturn, _, x, hx, hpolled, hxturn, hcompleted, hwritten⟩ :=
        h.turn_complete hq hwaits ht
      refine InPath.served_le hwritten fun hrwaits hahead => ?_
      have hrx : r ≠ x := by
        rintro rfl
        rw [hxturn, hturn] at hahead
        have hle := h.turn_le hq hwaits
        omega
      have hrwaits' : s.Waits r := by
        rwa [InPath.Waits, InPath.writtenAt, InPath.completedAt, hcompleted, hwritten,
          payloadsOf_concat_of_ne fun heq =>
            hrx (h.credit.tables.eq_of_original hr hx heq.symm)] at hrwaits
      obtain ⟨hrturn, _⟩ := h.turn_complete hr hrwaits' ht
      exact ⟨hrwaits', by rwa [hrturn, hturn] at hahead⟩
  | interrupt =>
      obtain ⟨hturn, _, hcompleted, hwritten⟩ := h.way_interrupt (q := q) ht
      obtain ⟨hrturn, _⟩ := h.way_interrupt (q := r) ht
      refine InPath.served_le hwritten fun hrwaits hahead => ?_
      exact ⟨(hsame hcompleted hwritten).1 hrwaits, by rwa [hrturn, hturn] at hahead⟩
  | mainLoop inReady =>
      obtain ⟨hproxy, hcompleted, _, _, hcases⟩ := h.mainLoop_cases ht
      rcases hcases with hwritten | ⟨x, hx, payload, hxpending, hghost, hwritten⟩
      · refine InPath.served_le hwritten fun hrwaits hahead => ?_
        exact ⟨(hsame hcompleted hwritten).1 hrwaits, by rwa [hproxy] at hahead⟩
      · have hcompletedAt : t.completedAt r.1 = s.completedAt r.1 := by
          rw [InPath.completedAt, hcompleted, InPath.completedAt]
        by_cases hrx : r = x
        · -- the packet under way was the one in front
          subst hrx
          have hwrittenAt : t.writtenAt r.2 = s.writtenAt r.2 ++ [payload] := by
            rw [InPath.writtenAt, hwritten, payloadsOf_concat_self, InPath.writtenAt]
          have hdone : ¬ t.Waits r := by
            rw [InPath.Waits, hwrittenAt, hcompletedAt, hghost]
            exact Nat.lt_irrefl _
          have hahead : s.Waits r ∧ s.proxy.turn r.1 < s.proxy.turn q.1 := by
            have hother : s.proxy.inPending ≠ q.1 := fun heq =>
              hne (h.credit.tables.eq_of_original hr hq (hxpending.symm.trans heq))
            constructor
            · rw [InPath.Waits, hghost, List.length_append]
              exact Nat.lt_succ_self _
            · rw [Proxy.turn, Proxy.turn, if_pos hxpending, if_neg hother]
              exact Nat.succ_pos _
          rw [InPath.served, InPath.served, if_neg fun hcase => hdone hcase.1, if_pos hahead,
            hwrittenAt, List.length_append]
          exact Nat.le_refl _
        · have hwrittenAt : t.writtenAt r.2 = s.writtenAt r.2 := by
            rw [InPath.writtenAt, hwritten, payloadsOf_concat_of_ne fun heq =>
              hrx (h.credit.tables.eq_of_target hr hx heq.symm), InPath.writtenAt]
          have hiff : t.Waits r ↔ s.Waits r := by
            rw [InPath.Waits, InPath.Waits, hwrittenAt, hcompletedAt]
          simp only [InPath.served, hwrittenAt, hproxy, hiff, le_refl]
  | read n =>
      obtain ⟨hcases, hcompleted, hwritten⟩ := h.turn_read hq hwaits ht
      refine InPath.served_le hwritten fun hrwaits hahead => ?_
      have hrwaits' := (hsame hcompleted hwritten).1 hrwaits
      refine ⟨hrwaits', ?_⟩
      rcases hcases with ⟨hproxy, _⟩ | ⟨hturn, _, x, hx, hxpending, hdone, hproxy⟩
      · rwa [hproxy] at hahead
      · obtain ⟨_, _, hplace⟩ := h.waits_cases hr hrwaits'
        have hother : s.proxy.inPending ≠ r.1 := by
          intro heq
          rw [h.credit.tables.eq_of_original hx hr (hxpending.symm.trans heq)] at hdone
          exact hdone hrwaits'
        have hrturn := h.turn_acked hx hxpending hother (hplace.resolve_left hother).2
        rw [← hproxy] at hrturn
        omega

theorem InPath.Polled.of_exec (h : s.Polled size l q n) {es : List InEvent}
    (hbank : Along (InPath.next size) (InPath.FitsBank size) s es)
    (hrun : exec (InPath.next size) s es = some t) :
    t.Polled size l q n ∧ s.completedAt q.1 <+: t.completedAt q.1 := by
  refine exec_invariant_along
    (I := fun t => t.Polled size l q n ∧ s.completedAt q.1 <+: t.completedAt q.1)
    ?_ ⟨h, List.prefix_rfl⟩ hbank hrun
  rintro t e u ⟨ht, hprefix⟩ hfits hnext
  exact ⟨ht.next hfits hnext,
    hprefix.trans (payloadsOf_isPrefix q.1 (InPath.isPrefix_next hnext).1)⟩

/-- Until the packet has been written, another endpoint is served once at most. -/
theorem InPath.Polled.writtenAt_le (h : s.Polled size l q n) (hq : q ∈ l) (hr : r ∈ l)
    (hne : r ≠ q) {es : List InEvent}
    (hbank : Along (InPath.next size) (InPath.FitsBank size) s es)
    (hrun : exec (InPath.next size) s es = some t) (hnot : (t.writtenAt q.2).length ≤ n) :
    (t.writtenAt r.2).length ≤ (s.writtenAt r.2).length + 1 := by
  have hserved : t.Polled size l q n ∧
      ((t.writtenAt q.2).length ≤ n → t.served q r ≤ s.served q r) := by
    refine exec_invariant_along (I := fun t => t.Polled size l q n ∧
      ((t.writtenAt q.2).length ≤ n → t.served q r ≤ s.served q r)) ?_ ⟨h, fun _ => le_rfl⟩
      hbank hrun
    rintro t e u ⟨ht, hle⟩ hfits hnext
    refine ⟨ht.next hfits hnext, fun hu => ?_⟩
    have hbefore : (t.writtenAt q.2).length ≤ n :=
      (payloadsOf_isPrefix q.2 (InPath.isPrefix_next hnext).2).length_le.trans hu
    exact (ht.inv.served_next hq hr hne (ht.waits hbefore) hnext).trans (hle hbefore)
  have hle := hserved.2 hnot
  rw [InPath.served, InPath.served] at hle
  split at hle <;> split at hle <;> omega

/-- Until the packet has been written, a step can bring it on. -/
theorem InPath.Polled.advances (h : s.Polled size l q n) (hq : q ∈ l)
    (hnot : (s.writtenAt q.2).length ≤ n) :
    ∃ e t, InPath.Advances q n s e ∧ s.next size e = some t := by
  obtain ⟨e, t, hmoves, hnext⟩ := h.inv.moves (h.inv.waits_cases hq (h.waits hnot)).1
  exact ⟨e, t, ⟨hnot, hmoves⟩, hnext⟩

theorem InPath.Advances.fitsBank {e : InEvent} (h : InPath.Advances q n s e) :
    s.FitsBank size e := by
  cases e with
  | complete i payload => exact absurd h.2 id
  | _ => trivial

theorem InPath.Polled.reaches (h : s.Polled size l q n) (hq : q ∈ l) :
    ∃ es t, Along (InPath.next size) (InPath.Advances q n) s es ∧
      exec (InPath.next size) s es = some t ∧ t.Polled size l q n ∧
      s.completedAt q.1 <+: t.completedAt q.1 ∧
      (t.writtenAt q.2)[n]? = (s.completedAt q.1)[n]? := by
  have hmeasures : Measures (guarded (InPath.next size) (InPath.FitsBank size)) _ _ _ :=
    InPath.measures (l := l) (n := n) hq
  obtain ⟨es, t, halong, hrun, ht, _, hwritten⟩ := hmeasures.reaches
    (J := fun _ => True) (G := fun t => n < (t.writtenAt q.2).length)
    (fun t ht _ hnot => by
      obtain ⟨e, u, hadvances, hnext⟩ := ht.advances hq (not_lt.1 hnot)
      exact ⟨e, u, hadvances, guarded_eq_some.2 ⟨hadvances.fitsBank, hnext⟩, trivial⟩)
    h trivial
  obtain ⟨hbank, hrun⟩ := exec_guarded.1 hrun
  have hkept := (h.of_exec hbank hrun).2
  refine ⟨es, t, along_of_guarded hbank halong, hrun, ht, hkept, ?_⟩
  rw [List.getElem?_eq_getElem hwritten, List.getElem?_eq_getElem h.polled,
    (ht.inv.initial hq).getElem hwritten, hkept.getElem h.polled]

end Polled

/-- A packet that a poll has returned is written, in every state of every run of the IN path in
which the polls return no more bytes than the banks have:

* a run has at most `stepsPerPacket` steps that bring the packet on for each packet in the
  queue, and for the one under way, whatever other steps it has between them;
* as long as the packet has not been written, one of these steps can be taken, when the
  controller has a free bank; and none of the other endpoints is served more than once;
* and these steps alone lead from every such state to the one in which it has been written. -/
theorem inPath_progress {size : UInt8 → ℕ} {l : List (UInt8 × UInt8)} {r : Receiver} {p : Proxy}
    {fw : Firmware} (h : InPath.Ready l r p fw) {es : List InEvent} {s : InPath}
    (hbank : Along (InPath.next size) (InPath.FitsBank size) (InPath.start r p fw) es)
    (hrun : exec (InPath.next size) (InPath.start r p fw) es = some s) {q : UInt8 × UInt8}
    (hq : q ∈ l) {n : ℕ} (hpolled : n < (s.completedAt q.1).length) :
    (∀ es' t, Along (InPath.next size) (InPath.FitsBank size) s es' →
      exec (InPath.next size) s es' = some t →
        steps (InPath.next size) (InPath.Advances q n) s es' ≤
          stepsPerPacket * (s.proxy.inEpFifo.length + 1) ∧
        ((t.writtenAt q.2).length ≤ n →
          (∃ e u, InPath.Advances q n t e ∧ t.next size e = some u) ∧
          ∀ r ∈ l, r ≠ q → (t.writtenAt r.2).length ≤ (s.writtenAt r.2).length + 1)) ∧
    ∃ es' t, Along (InPath.next size) (InPath.Advances q n) s es' ∧
      exec (InPath.next size) s es' = some t ∧
      (t.writtenAt q.2)[n]? = (s.completedAt q.1)[n]? := by
  have hs : s.Polled size l q n :=
    ⟨exec_invariant_along (I := InPath.Inv size l) (fun _ _ _ hs hfits hnext => hs.next hfits hnext)
      h.inv_start hbank hrun, hpolled⟩
  constructor
  · intro es' t hbank' hrun'
    refine ⟨?_, fun hnot => ⟨(hs.of_exec hbank' hrun').1.advances hq hnot, ?_⟩⟩
    · have hsteps := (InPath.measures hq).steps_add_le hs (exec_guarded.2 ⟨hbank', hrun'⟩)
      rw [steps_guarded hbank'] at hsteps
      exact (Nat.le_of_add_right_le hsteps).trans (hs.left_le hq)
    · exact fun r hr hne => hs.writtenAt_le hq hr hne hbank' hrun' hnot
  · obtain ⟨es', t, halong, hrun', _, _, hwritten⟩ := hs.reaches hq
    exact ⟨es', t, halong, hrun', hwritten⟩

/-- The packet of one byte that the only endpoint has returned. -/
theorem inPath_progress_one :
    ∃ (s : InPath) (es' : List InEvent) (t : InPath),
      exec (InPath.next (bankSize oneInputProxy.endpoints))
        (InPath.start Receiver.start oneInputProxy Firmware.boot) [.complete 0 [7]] = some s ∧
      exec (InPath.next (bankSize oneInputProxy.endpoints)) s es' = some t ∧
      (t.writtenAt 0x81)[0]? = some [7] := by
  have hrun : ((exec (InPath.next (bankSize oneInputProxy.endpoints))
      (InPath.start Receiver.start oneInputProxy Firmware.boot)
      [.complete 0 [7]]).map InPath.completed) = some [(0x81, [7])] := by
    decide +kernel
  obtain ⟨s, hs, hcompleted⟩ := Option.map_eq_some_iff.1 hrun
  have hat : s.completedAt 0x81 = [[7]] := by
    rw [InPath.completedAt, hcompleted]
    decide
  have hready : InPath.Ready [(0x81, 0x81)] Receiver.start oneInputProxy Firmware.boot :=
    ⟨Receiver.waiting_start, rfl, oneInputProxy_inTables, rfl, rfl, rfl, rfl, rfl, rfl, rfl, rfl,
      by decide +kernel⟩
  have hpolled : 0 < (s.completedAt 0x81).length := by
    rw [hat]
    decide
  obtain ⟨es', t, _, hrun', hwritten⟩ :=
    (inPath_progress hready (by decide +kernel) hs (q := (0x81, 0x81)) (List.mem_singleton.2 rfl)
      hpolled).2
  exact ⟨s, es', t, hs, hrun', by rw [hwritten, hat]; rfl⟩

end SerialUsb
