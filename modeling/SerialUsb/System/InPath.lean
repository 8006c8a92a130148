import SerialUsb.Firmware.EndpointRegisters
import SerialUsb.Firmware.Input
import SerialUsb.Firmware.Upload
import SerialUsb.Proxy.InPackets
import SerialUsb.Transition.Run

/-!
# The way of the IN packets

The proxy after `poll_all_endpoints` and the firmware, joined by the two directions
of the serial line. Polls end with any data in any order, the interrupt takes packets
between any two steps of `SendNextInput`, and the proxy reads the acknowledgements in
any pieces.

At any time at most one packet is between `send_next_in_packet` and its
acknowledgement. `InPath.Stage` lists the places where it can be, and the invariant
says for each endpoint what of its completed packets has been written.
-/

namespace SerialUsb

open Framing Memory Transition

/-- The two parties and the bytes on the way to the proxy, with what the polls have
returned and what was written to the endpoints of the firmware, in order. -/
structure InPath where
  session : Session Proxy
  fw : Firmware
  phase : InputPhase
  toProxy : List UInt8
  completed : List (UInt8 × List UInt8)
  written : List (UInt8 × List UInt8)

def InPath.proxy (s : InPath) : Proxy := s.session.user

def InPath.setProxy (s : InPath) (p : Proxy) : InPath :=
  { s with session := { s.session with user := p } }

def InPath.start (r : Receiver) (p : Proxy) (fw : Firmware) : InPath where
  session := ⟨r, (pollAllEndpoints p).1, []⟩
  fw := fw
  phase := .idle
  toProxy := []
  completed := []
  written := []

inductive InEvent where
  /-- the poll at a position of the table ends with a payload -/
  | complete (i : ℕ) (payload : List UInt8)
  /-- the interrupt takes a packet -/
  | interrupt
  /-- a step of `SendNextInput` -/
  | mainLoop (inReady : Bool)
  /-- a `read` of the adapter returns `n` bytes -/
  | read (n : ℕ)

/-- `size` gives the sizes of the banks of the controller. -/
def InPath.next (size : UInt8 → ℕ) (s : InPath) : InEvent → Option InPath
  | .complete i payload =>
      if payload.length ≤ maxPayloadSizeEp then
        s.proxy.usb.transfers[i]?.bind fun t =>
          (usbCallback s.proxy i (.completed payload)).map fun p =>
            { s.setProxy p with completed := s.completed ++ [(t.endpoint, payload)] }
      else none
  | .interrupt =>
      (receive s.fw s.proxy.serial.line).map fun (fw, sent, rest) =>
        { s.setProxy (s.proxy.setLine rest) with fw := fw, toProxy := s.toProxy ++ sent }
  | .mainLoop inReady =>
      let step := sendNextInput size s.fw inReady s.phase
      some { s with
        fw := step.fw
        phase := step.phase
        toProxy := s.toProxy ++ step.sent
        written := s.written ++ step.released.toList }
  | .read n =>
      if s.toProxy.length < n then none
      else
        (s.session.recv (fun _ => true) processPacket (s.toProxy.take n)).map fun session =>
          { s with session := session, toProxy := s.toProxy.drop n }

/-- A poll ends with no more bytes than the bank of the endpoint has that stands for its own. -/
def InPath.FitsBank (size : UInt8 → ℕ) (s : InPath) : InEvent → Prop
  | .complete i payload => ∀ t, s.proxy.usb.transfers[i]? = some t →
      payload.length ≤ size (s.proxy.usbToSerial.get t.endpoint.toNat)
  | _ => True

instance InPath.decidableFitsBank (size : UInt8 → ℕ) (s : InPath) (e : InEvent) :
    Decidable (s.FitsBank size e) :=
  match e with
  | .complete i payload =>
      match h : s.proxy.usb.transfers[i]? with
      | none => isTrue fun _ ht => absurd (h.symm.trans ht) (by simp)
      | some t =>
          decidable_of_iff
            (payload.length ≤ size (s.proxy.usbToSerial.get t.endpoint.toNat))
            ⟨fun hle _ ht => Option.some.inj (h.symm.trans ht) ▸ hle, fun hall => hall t h⟩
  | .interrupt | .mainLoop _ | .read _ => isTrue trivial

def InPath.completedAt (s : InPath) (endpoint : UInt8) : List (List UInt8) :=
  payloadsOf endpoint s.completed

def InPath.writtenAt (s : InPath) (endpoint : UInt8) : List (List UInt8) :=
  payloadsOf endpoint s.written

def InPath.back (s : InPath) : List UInt8 := s.session.receiver.stored ++ s.toProxy

structure InPath.Quiet (s : InPath) : Prop where
  line : s.proxy.serial.line = []
  input : s.fw.input.endpoint = 0
  phase : s.phase = .idle
  back : s.back = []

/-- Where the packet under way is, and whether it has been written. -/
inductive InPath.Stage (s : InPath) (endpoint : UInt8) (payload : List UInt8) : Bool → Prop
  | onLine (hlen : payload.length ≤ maxPayloadSizeEp)
      (line : s.proxy.serial.line = (inFrame endpoint payload hlen).encode)
      (input : s.fw.input.endpoint = 0) (phase : s.phase = .idle) (back : s.back = []) :
      Stage s endpoint payload false
  | held (line : s.proxy.serial.line = []) (holds : s.fw.input.Holds endpoint payload)
      (phase : s.phase = .idle) (back : s.back = []) : Stage s endpoint payload false
  | writing (line : s.proxy.serial.line = []) (holds : s.fw.input.Holds endpoint payload) (n : ℕ)
      (hn : n ≤ payload.length)
      (phase : s.phase = .writing endpoint payload.length 0 (payload.take n))
      (back : s.back = []) : Stage s endpoint payload false
  | cleared (line : s.proxy.serial.line = []) (phase : s.phase = .cleared)
      (back : s.back = []) : Stage s endpoint payload true
  | acking (line : s.proxy.serial.line = []) (input : s.fw.input.endpoint = 0)
      (phase : s.phase = .acking) (back : s.back = []) : Stage s endpoint payload true
  | ackLength (line : s.proxy.serial.line = []) (input : s.fw.input.endpoint = 0)
      (phase : s.phase = .ackLength) (back : s.back = [PacketType.eTypeIn.toByte]) :
      Stage s endpoint payload true
  | acked (line : s.proxy.serial.line = []) (input : s.fw.input.endpoint = 0)
      (phase : s.phase = .idle) (back : s.back = ack .eTypeIn) : Stage s endpoint payload true

theorem InPath.Stage.congr {s t : InPath} {endpoint : UInt8} {payload : List UInt8}
    {written : Bool} (h : s.Stage endpoint payload written)
    (hline : t.proxy.serial.line = s.proxy.serial.line) (hinput : t.fw.input = s.fw.input)
    (hphase : t.phase = s.phase) (hback : t.back = s.back) :
    t.Stage endpoint payload written := by
  cases h with
  | onLine hlen line input phase back =>
      exact .onLine hlen (hline.trans line) (hinput ▸ input) (hphase.trans phase)
        (hback.trans back)
  | held line holds phase back =>
      exact .held (hline.trans line) (hinput ▸ holds) (hphase.trans phase) (hback.trans back)
  | writing line holds n hn phase back =>
      exact .writing (hline.trans line) (hinput ▸ holds) n hn (hphase.trans phase)
        (hback.trans back)
  | cleared line phase back =>
      exact .cleared (hline.trans line) (hphase.trans phase) (hback.trans back)
  | acking line input phase back =>
      exact .acking (hline.trans line) (hinput ▸ input) (hphase.trans phase) (hback.trans back)
  | ackLength line input phase back =>
      exact .ackLength (hline.trans line) (hinput ▸ input) (hphase.trans phase)
        (hback.trans back)
  | acked line input phase back =>
      exact .acked (hline.trans line) (hinput ▸ input) (hphase.trans phase) (hback.trans back)

/-- The invariant of the IN path: what of the packets of an endpoint has been
written, by the place where the endpoint is. -/
structure InPath.Inv (size : UInt8 → ℕ) (l : List (UInt8 × UInt8)) (s : InPath) : Prop where
  waiting : s.session.receiver.Waiting
  halted : s.fw.halted = false
  credit : s.proxy.Credit l
  polled : ∀ q ∈ l, q.1 ∈ s.proxy.polled → s.completedAt q.1 = s.writtenAt q.2
  queued : ∀ q ∈ l, q.1 ∈ s.proxy.inEpFifo → ∃ payload : List UInt8,
    payload.length ≤ maxPayloadSizeEp ∧ payload.length ≤ size q.2 ∧
      s.proxy.HoldsPacket q payload ∧ s.completedAt q.1 = s.writtenAt q.2 ++ [payload]
  idle : s.proxy.inPending = 0 → s.Quiet
  pending : ∀ q ∈ l, s.proxy.inPending = q.1 → ∃ payload written,
    payload.length ≤ size q.2 ∧ s.Stage q.2 payload written ∧
      s.completedAt q.1 = s.writtenAt q.2 ++ if written = true then [] else [payload]

theorem InPath.Inv.congr {size : UInt8 → ℕ} {l : List (UInt8 × UInt8)} {s t : InPath}
    (h : s.Inv size l) (hwaiting : t.session.receiver.Waiting) (hproxy : t.proxy = s.proxy)
    (hfw : t.fw = s.fw) (hphase : t.phase = s.phase) (hback : t.back = s.back)
    (hcompleted : t.completed = s.completed) (hwritten : t.written = s.written) : t.Inv size l := by
  have hcompletedAt : ∀ o, t.completedAt o = s.completedAt o :=
    fun o => congrArg (payloadsOf o) hcompleted
  have hwrittenAt : ∀ o, t.writtenAt o = s.writtenAt o :=
    fun o => congrArg (payloadsOf o) hwritten
  constructor
  case waiting => exact hwaiting
  case halted => exact hfw ▸ h.halted
  case credit => exact hproxy ▸ h.credit
  case polled =>
    intro q hq hmem
    rw [hproxy] at hmem
    rw [hcompletedAt, hwrittenAt]
    exact h.polled q hq hmem
  case queued =>
    intro q hq hmem
    rw [hproxy] at hmem ⊢
    rw [hcompletedAt, hwrittenAt]
    exact h.queued q hq hmem
  case idle =>
    intro h0
    rw [hproxy] at h0
    have hquiet := h.idle h0
    exact ⟨hproxy ▸ hquiet.line, hfw ▸ hquiet.input, hphase.trans hquiet.phase,
      hback.trans hquiet.back⟩
  case pending =>
    intro q hq heq
    rw [hproxy] at heq
    obtain ⟨payload, written, hfits, hstage, hghost⟩ := h.pending q hq heq
    refine ⟨payload, written, hfits,
      hstage.congr (by rw [hproxy]) (by rw [hfw]) hphase hback, ?_⟩
    rw [hcompletedAt, hwrittenAt]
    exact hghost

theorem InPath.Inv.holdsPacket {size : UInt8 → ℕ} {l : List (UInt8 × UInt8)} {s : InPath}
    (h : s.Inv size l) :
    ∀ q ∈ l, q.1 ∈ s.proxy.inEpFifo → ∃ payload : List UInt8,
      payload.length ≤ maxPayloadSizeEp ∧ s.proxy.HoldsPacket q payload := by
  intro q hq hmem
  obtain ⟨payload, hlen, _, hholds, _⟩ := h.queued q hq hmem
  exact ⟨payload, hlen, hholds⟩

/-- A step of `SendNextInput` moves the packet on, or releases it. -/
theorem InPath.Stage.mainLoop {size : UInt8 → ℕ} {s : InPath} {endpoint : UInt8}
    {payload : List UInt8} {written : Bool} (h : s.Stage endpoint payload written)
    (hne : endpoint ≠ 0) (hfits : payload.length ≤ size endpoint)
    (inReady : Bool) {t : InPath} (ht : s.next size (.mainLoop inReady) = some t) :
    (t.Stage endpoint payload written ∧ t.written = s.written) ∨
      (written = false ∧ t.Stage endpoint payload true ∧
        t.written = s.written ++ [(endpoint, payload)]) := by
  obtain rfl := Option.some.inj ht
  cases h with
  | onLine hlen line input phase back =>
      left
      rw [phase, sendNextInput_empty input]
      exact ⟨.onLine hlen line input rfl (by simpa [InPath.back] using back), List.append_nil _⟩
  | held line holds phase back =>
      left
      cases inReady with
      | false =>
          rw [phase, sendNextInput_busy]
          exact ⟨.held line holds rfl (by simpa [InPath.back] using back), List.append_nil _⟩
      | true =>
          rw [phase, sendNextInput_ready holds hne]
          exact ⟨.writing line holds 0 (Nat.zero_le _) rfl (by simpa [InPath.back] using back),
            List.append_nil _⟩
  | writing line holds n hn phase back =>
      by_cases hlt : n < payload.length
      · left
        rw [phase, sendNextInput_writing holds hfits hlt]
        exact ⟨.writing line holds (n + 1) hlt rfl (by simpa [InPath.back] using back),
          List.append_nil _⟩
      · right
        have hfull : payload.take n = payload := List.take_of_length_le (Nat.not_lt.1 hlt)
        rw [phase, hfull, sendNextInput_written]
        exact ⟨rfl, .cleared line rfl (by simpa [InPath.back] using back), rfl⟩
  | cleared line phase back =>
      left
      rw [phase, sendNextInput]
      exact ⟨.acking line (InputBuffer.endpoint_clear _) rfl (by simpa [InPath.back] using back),
        List.append_nil _⟩
  | acking line input phase back =>
      left
      rw [phase, sendNextInput]
      refine ⟨.ackLength line input rfl ?_, List.append_nil _⟩
      change s.session.receiver.stored ++ (s.toProxy ++ _) = _
      rw [← List.append_assoc]
      exact congrArg (· ++ [PacketType.eTypeIn.toByte]) back
  | ackLength line input phase back =>
      left
      rw [phase, sendNextInput]
      refine ⟨.acked line input rfl ?_, List.append_nil _⟩
      change s.session.receiver.stored ++ (s.toProxy ++ _) = _
      rw [← List.append_assoc]
      exact congrArg (· ++ [0]) back
  | acked line input phase back =>
      left
      rw [phase, sendNextInput_empty input]
      exact ⟨.acked line input rfl (by simpa [InPath.back] using back), List.append_nil _⟩

/-- The bytes on the way to the proxy are a part of an acknowledgement; a whole one
is there only for a packet that has been written. -/
theorem InPath.Inv.back_cases {size : UInt8 → ℕ} {l : List (UInt8 × UInt8)} {s : InPath}
    (h : s.Inv size l) :
    s.back.length < 2 ∨
      s.back = ack .eTypeIn ∧ ∃ q ∈ l, s.proxy.inPending = q.1 ∧ s.proxy.serial.line = [] ∧
        s.fw.input.endpoint = 0 ∧ s.phase = .idle ∧ s.completedAt q.1 = s.writtenAt q.2 := by
  by_cases hpending : s.proxy.inPending = 0
  · left
    rw [(h.idle hpending).back]
    decide
  · obtain ⟨q, hq, heq⟩ := h.credit.pending hpending
    obtain ⟨payload, written, hfits, hstage, hghost⟩ := h.pending q hq heq
    cases hstage with
    | acked line input phase back =>
        right
        rw [if_pos rfl, List.append_nil] at hghost
        exact ⟨back, q, hq, heq, line, input, phase, hghost⟩
    | ackLength line input phase back =>
        left
        rw [back]
        decide
    | onLine _ _ _ _ back => exact Or.inl (by rw [back]; decide)
    | held _ _ _ back => exact Or.inl (by rw [back]; decide)
    | writing _ _ _ _ _ back => exact Or.inl (by rw [back]; decide)
    | cleared _ _ back => exact Or.inl (by rw [back]; decide)
    | acking _ _ _ back => exact Or.inl (by rw [back]; decide)

section Step

variable {size : UInt8 → ℕ} {l : List (UInt8 × UInt8)} {s t : InPath}

theorem InPath.Inv.interrupt_cases (h : s.Inv size l) (ht : s.next size .interrupt = some t) :
    ∃ q ∈ l, ∃ payload, s.proxy.inPending = q.1 ∧ s.fw.input.endpoint = 0 ∧ s.phase = .idle ∧
      s.back = [] ∧ s.completedAt q.1 = s.writtenAt q.2 ++ [payload] ∧
      payload.length ≤ maxPayloadSizeEp ∧ payload.length ≤ size q.2 ∧
      t = { s.setProxy (s.proxy.setLine []) with
        fw := { s.fw with input := s.fw.input.read (q.2 :: payload) } } := by
  obtain ⟨⟨fw, sent, rest⟩, hreceive, rfl⟩ := Option.map_eq_some_iff.1 ht
  have hline : s.proxy.serial.line ≠ [] := by
    intro hnil
    rw [hnil] at hreceive
    exact absurd hreceive (by simp [receive])
  have hpending : s.proxy.inPending ≠ 0 := fun h0 => hline (h.idle h0).line
  obtain ⟨q, hq, heq⟩ := h.credit.pending hpending
  obtain ⟨payload, written, hfits, hstage, hghost⟩ := h.pending q hq heq
  cases hstage with
  | onLine hlen line input phase back =>
      have htaken := receive_encode (f := inFrame q.2 payload hlen) (t := .eTypeIn) h.halted rfl
        (Or.inr rfl) []
      rw [List.append_nil, ← line, hreceive] at htaken
      obtain ⟨rfl, rfl, rfl⟩ : fw = _ ∧ sent = _ ∧ rest = _ := by
        simpa using Option.some.inj htaken
      rw [if_neg Bool.false_ne_true] at hghost
      refine ⟨q, hq, payload, heq, input, phase, back, hghost, hlen, hfits, ?_⟩
      simp only [interrupt, inFrame, List.append_nil]
      rfl
  | held line => exact absurd line hline
  | writing line => exact absurd line hline
  | cleared line => exact absurd line hline
  | acking line => exact absurd line hline
  | ackLength line => exact absurd line hline
  | acked line => exact absurd line hline

theorem Proxy.Credit.setLine {p : Proxy} (h : p.Credit l) (line : List UInt8) :
    (p.setLine line).Credit l :=
  ⟨h.tables.congr rfl rfl rfl, h.writes, h.submits, h.done, h.polls, h.fifo, h.pending, h.idle,
    h.once⟩

theorem InPath.Inv.interrupt (h : s.Inv size l) (ht : s.next size .interrupt = some t) :
    t.Inv size l := by
  obtain ⟨q, hq, payload, heq, hinput, hphase, hback, hghost, hlen, hfits, rfl⟩ :=
    h.interrupt_cases ht
  refine ⟨h.waiting, h.halted, h.credit.setLine [], h.polled, h.queued, ?_, ?_⟩
  · intro h0
    exact absurd (heq.symm.trans h0) (h.credit.tables.original_ne_zero hq)
  · intro q' hq' heq'
    obtain rfl := h.credit.tables.eq_of_original hq hq' (heq.symm.trans heq')
    exact ⟨payload, false, hfits, .held rfl (s.fw.input.holds_read q.2 hlen) hphase hback, hghost⟩

theorem InPath.Inv.mainLoop (h : s.Inv size l) {inReady : Bool}
    (ht : s.next size (.mainLoop inReady) = some t) : t.Inv size l := by
  have hsession : t.session = s.session := by
    rw [← Option.some.inj ht]
  have hcompleted : t.completed = s.completed := by
    rw [← Option.some.inj ht]
  have hproxy : t.proxy = s.proxy := congrArg Session.user hsession
  have hhalted : t.fw.halted = false := by
    rw [← Option.some.inj ht]
    exact (sendNextInput_halted s.fw inReady s.phase).trans h.halted
  by_cases hpending : s.proxy.inPending = 0
  · obtain ⟨hline, hinput, hphase, hback⟩ := h.idle hpending
    have hsame : t = s := by
      rw [← Option.some.inj ht, hphase, sendNextInput_empty hinput, ← hphase]
      simp
    exact hsame ▸ h
  · obtain ⟨q, hq, heq⟩ := h.credit.pending hpending
    obtain ⟨payload, written, hfits, hstage, hghost⟩ := h.pending q hq heq
    -- a packet that is released is the only one of its endpoint that was not written
    have hkeep : ∀ q' ∈ l, q' ≠ q → t.writtenAt q'.2 = s.writtenAt q'.2 := by
      intro q' hq' hne
      rcases hstage.mainLoop (h.credit.tables.target_ne_zero hq) hfits inReady ht with
        ⟨_, hw⟩ | ⟨_, _, hw⟩
      · rw [InPath.writtenAt, hw]
        rfl
      · rw [InPath.writtenAt, hw, payloadsOf_concat_of_ne]
        · rfl
        · exact fun hsame => hne (h.credit.tables.eq_of_target hq hq' hsame).symm
    have hplace : ∀ q' ∈ l, (q'.1 ∈ s.proxy.polled ∨ q'.1 ∈ s.proxy.inEpFifo) → q' ≠ q :=
      fun q' hq' => h.credit.ne_of_pending hq' heq
    constructor
    case waiting => exact hsession ▸ h.waiting
    case halted => exact hhalted
    case credit => exact hproxy ▸ h.credit
    case polled =>
      intro q' hq' hmem
      rw [hproxy] at hmem
      rw [InPath.completedAt, hcompleted, hkeep q' hq' (hplace q' hq' (Or.inl hmem))]
      exact h.polled q' hq' hmem
    case queued =>
      intro q' hq' hmem
      rw [hproxy] at hmem ⊢
      rw [InPath.completedAt, hcompleted, hkeep q' hq' (hplace q' hq' (Or.inr hmem))]
      exact h.queued q' hq' hmem
    case idle =>
      intro h0
      rw [hproxy] at h0
      exact absurd h0 hpending
    case pending =>
      intro q' hq' heq'
      rw [hproxy] at heq'
      obtain rfl := h.credit.tables.eq_of_original hq hq' (heq.symm.trans heq')
      rcases hstage.mainLoop (h.credit.tables.target_ne_zero hq) hfits inReady ht with
        ⟨hstage', hw⟩ | ⟨rfl, hstage', hw⟩
      · refine ⟨payload, written, hfits, hstage', ?_⟩
        rw [InPath.completedAt, hcompleted, InPath.writtenAt, hw]
        exact hghost
      · refine ⟨payload, true, hfits, hstage', ?_⟩
        rw [if_neg Bool.false_ne_true] at hghost
        rw [InPath.completedAt, hcompleted, InPath.writtenAt, hw, payloadsOf_concat_self,
          if_pos rfl, List.append_nil]
        exact hghost

theorem InPath.Inv.complete_cases (h : s.Inv size l) {i : ℕ} {payload : List UInt8}
    (ht : s.next size (.complete i payload) = some t) :
    ∃ q ∈ l, ∃ transfer : Transfer, s.proxy.usb.transfers[i]? = some transfer ∧
      transfer.endpoint = q.1 ∧ payload.length ≤ maxPayloadSizeEp ∧
      ∃ p, usbCallback s.proxy i (.completed payload) = some p ∧
        t = { s.setProxy p with completed := s.completed ++ [(q.1, payload)] } := by
  simp only [InPath.next] at ht
  split at ht
  next hlen =>
    obtain ⟨transfer, htransfer, ht⟩ := Option.bind_eq_some_iff.1 ht
    obtain ⟨p, hp, rfl⟩ := Option.map_eq_some_iff.1 ht
    obtain ⟨_, q, hq, hendpoint⟩ := h.credit.polls transfer (List.mem_of_getElem? htransfer)
    exact ⟨q, hq, transfer, htransfer, hendpoint, hlen, p, hp, by rw [hendpoint]⟩
  next => exact absurd ht (by simp)

theorem Proxy.Credit.polled_removeTransfer {p : Proxy} (h : p.Credit l) {q : UInt8 × UInt8}
    (hq : q ∈ l) {i : ℕ} {transfer : Transfer} (htransfer : p.usb.transfers[i]? = some transfer)
    (hendpoint : transfer.endpoint = q.1) :
    ∀ q' : UInt8 × UInt8, q'.1 ∈ (p.removeTransfer i).polled → q' ≠ q ∧ q'.1 ∈ p.polled := by
  intro q' hmem
  constructor
  · rintro rfl
    have hone := h.once q' hq
    have hcount := Proxy.count_polled_removeTransfer htransfer q'.1
    have hpos := List.count_pos_iff.2 hmem
    rw [if_pos hendpoint] at hcount
    omega
  · obtain ⟨transfer', hmem', heq⟩ := List.mem_map.1 hmem
    rw [← heq]
    exact List.mem_map_of_mem (List.mem_of_mem_eraseIdx hmem')

theorem InPath.Inv.complete (h : s.Inv size l) {i : ℕ} {payload : List UInt8}
    (hbank : s.FitsBank size (.complete i payload))
    (ht : s.next size (.complete i payload) = some t) : t.Inv size l := by
  obtain ⟨q, hq, transfer, htransfer, hendpoint, hlen, p, hp, rfl⟩ := h.complete_cases ht
  have hfits : payload.length ≤ size q.2 := by
    have hle := hbank transfer htransfer
    rwa [hendpoint, h.credit.tables.usbToSerial q hq] at hle
  have hcredit := usbCallback_credit h.credit htransfer hq hendpoint hlen hp
  obtain ⟨packets, hholds, hothers, heq⟩ :=
    usbCallback_completed h.credit htransfer hq hendpoint hlen
  have hpolled : q.1 ∈ s.proxy.polled := by
    rw [← hendpoint]
    exact List.mem_map_of_mem (List.mem_of_getElem? htransfer)
  have hghost := h.polled q hq hpolled
  obtain ⟨hnot, hpending', _⟩ := h.credit.length_fifo.2.2 q hq hpolled
  -- the other endpoints have completed nothing and keep their packets
  have hkeep : ∀ q' ∈ l, q' ≠ q →
      payloadsOf q'.1 (s.completed ++ [(q.1, payload)]) = s.completedAt q'.1 := by
    intro q' hq' hne
    apply payloadsOf_concat_of_ne
    exact fun hsame => hne (h.credit.tables.eq_of_original hq hq' hsame).symm
  have hadd : payloadsOf q.1 (s.completed ++ [(q.1, payload)]) =
      s.writtenAt q.2 ++ [payload] := by
    rw [payloadsOf_concat_self]
    exact congrArg (· ++ [payload]) hghost
  have hresult := Option.some.inj (hp.symm.trans heq)
  have hrest := h.credit.polled_removeTransfer hq htransfer hendpoint
  by_cases hpending : s.proxy.inPending = 0
  · rw [if_pos hpending] at hresult
    subst hresult
    have hquiet := h.idle hpending
    refine ⟨h.waiting, h.halted, hcredit, ?_, ?_, ?_, ?_⟩
    · intro q' hq' hmem
      obtain ⟨hne, hmem'⟩ := hrest q' hmem
      exact (hkeep q' hq' hne).trans (h.polled q' hq' hmem')
    · intro q' hq' hmem
      have hnil : s.proxy.inEpFifo = [] := h.credit.idle hpending
      change q'.1 ∈ s.proxy.inEpFifo at hmem
      rw [hnil] at hmem
      exact absurd hmem List.not_mem_nil
    · intro h0
      exact absurd h0 (h.credit.tables.original_ne_zero hq)
    · intro q' hq' heq'
      obtain rfl := h.credit.tables.eq_of_original hq hq' heq'
      refine ⟨payload, false, hfits,
        .onLine hlen ?_ hquiet.input hquiet.phase hquiet.back, hadd⟩
      change s.proxy.serial.line ++ _ = _
      rw [hquiet.line, List.nil_append]
  · rw [if_neg hpending] at hresult
    subst hresult
    refine ⟨h.waiting, h.halted, hcredit, ?_, ?_, ?_, ?_⟩
    · intro q' hq' hmem
      obtain ⟨hne, hmem'⟩ := hrest q' hmem
      exact (hkeep q' hq' hne).trans (h.polled q' hq' hmem')
    · intro q' hq' hmem
      by_cases hsame : q' = q
      · subst hsame
        exact ⟨payload, hlen, hfits, hholds, hadd⟩
      · have hmem' : q'.1 ∈ s.proxy.inEpFifo := by
          rcases List.mem_append.1 hmem with hmem | hmem
          · exact hmem
          · exact absurd (h.credit.tables.eq_of_original hq' hq (List.mem_singleton.1 hmem)) hsame
        obtain ⟨payload', hlen', hfits', hholds', hghost'⟩ := h.queued q' hq' hmem'
        refine ⟨payload', hlen', hfits', ?_, (hkeep q' hq' hsame).trans hghost'⟩
        exact (congrArg InPacket.sent (hothers q' hq' hsame)).trans hholds'
    · exact fun h0 => absurd h0 hpending
    · intro q' hq' heq'
      have hne : q' ≠ q := by
        rintro rfl
        exact hpending' heq'
      obtain ⟨payload', written, hfits', hstage, hghost'⟩ := h.pending q' hq' heq'
      exact ⟨payload', written, hfits', hstage.congr rfl rfl rfl rfl,
        (hkeep q' hq' hne).trans hghost'⟩

theorem processPacket_in {p : Proxy} {packet : SPacket}
    (htype : packet.type = PacketType.eTypeIn.toByte) (hret : (ackIn p).2 = 0) :
    (processPacket p packet).1 = (ackIn p).1 := by
  unfold processPacket dispatchPacket
  rw [htype, PacketType.ofByte?_toByte]
  simp only [hret, Int.lt_irrefl, if_false]

/-- A read hands nothing on, or the acknowledgement of the packet under way. -/
theorem InPath.Inv.read_cases (h : s.Inv size l) {n : ℕ} (ht : s.next size (.read n) = some t) :
    (t.session.receiver.Waiting ∧ t.back = s.back ∧ t.proxy = s.proxy ∧ t.fw = s.fw ∧
      t.phase = s.phase ∧ t.completed = s.completed ∧ t.written = s.written) ∨
    ∃ q ∈ l, s.proxy.inPending = q.1 ∧ s.proxy.serial.line = [] ∧ s.fw.input.endpoint = 0 ∧
      s.phase = .idle ∧ s.completedAt q.1 = s.writtenAt q.2 ∧
      t.session.receiver.Waiting ∧ t.back = [] ∧ t.proxy = (ackIn s.proxy).1 ∧ t.fw = s.fw ∧
      t.phase = s.phase ∧ t.completed = s.completed ∧ t.written = s.written := by
  simp only [InPath.next] at ht
  split at ht
  next => exact absurd ht (by simp)
  next hn =>
    obtain ⟨session, hrecv, rfl⟩ := Option.map_eq_some_iff.1 ht
    have hsplit : s.toProxy.take n ++ s.toProxy.drop n = s.toProxy :=
      List.take_append_drop n s.toProxy
    rcases Session.recv_cases (fun _ => rfl) h.waiting hrecv with
      ⟨hover, rfl⟩ | ⟨hwaiting, hstored, huser, _⟩ | ⟨hwaiting, hstored, p, hp, huser, _⟩
    · exfalso
      -- no header on the way announces more than no value
      rcases h.back_cases with hback | ⟨hback, _⟩
      · unfold InPath.back at hback
        rw [List.length_append] at hback
        match hcase : s.session.receiver.stored, hover with
        | _ :: _ :: _, _ =>
            rw [hcase] at hback
            simp only [List.length_cons] at hback
            omega
      · have hover' := hover.append s.toProxy
        change Oversized 254 s.back at hover'
        rw [hback] at hover'
        exact absurd hover' (by simp [Oversized, ack])
    · left
      refine ⟨hwaiting, ?_, huser, rfl, rfl, rfl, rfl⟩
      unfold InPath.back
      rw [hstored, List.append_assoc, hsplit]
    · right
      have hback : s.back = p.frame.encode ++ s.toProxy.drop n := by
        rw [← hp, List.append_assoc, hsplit]
        rfl
      have hlength := p.frame.encode_length
      rcases h.back_cases with hshort | ⟨hback', q, hq, heq, hline, hinput, hphase, hghost⟩
      · rw [hback, List.length_append, hlength] at hshort
        omega
      · rw [hback'] at hback
        have hcount := congrArg List.length hback
        rw [List.length_append, hlength] at hcount
        have hcount' : (ack .eTypeIn).length = 2 := rfl
        have hdrop : s.toProxy.drop n = [] := List.length_eq_zero_iff.1 (by omega)
        have htype : p.type = PacketType.eTypeIn.toByte := by
          have hhead := congrArg List.head? hback
          exact (Option.some.inj hhead).symm
        refine ⟨q, hq, heq, hline, hinput, hphase, hghost, hwaiting, ?_, ?_, rfl, rfl, rfl, rfl⟩
        · unfold InPath.back
          rw [hstored, hdrop]
          rfl
        · have hack := ackIn_credit h.credit hq heq h.holdsPacket
          exact huser.trans (processPacket_in htype hack.2)

theorem InPath.Inv.polledAgain (h : s.Inv size l) {q : UInt8 × UInt8} (hq : q ∈ l)
    {transfer : Transfer} (hendpoint : transfer.endpoint = q.1)
    (hghost : s.completedAt q.1 = s.writtenAt q.2) :
    ∀ q' ∈ l, q'.1 ∈ (s.proxy.polledAgain transfer).polled →
      s.completedAt q'.1 = s.writtenAt q'.2 := by
  intro q' hq' hmem
  unfold Proxy.polled Proxy.polledAgain at hmem
  rw [List.map_append, List.mem_append, List.map_singleton, List.mem_singleton, hendpoint] at hmem
  rcases hmem with hmem | hmem
  · exact h.polled q' hq' hmem
  · rw [h.credit.tables.eq_of_original hq' hq hmem]
    exact hghost

/-- The acknowledgement of a packet that has been written makes room for the next one. -/
theorem InPath.Inv.acked (h : s.Inv size l) {q : UInt8 × UInt8} (hq : q ∈ l)
    (heq : s.proxy.inPending = q.1) (hline : s.proxy.serial.line = [])
    (hinput : s.fw.input.endpoint = 0) (hidle : s.phase = .idle)
    (hghost : s.completedAt q.1 = s.writtenAt q.2) {session : Session Proxy}
    {toProxy : List UInt8} (hwaiting : session.receiver.Waiting)
    (hback : session.receiver.stored ++ toProxy = [])
    (hproxy : session.user = (ackIn s.proxy).1) :
    InPath.Inv size l { s with session := session, toProxy := toProxy } := by
  have hcredit := (ackIn_credit h.credit hq heq h.holdsPacket).1
  obtain ⟨transfer, hendpoint, _, hcases⟩ := ackIn_eq h.credit hq heq h.holdsPacket
  have hpolled := h.polledAgain hq hendpoint hghost
  rw [← hproxy] at hcredit
  obtain ⟨receiver, user, delivered⟩ := session
  dsimp only at hproxy hcredit
  rcases hcases with ⟨hfifo, hack⟩ | ⟨r, hr, rest, payload, hlen, hfifo, hholds, hack⟩
  · -- no packet is queued
    rw [hack] at hproxy
    subst hproxy
    refine ⟨hwaiting, h.halted, hcredit, hpolled, ?_, ?_, ?_⟩
    · intro q' _ hmem
      exact absurd (hfifo ▸ hmem : q'.1 ∈ ([] : List UInt8)) List.not_mem_nil
    · exact fun _ => ⟨hline, hinput, hidle, hback⟩
    · exact fun q' hq' heq' => absurd heq'.symm (h.credit.tables.original_ne_zero hq')
  · -- the packet at the front of the queue is sent
    rw [hack] at hproxy
    subst hproxy
    refine ⟨hwaiting, h.halted, hcredit, hpolled, ?_, ?_, ?_⟩
    · intro q' hq' hmem
      exact h.queued q' hq' (hfifo ▸ List.mem_cons_of_mem _ hmem)
    · exact fun h0 => absurd h0 (h.credit.tables.original_ne_zero hr)
    · intro q' hq' heq'
      obtain rfl := h.credit.tables.eq_of_original hr hq' heq'
      have hmem : r.1 ∈ s.proxy.inEpFifo := hfifo ▸ List.mem_cons_self
      obtain ⟨payload', _, hfits, hholds', hghost'⟩ := h.queued r hr hmem
      obtain rfl : payload' = payload := (List.cons.inj (hholds'.symm.trans hholds)).2
      refine ⟨payload', false, hfits, .onLine hlen ?_ hinput hidle hback, hghost'⟩
      change s.proxy.serial.line ++ _ = _
      rw [hline, List.nil_append]

theorem InPath.Inv.read (h : s.Inv size l) {n : ℕ} (ht : s.next size (.read n) = some t) :
    t.Inv size l := by
  rcases h.read_cases ht with
    ⟨hwaiting, hback, hproxy, hfw, hphase, hcompleted, hwritten⟩ |
    ⟨q, hq, heq, hline, hinput, hidle, hghost, hwaiting, hback, hproxy, hfw, hphase, hcompleted,
      hwritten⟩
  · exact h.congr hwaiting hproxy hfw hphase hback hcompleted hwritten
  · obtain ⟨session, fw, phase, toProxy, completed, written⟩ := t
    dsimp only at hfw hphase hcompleted hwritten
    subst hfw hphase hcompleted hwritten
    exact h.acked hq heq hline hinput hidle hghost hwaiting hback hproxy

theorem InPath.Inv.next (h : s.Inv size l) {e : InEvent} (hbank : s.FitsBank size e)
    (ht : s.next size e = some t) : t.Inv size l := by
  cases e with
  | complete i payload => exact h.complete hbank ht
  | interrupt => exact h.interrupt ht
  | mainLoop inReady => exact h.mainLoop ht
  | read n => exact h.read ht

end Step

/-- What `poll_all_endpoints` finds: no transfer, no packet and no byte under way,
complete writes and successful submissions. -/
structure InPath.Ready (l : List (UInt8 × UInt8)) (r : Receiver) (p : Proxy) (fw : Firmware) :
    Prop where
  receiver : r.Waiting
  stored : r.stored = []
  tables : p.InTables l
  line : p.serial.line = []
  writes : p.serial.writes = []
  submits : p.usb.submits = []
  transfers : p.usb.transfers = []
  inEpFifo : p.inEpFifo = []
  inPending : p.inPending = 0
  done : p.done = false
  halted : fw.halted = false
  input : fw.input.endpoint = 0

theorem InPath.Ready.inv_start {size : UInt8 → ℕ} {l : List (UInt8 × UInt8)} {r : Receiver}
    {p : Proxy} {fw : Firmware} (h : InPath.Ready l r p fw) : (InPath.start r p fw).Inv size l := by
  obtain ⟨hcredit, hserial, hfifo, hpending⟩ := pollAllEndpoints_credit h.tables h.writes
    h.submits h.done h.transfers h.inEpFifo h.inPending
  refine ⟨h.receiver, h.halted, hcredit, fun _ _ _ => rfl, ?_, ?_, ?_⟩
  · intro q _ hmem
    change q.1 ∈ (pollAllEndpoints p).1.inEpFifo at hmem
    rw [hfifo] at hmem
    exact absurd hmem List.not_mem_nil
  · intro _
    refine ⟨?_, h.input, rfl, ?_⟩
    · change (pollAllEndpoints p).1.serial.line = []
      rw [hserial, h.line]
    · change r.stored ++ [] = []
      rw [h.stored, List.append_nil]
  · intro q hq heq
    exact absurd (heq.symm.trans hpending) (hcredit.tables.original_ne_zero hq)

/-- No packet is lost, doubled, reordered or overwritten. -/
structure InPath.Lossless (size : UInt8 → ℕ) (l : List (UInt8 × UInt8)) (s : InPath) :
    Prop where
  once : ∀ q ∈ l, s.proxy.polled.count q.1 + s.proxy.inEpFifo.count q.1 +
    (if s.proxy.inPending = q.1 then 1 else 0) = 1
  fifo_le : s.proxy.inEpFifo.length ≤ maxEndpoints
  room : ∀ q ∈ l, q.1 ∈ s.proxy.polled → ∀ payload : List UInt8,
    payload.length ≤ maxPayloadSizeEp → (queueInPacket s.proxy q.1 payload).2 = 0
  done : s.proxy.done = false
  packets : ∀ e t, s.next size e = some t → ∀ q ∈ l,
    q.1 ∈ s.proxy.inEpFifo ∨ s.proxy.inPending = q.1 →
      t.proxy.inPacket q.1 = s.proxy.inPacket q.1
  input : ∀ e t, s.next size e = some t → s.fw.input.endpoint ≠ 0 → s.phase ≠ .cleared →
    t.fw.input = s.fw.input
  initial : ∀ q ∈ l, s.writtenAt q.2 <+: s.completedAt q.1

section Lossless

variable {size : UInt8 → ℕ} {l : List (UInt8 × UInt8)} {s t : InPath}

theorem InPath.Inv.initial (h : s.Inv size l) {q : UInt8 × UInt8} (hq : q ∈ l) :
    s.writtenAt q.2 <+: s.completedAt q.1 := by
  by_cases hpolled : q.1 ∈ s.proxy.polled
  · rw [h.polled q hq hpolled]
  by_cases hfifo : q.1 ∈ s.proxy.inEpFifo
  · obtain ⟨payload, _, _, _, hghost⟩ := h.queued q hq hfifo
    exact ⟨[payload], hghost.symm⟩
  · have hpending : s.proxy.inPending = q.1 := by
      by_contra hne
      have hone := h.credit.once q hq
      rw [List.count_eq_zero_of_not_mem hpolled, List.count_eq_zero_of_not_mem hfifo,
        if_neg hne] at hone
      exact absurd hone (by decide)
    obtain ⟨payload, written, _, _, hghost⟩ := h.pending q hq hpending
    exact ⟨_, hghost.symm⟩

theorem InPath.Inv.packets (h : s.Inv size l) {e : InEvent} (ht : s.next size e = some t)
    {q : UInt8 × UInt8} (hq : q ∈ l)
    (hplace : q.1 ∈ s.proxy.inEpFifo ∨ s.proxy.inPending = q.1) :
    t.proxy.inPacket q.1 = s.proxy.inPacket q.1 := by
  cases e with
  | complete i payload =>
      obtain ⟨q', hq', transfer, htransfer, hendpoint, hlen, p, hp, rfl⟩ := h.complete_cases ht
      obtain ⟨packets, _, hothers, heq⟩ :=
        usbCallback_completed h.credit htransfer hq' hendpoint hlen
      have hne : q ≠ q' := by
        rintro rfl
        have hpolled : q.1 ∈ s.proxy.polled :=
          hendpoint ▸ List.mem_map_of_mem (List.mem_of_getElem? htransfer)
        obtain ⟨hnot, hpending, _⟩ := h.credit.length_fifo.2.2 q hq hpolled
        exact hplace.elim hnot hpending
      have hresult := Option.some.inj (hp.symm.trans heq)
      have hkeep := hothers q hq hne
      change p.inPacket q.1 = _
      rw [hresult]
      split <;> exact hkeep
  | interrupt =>
      obtain ⟨_, _, _, _, _, _, _, _, _, _, rfl⟩ := h.interrupt_cases ht
      rfl
  | mainLoop inReady =>
      rw [← Option.some.inj ht]
      rfl
  | read n =>
      rcases h.read_cases ht with ⟨_, _, hproxy, _⟩ |
        ⟨q', hq', heq, _, _, _, _, _, _, hproxy, _⟩
      · rw [hproxy]
      · obtain ⟨_, _, _, hcases⟩ := ackIn_eq h.credit hq' heq h.holdsPacket
        rcases hcases with ⟨_, hack⟩ | ⟨_, _, _, _, _, _, _, hack⟩
        · rw [hproxy, hack]
          rfl
        · rw [hproxy, hack]
          rfl

theorem InPath.Inv.input (h : s.Inv size l) {e : InEvent} (ht : s.next size e = some t)
    (hinput : s.fw.input.endpoint ≠ 0) (hphase : s.phase ≠ .cleared) :
    t.fw.input = s.fw.input := by
  cases e with
  | complete i payload =>
      obtain ⟨_, _, _, _, _, _, _, _, rfl⟩ := h.complete_cases ht
      rfl
  | interrupt =>
      obtain ⟨_, _, _, _, hzero, _⟩ := h.interrupt_cases ht
      exact absurd hzero hinput
  | mainLoop inReady =>
      rw [← Option.some.inj ht]
      exact congrArg Firmware.input (sendNextInput_input s.fw inReady hphase)
  | read n =>
      rcases h.read_cases ht with ⟨_, _, _, hfw, _⟩ | ⟨_, _, _, _, _, _, _, _, _, _, hfw, _⟩
      · rw [hfw]
      · rw [hfw]

theorem InPath.Inv.lossless (h : s.Inv size l) : s.Lossless size l where
  once := h.credit.once
  fifo_le := h.credit.length_fifo.2.1
  room := by
    intro q hq hpolled payload hlen
    obtain ⟨packets, hqueue, _⟩ := queueInPacket_eq h.credit hq hpolled hlen
    rw [hqueue]
  done := h.credit.done
  packets := fun _ _ ht _ hq hplace => h.packets ht hq hplace
  input := fun _ _ ht hinput hphase => h.input ht hinput hphase
  initial := fun _ hq => h.initial hq

end Lossless

/-- Whatever the order of the events, the IN path is lossless and ordered, in the runs in which
every poll ends with no more bytes than the bank has that they go to. -/
theorem inPath_lossless {size : UInt8 → ℕ} {l : List (UInt8 × UInt8)} {r : Receiver} {p : Proxy}
    {fw : Firmware} (h : InPath.Ready l r p fw) {es : List InEvent} {s : InPath}
    (halong : Along (InPath.next size) (InPath.FitsBank size) (InPath.start r p fw) es)
    (hrun : exec (InPath.next size) (InPath.start r p fw) es = some s) : s.Lossless size l :=
  (exec_invariant_along (I := InPath.Inv size l)
    (fun _ _ _ hs hbank hnext => hs.next hbank hnext) h.inv_start halong hrun).lossless

/-- The sizes of the banks that the firmware configures for a table. -/
def bankSize (configs : List EndpointConfig) (endpoint : UInt8) : ℕ :=
  match configs.find? fun c => c.number = endpoint with
  | some c => (endpointRegisters c.number c.type c.size 1).bankSize
  | none => 0

/-- A packet of one byte, and behind its acknowledgement one that fills the bank. -/
theorem inPath_lossless_two :
    ∃ s : InPath, exec (InPath.next (bankSize oneInputProxy.endpoints))
        (InPath.start Receiver.start oneInputProxy Firmware.boot)
        ([.complete 0 [7], .interrupt, .mainLoop true, .mainLoop false, .mainLoop false,
          .mainLoop false, .mainLoop false, .read 0, .read 1, .mainLoop false, .read 1,
          .complete 0 [1, 2, 3, 4, 5, 6, 7, 8], .interrupt, .mainLoop true] ++
          List.replicate 12 (.mainLoop false) ++ [.read 1, .read 1]) = some s ∧
      s.written = [(0x81, [7]), (0x81, [1, 2, 3, 4, 5, 6, 7, 8])] ∧
      s.Lossless (bankSize oneInputProxy.endpoints) [(0x81, 0x81)] := by
  have hrun : ((exec (InPath.next (bankSize oneInputProxy.endpoints))
      (InPath.start Receiver.start oneInputProxy Firmware.boot)
      ([.complete 0 [7], .interrupt, .mainLoop true, .mainLoop false, .mainLoop false,
        .mainLoop false, .mainLoop false, .read 0, .read 1, .mainLoop false, .read 1,
        .complete 0 [1, 2, 3, 4, 5, 6, 7, 8], .interrupt, .mainLoop true] ++
        List.replicate 12 (.mainLoop false) ++ [.read 1, .read 1])).map InPath.written) =
      some [(0x81, [7]), (0x81, [1, 2, 3, 4, 5, 6, 7, 8])] := by
    decide +kernel
  obtain ⟨s, hs, hwritten⟩ := Option.map_eq_some_iff.1 hrun
  refine ⟨s, hs, hwritten, inPath_lossless ?_ (by decide +kernel) hs⟩
  exact ⟨Receiver.waiting_start, rfl, oneInputProxy_inTables, rfl, rfl, rfl, rfl, rfl, rfl, rfl,
    rfl, by decide +kernel⟩

def largeInput : Configuration where
  wTotalLength := 36
  raw := List.replicate 36 0
  interfaces := [⟨[⟨[⟨0x81, 3, 64⟩]⟩]⟩]
  length_raw := List.length_replicate

/-- The proxy of a device with both configurations: the firmware has a bank of 8 bytes, and the
polls are for the 64 bytes of the last definition. -/
def twoInputsProxy : Proxy :=
  let m := (fixEndpoints (EndpointMaps.start 0 0) [oneInput, largeInput]).1
  Proxy.start m.endpoints m.serialToUsb m.usbToSerial
    ⟨(Vector.replicate 15 ⟨0, 0⟩).setIfInBounds 0 ⟨3, 64⟩, Vector.replicate 15 ⟨0, 0⟩, [], []⟩

theorem twoInputsProxy_ready :
    InPath.Ready [(0x81, 0x81)] Receiver.start twoInputsProxy Firmware.boot where
  receiver := Receiver.waiting_start
  stored := rfl
  tables := by
    have hlist : (oneInput.addresses.filter fun q => endpointIn q.2) = [(0x81, 0x81)] := by
      decide +kernel
    have haddresses : oneInput.addresses = [(0x81, 0x81)] := by decide +kernel
    rw [← hlist]
    refine @inTables_fixEndpoints _ _ oneInput [largeInput] (by decide +kernel) _ rfl rfl ?_
    intro q hq _
    rw [haddresses, List.mem_singleton] at hq
    subst hq
    exact ⟨⟨3, 64⟩, by decide +kernel, rfl⟩
  line := rfl
  writes := rfl
  submits := rfl
  transfers := rfl
  inEpFifo := rfl
  inPending := rfl
  done := rfl
  halted := rfl
  input := by decide +kernel

/-- The ninth byte does not fit the bank and is dropped when the wait for the next one fails. -/
theorem not_inPath_lossless :
    ¬ ∀ l r p fw, InPath.Ready l r p fw → ∀ es s,
      exec (InPath.next (bankSize p.endpoints)) (InPath.start r p fw) es = some s →
        s.Lossless (bankSize p.endpoints) l := by
  intro h
  have hrun : ((exec (InPath.next (bankSize twoInputsProxy.endpoints))
      (InPath.start Receiver.start twoInputsProxy Firmware.boot)
      ([.complete 0 [1, 2, 3, 4, 5, 6, 7, 8, 9], .interrupt, .mainLoop true] ++
        List.replicate 13 (.mainLoop false))).map fun s =>
          (s.completed, s.written, s.fw.input.endpoint, s.phase)) =
      some ([(0x81, [1, 2, 3, 4, 5, 6, 7, 8, 9])], [(0x81, [1, 2, 3, 4, 5, 6, 7, 8])], 0,
        .acking) := by
    decide +kernel
  obtain ⟨s, hs, hend⟩ := Option.map_eq_some_iff.1 hrun
  have hinitial := (h _ _ _ _ twoInputsProxy_ready _ s hs).initial (0x81, 0x81)
    (List.mem_singleton.2 rfl)
  simp only [Prod.mk.injEq] at hend
  rw [InPath.writtenAt, InPath.completedAt, hend.1, hend.2.1] at hinitial
  exact absurd hinitial (by decide)

end SerialUsb
