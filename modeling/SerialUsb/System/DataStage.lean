import SerialUsb.System.Configuration
import SerialUsb.Segmentation.Segments

/-!
# The data stage of a control transfer to the host

`Endpoint_Write_Control_Stream_LE` on the control endpoint, together with the target host.
The function makes its tests one by one, and between two of them the host can take a packet,
start the status stage or a new transfer, and the USB interrupt can change the state of the
device. The packets the host takes are the segments of the data that it asked for.
-/

namespace SerialUsb

open Segmentation Transition

inductive ControlStreamCode where
  | noError
  | hostAborted
  | deviceDisconnected
  | busSuspended
  deriving DecidableEq, Repr

/-- The registers of the control endpoint. `fifo` has the bytes written since the last
packet, and `bank` the packet that the host has not taken yet: `TXINI` is set when there is
none. -/
structure ControlEndpoint where
  deviceState : DeviceState
  setupReceived : Bool
  outReceived : Bool
  fifo : List UInt8
  bank : Option (List UInt8)
  deriving DecidableEq

def ControlEndpoint.clearIn (e : ControlEndpoint) : ControlEndpoint :=
  { e with bank := some e.fifo, fifo := [] }

/-- The test that comes next, and the result when there is none. The first four are those of
the loop that sends, the last three those of the loop that waits for the host. -/
inductive WriteStep where
  | deviceState
  | setupReceived
  | outReceived
  | inReady
  | statusOut
  | statusState
  | statusSetup
  | returned (code : ControlStreamCode)
  deriving DecidableEq

def WriteStep.isReturned : WriteStep → Bool
  | .returned _ => true
  | _ => false

def WriteStep.isSending : WriteStep → Bool
  | .setupReceived | .outReceived | .inReady => true
  | _ => false

def WriteStep.isWaiting : WriteStep → Bool
  | .statusOut | .statusState | .statusSetup => true
  | _ => false

/-- A call of `Endpoint_Write_Control_Stream_LE`: the `Length` bytes from `DataStream` on. -/
structure WriteStream where
  dataStream : List UInt8
  lastPacketFull : Bool
  next : WriteStep
  deriving DecidableEq

def writeControlStream (buffer : List UInt8) (wLength : UInt16) (e : ControlEndpoint) :
    ControlEndpoint × WriteStream :=
  if wLength.toNat < buffer.length then (e, ⟨buffer.take wLength.toNat, false, .deviceState⟩)
  else if buffer.length = 0 then (e.clearIn, ⟨buffer, false, .deviceState⟩)
  else (e, ⟨buffer, false, .deviceState⟩)

def fillEndpoint (size : ℕ) : List UInt8 → List UInt8 → List UInt8 × List UInt8
  | fifo, [] => (fifo, [])
  | fifo, b :: data =>
      if fifo.length < size then fillEndpoint size (fifo ++ [b]) data else (fifo, b :: data)

def WriteStream.testState (w : WriteStream) (state : DeviceState) (next : WriteStep) :
    WriteStream :=
  match state with
  | .unattached => { w with next := .returned .deviceDisconnected }
  | .suspended => { w with next := .returned .busSuspended }
  | .powered | .default | .addressed | .configured => { w with next := next }

def WriteStream.step (size : ℕ) (e : ControlEndpoint) (w : WriteStream) :
    ControlEndpoint × WriteStream :=
  match w.next with
  | .deviceState =>
      if w.dataStream ≠ [] ∨ w.lastPacketFull then (e, w.testState e.deviceState .setupReceived)
      else (e, { w with next := .statusOut })
  | .setupReceived =>
      if e.setupReceived then (e, { w with next := .returned .hostAborted })
      else (e, { w with next := .outReceived })
  | .outReceived =>
      if e.outReceived then (e, { w with next := .statusOut })
      else (e, { w with next := .inReady })
  | .inReady =>
      match e.bank with
      | some _ => (e, { w with next := .deviceState })
      | none =>
          let (fifo, dataStream) := fillEndpoint size e.fifo w.dataStream
          ({ e with fifo := fifo }.clearIn, ⟨dataStream, fifo.length == size, .deviceState⟩)
  | .statusOut =>
      if e.outReceived then (e, { w with next := .returned .noError })
      else (e, { w with next := .statusState })
  | .statusState => (e, w.testState e.deviceState .statusSetup)
  | .statusSetup =>
      if e.setupReceived then (e, { w with next := .returned .hostAborted })
      else (e, { w with next := .statusOut })
  | .returned _ => (e, w)

structure DataStage where
  endpoint : ControlEndpoint
  call : WriteStream
  received : List (List UInt8)
  deriving DecidableEq

inductive DataStageEvent where
  | device
  /-- the host takes the packet -/
  | take
  /-- the host starts the status stage -/
  | status
  /-- the host starts another transfer -/
  | setup
  /-- the USB interrupt -/
  | interrupt (state : DeviceState)
  deriving DecidableEq

def ControlEndpoint.afterSetup (state : DeviceState) : ControlEndpoint :=
  ⟨state, false, false, [], none⟩

def DataStage.start (buffer : List UInt8) (wLength : UInt16) (state : DeviceState) : DataStage :=
  let (e, w) := writeControlStream buffer wLength (ControlEndpoint.afterSetup state)
  ⟨e, w, []⟩

/-- A transfer that another one has replaced goes no further. -/
def DataStage.next (size : ℕ) (s : DataStage) : DataStageEvent → Option DataStage
  | .device =>
      if s.call.next.isReturned then none
      else
        let (e, w) := s.call.step size s.endpoint
        some ⟨e, w, s.received⟩
  | .take =>
      match s.endpoint.bank with
      | some p =>
          if s.endpoint.setupReceived then none
          else some { s with
            endpoint := { s.endpoint with bank := none }
            received := s.received ++ [p] }
      | none => none
  | .status =>
      if s.endpoint.setupReceived then none
      else some { s with endpoint := { s.endpoint with outReceived := true } }
  | .setup => some { s with endpoint := { s.endpoint with setupReceived := true } }
  | .interrupt state => some { s with endpoint := { s.endpoint with deviceState := state } }

/-- The packets for the host. A host that asks for no byte gets none, unless there is no
byte to send. -/
def packetsFor (size : ℕ) (buffer : List UInt8) (wLength : UInt16) : List (List UInt8) :=
  if wLength = 0 ∧ buffer ≠ [] then [] else segments size (buffer.take wLength.toNat)

def WriteStream.Active (w : WriteStream) : Prop := w.dataStream ≠ [] ∨ w.lastPacketFull = true

instance (w : WriteStream) : Decidable w.Active := inferInstanceAs (Decidable (_ ∨ _))

def WriteStream.unsent (size : ℕ) (w : WriteStream) : List (List UInt8) :=
  if w.Active then segments size w.dataStream else []

/-- Every packet of the transfer is with the host, in the bank or to come, in this order. -/
structure DataStage.Splits (size : ℕ) (packets : List (List UInt8)) (s : DataStage) : Prop where
  fifo : s.endpoint.fifo = []
  packets : s.received ++ s.endpoint.bank.toList ++ s.call.unsent size = packets
  active : s.call.next.isSending = true → s.call.Active
  waiting : s.call.next.isWaiting = true → ¬ s.call.Active ∨ s.endpoint.outReceived = true
  status : s.call.next = .returned .noError → s.endpoint.outReceived = true

theorem fillEndpoint_eq (size : ℕ) (fifo data : List UInt8) :
    fillEndpoint size fifo data =
      (fifo ++ data.take (size - fifo.length), data.drop (size - fifo.length)) := by
  induction data generalizing fifo with
  | nil => simp [fillEndpoint]
  | cons b data ih =>
      rw [fillEndpoint]
      by_cases h : fifo.length < size
      · obtain ⟨k, hk⟩ : ∃ k, size - fifo.length = k + 1 := ⟨size - fifo.length - 1, by omega⟩
        have hk' : size - (fifo.length + 1) = k := by omega
        rw [if_pos h, ih, List.length_append, List.length_singleton, hk, hk']
        simp
      · have hzero : size - fifo.length = 0 := by omega
        rw [if_neg h, hzero]
        simp

theorem WriteStream.testState_cases (w : WriteStream) (state : DeviceState) (next : WriteStep) :
    ∃ step, w.testState state next = { w with next := step } ∧
      (step = next ∨ ∃ code, step = .returned code ∧ code ≠ .noError) := by
  cases state with
  | unattached => exact ⟨_, rfl, Or.inr ⟨_, rfl, by decide⟩⟩
  | suspended => exact ⟨_, rfl, Or.inr ⟨_, rfl, by decide⟩⟩
  | _ => exact ⟨_, rfl, Or.inl rfl⟩

structure WriteStream.Leads (e : ControlEndpoint) (w : WriteStream) (step : WriteStep) : Prop where
  sending : step.isSending = true → w.next.isSending = true ∨ w.Active
  waiting : step.isWaiting = true →
    w.next.isWaiting = true ∨ ¬ w.Active ∨ e.outReceived = true
  noError : step = .returned .noError → w.next = .returned .noError ∨ e.outReceived = true

theorem WriteStream.leads_returned (e : ControlEndpoint) (w : WriteStream)
    {code : ControlStreamCode} (h : code ≠ .noError) : w.Leads e (.returned code) :=
  ⟨by simp [WriteStep.isSending], by simp [WriteStep.isWaiting],
    fun heq => absurd (WriteStep.returned.inj heq) h⟩

theorem WriteStream.step_of_ready (size : ℕ) {e : ControlEndpoint} {w : WriteStream}
    (hnext : w.next = .inReady) (hbank : e.bank = none) (hfifo : e.fifo = []) :
    w.step size e =
      ({ e with bank := some (w.dataStream.take size), fifo := [] },
        ⟨w.dataStream.drop size, (w.dataStream.take size).length == size, .deviceState⟩) := by
  rw [WriteStream.step, hnext]
  simp only [hbank, hfifo, fillEndpoint_eq]
  rfl

/-- A test sends the next packet, or it leaves the endpoint and the data alone. -/
theorem WriteStream.step_cases (size : ℕ) {e : ControlEndpoint} (hfifo : e.fifo = [])
    (w : WriteStream) :
    (w.next = .inReady ∧ e.bank = none ∧
      w.step size e =
        ({ e with bank := some (w.dataStream.take size), fifo := [] },
          ⟨w.dataStream.drop size, (w.dataStream.take size).length == size, .deviceState⟩)) ∨
    ∃ step, w.step size e = (e, { w with next := step }) ∧ w.Leads e step := by
  have htest : ∀ next, w.Leads e next → ∃ step,
      (e, w.testState e.deviceState next) = (e, { w with next := step }) ∧ w.Leads e step := by
    intro next hnext
    obtain ⟨step, hstep, rfl | ⟨code, rfl, hcode⟩⟩ := w.testState_cases e.deviceState next
    · exact ⟨_, by rw [hstep], hnext⟩
    · exact ⟨_, by rw [hstep], w.leads_returned e hcode⟩
  obtain ⟨dataStream, lastPacketFull, next⟩ := w
  cases next with
  | deviceState =>
      right
      rw [WriteStream.step]
      dsimp only
      split
      next hactive =>
        exact htest _ ⟨fun _ => Or.inr hactive, by simp [WriteStep.isWaiting], by simp⟩
      next hidle =>
        exact ⟨_, rfl, by simp [WriteStep.isSending], fun _ => Or.inr (Or.inl hidle), by simp⟩
  | setupReceived =>
      right
      rw [WriteStream.step]
      dsimp only
      split
      · exact ⟨_, rfl, leads_returned _ _ (by simp)⟩
      · exact ⟨_, rfl, fun _ => Or.inl rfl, by simp [WriteStep.isWaiting], by simp⟩
  | outReceived =>
      right
      rw [WriteStream.step]
      dsimp only
      split
      next hout =>
        exact ⟨_, rfl, by simp [WriteStep.isSending], fun _ => Or.inr (Or.inr hout), by simp⟩
      next => exact ⟨_, rfl, fun _ => Or.inl rfl, by simp [WriteStep.isWaiting], by simp⟩
  | inReady =>
      cases hbank : e.bank with
      | some p =>
          right
          simp only [WriteStream.step, hbank]
          exact ⟨_, rfl, by simp [WriteStep.isSending], by simp [WriteStep.isWaiting], by simp⟩
      | none => exact Or.inl ⟨rfl, rfl, step_of_ready size rfl hbank hfifo⟩
  | statusOut =>
      right
      rw [WriteStream.step]
      dsimp only
      split
      next hout =>
        exact ⟨_, rfl, by simp [WriteStep.isSending], by simp [WriteStep.isWaiting],
          fun _ => Or.inr hout⟩
      next => exact ⟨_, rfl, by simp [WriteStep.isSending], fun _ => Or.inl rfl, by simp⟩
  | statusState =>
      exact Or.inr (htest _ ⟨by simp [WriteStep.isSending], fun _ => Or.inl rfl, by simp⟩)
  | statusSetup =>
      right
      rw [WriteStream.step]
      dsimp only
      split
      · exact ⟨_, rfl, leads_returned _ _ (by simp)⟩
      · exact ⟨_, rfl, by simp [WriteStep.isSending], fun _ => Or.inl rfl, by simp⟩
  | returned code => exact Or.inr ⟨_, rfl, Or.inl, Or.inl, Or.inl⟩

theorem WriteStream.unsent_of_active (size : ℕ) {w : WriteStream} (h : w.Active) :
    w.unsent size = segments size w.dataStream := if_pos h

theorem WriteStream.unsent_of_not_active (size : ℕ) {w : WriteStream} (h : ¬ w.Active) :
    w.unsent size = [] := if_neg h

theorem segments_eq_cons_unsent {size : ℕ} (hsize : 0 < size) (data : List UInt8)
    (step : WriteStep) :
    segments size data =
      data.take size ::
        WriteStream.unsent size ⟨data.drop size, (data.take size).length == size, step⟩ := by
  rw [segments_eq_cons hsize]
  by_cases h : size ≤ data.length
  · have hactive : WriteStream.Active ⟨data.drop size, (data.take size).length == size, step⟩ :=
      Or.inr (by simpa using h)
    rw [if_pos h, WriteStream.unsent, if_pos hactive]
  · have hactive : ¬ WriteStream.Active
        ⟨data.drop size, (data.take size).length == size, step⟩ := by
      rintro (hmore | hfull)
      · exact hmore (List.drop_of_length_le (by omega))
      · simp only [List.length_take, beq_iff_eq] at hfull
        omega
    rw [if_neg h, WriteStream.unsent, if_neg hactive]

theorem DataStage.Splits.next {size : ℕ} (hsize : 0 < size) {packets : List (List UInt8)}
    {s t : DataStage} {event : DataStageEvent} (h : s.Splits size packets)
    (hnext : s.next size event = some t) : t.Splits size packets := by
  obtain ⟨hfifo, hpackets, hactive, hwaiting, hstatus⟩ := h
  cases event with
  | device =>
      rw [DataStage.next] at hnext
      by_cases hreturned : s.call.next.isReturned = true
      · rw [if_pos hreturned] at hnext
        exact absurd hnext (by simp)
      rw [if_neg hreturned, Option.some.injEq] at hnext
      rcases s.call.step_cases size hfifo with ⟨hready, hbank, hstep⟩ | ⟨step, hstep, hleads⟩
      · have hloop : s.call.Active := hactive (by rw [hready]; rfl)
        have hunsent := (s.call.unsent_of_active size hloop).trans
          (segments_eq_cons_unsent hsize s.call.dataStream .deviceState)
        rw [hstep] at hnext
        subst hnext
        refine ⟨rfl, ?_, by simp [WriteStep.isSending], by simp [WriteStep.isWaiting], by simp⟩
        rw [← hpackets, hbank, hunsent]
        simp
      · rw [hstep] at hnext
        subst hnext
        refine ⟨hfifo, hpackets, fun h => ?_, fun h => ?_, fun h => ?_⟩
        · exact (hleads.sending h).elim hactive id
        · exact (hleads.waiting h).elim hwaiting id
        · rcases hleads.noError h with hbefore | hout
          · rw [hbefore] at hreturned
            exact absurd rfl hreturned
          · exact hout
  | take =>
      rw [DataStage.next] at hnext
      split at hnext
      next p hbank =>
        split at hnext
        · exact absurd hnext (by simp)
        · obtain rfl := Option.some.inj hnext
          refine ⟨hfifo, ?_, hactive, hwaiting, hstatus⟩
          rw [← hpackets, hbank]
          simp
      next => exact absurd hnext (by simp)
  | status =>
      rw [DataStage.next] at hnext
      split at hnext
      · exact absurd hnext (by simp)
      · obtain rfl := Option.some.inj hnext
        exact ⟨hfifo, hpackets, hactive, fun _ => Or.inr rfl, fun _ => rfl⟩
  | setup =>
      obtain rfl := Option.some.inj hnext
      exact ⟨hfifo, hpackets, hactive, hwaiting, hstatus⟩
  | interrupt state =>
      obtain rfl := Option.some.inj hnext
      exact ⟨hfifo, hpackets, hactive, hwaiting, hstatus⟩

theorem DataStage.splits_start {size : ℕ} (hsize : 0 < size) (buffer : List UInt8)
    (wLength : UInt16) (state : DeviceState) :
    (DataStage.start buffer wLength state).Splits size (packetsFor size buffer wLength) := by
  rw [DataStage.start, writeControlStream, packetsFor]
  by_cases hnil : buffer = []
  · -- one empty packet is in the bank
    subst hnil
    have hidle : ¬ WriteStream.Active ⟨[], false, .deviceState⟩ := by simp [WriteStream.Active]
    refine ⟨rfl, ?_, by simp [WriteStep.isSending], by simp [WriteStep.isWaiting], by simp⟩
    simp [ControlEndpoint.clearIn, ControlEndpoint.afterSetup,
      WriteStream.unsent_of_not_active size hidle, segments_nil hsize]
  have hlen : buffer.length ≠ 0 := fun h => hnil (List.length_eq_zero_iff.1 h)
  have hdata : (if wLength.toNat < buffer.length then
        (ControlEndpoint.afterSetup state,
          (⟨buffer.take wLength.toNat, false, .deviceState⟩ : WriteStream))
      else if buffer.length = 0 then
        ((ControlEndpoint.afterSetup state).clearIn, ⟨buffer, false, .deviceState⟩)
      else (ControlEndpoint.afterSetup state, ⟨buffer, false, .deviceState⟩)) =
      (ControlEndpoint.afterSetup state, ⟨buffer.take wLength.toNat, false, .deviceState⟩) := by
    split
    · rfl
    next hshort => rw [List.take_of_length_le (Nat.not_lt.1 hshort)]
  rw [hdata]
  refine ⟨rfl, ?_, by simp [WriteStep.isSending], by simp [WriteStep.isWaiting], by simp⟩
  by_cases hzero : wLength = 0
  · have hidle : ¬ WriteStream.Active ⟨buffer.take wLength.toNat, false, .deviceState⟩ := by
      simp [WriteStream.Active, hzero]
    rw [WriteStream.unsent_of_not_active size hidle, if_pos ⟨hzero, hnil⟩]
    rfl
  · have hpos : wLength.toNat ≠ 0 := fun h => hzero (UInt16.toNat_inj.1 h)
    have hactive : WriteStream.Active ⟨buffer.take wLength.toNat, false, .deviceState⟩ := by
      simp [WriteStream.Active, hpos, hnil]
    rw [WriteStream.unsent_of_active size hactive, if_neg (fun h => hzero h.1)]
    rfl

theorem DataStage.splits_exec {size : ℕ} (hsize : 0 < size) {buffer : List UInt8}
    {wLength : UInt16} {state : DeviceState} {es : List DataStageEvent} {s : DataStage}
    (hrun : exec (DataStage.next size) (DataStage.start buffer wLength state) es = some s) :
    s.Splits size (packetsFor size buffer wLength) :=
  exec_invariant (fun _ _ _ h hnext => h.next hsize hnext)
    (DataStage.splits_start hsize buffer wLength state) hrun

theorem DataStage.Splits.received_isPrefix {size : ℕ} {packets : List (List UInt8)} {s : DataStage}
    (h : s.Splits size packets) : s.received <+: packets :=
  ⟨_, (List.append_assoc ..).symm.trans h.packets⟩

theorem packetsFor_isPrefix (size : ℕ) (buffer : List UInt8) (wLength : UInt16) :
    packetsFor size buffer wLength <+: segments size (buffer.take wLength.toNat) := by
  rw [packetsFor]
  split
  · exact List.nil_prefix
  · exact List.prefix_rfl


/-- The data stage for every reply, every `wLength` and every order of what the function, the
host and the interrupt do:

* what the host has is a beginning of the reply, cut at `wLength`;
* no packet is longer than the endpoint, and all but the last are full;
* a host that has seen a short packet, or has `wLength` bytes, has all of it;
* the function reports success only behind the status stage;
* a host that asks for no byte is sent no packet, unless the reply is empty. -/
theorem dataStage_delivers {size : ℕ} (hsize : 0 < size) (buffer : List UInt8) (wLength : UInt16)
    (state : DeviceState) {es : List DataStageEvent} {s : DataStage}
    (hrun : exec (DataStage.next size) (DataStage.start buffer wLength state) es = some s) :
    s.received.flatten <+: buffer.take wLength.toNat ∧
    (∀ p ∈ s.received, p.length ≤ size) ∧
    (∀ front last, s.received = front ++ [last] → ∀ p ∈ front, p.length = size) ∧
    (Ended size wLength.toNat s.received → s.received.flatten = buffer.take wLength.toNat) ∧
    (s.call.next = .returned .noError → s.endpoint.outReceived = true) ∧
    (wLength = 0 → buffer ≠ [] → s.received = []) := by
  have h := DataStage.splits_exec hsize hrun
  have hpre := h.received_isPrefix.trans (packetsFor_isPrefix size buffer wLength)
  refine ⟨flatten_isPrefix hsize hpre, fun p hp => ?_, fun front last heq => ?_, fun hend => ?_,
    h.status, fun hzero hne => ?_⟩
  · exact length_le_of_mem_segments hsize (hpre.subset hp)
  · rw [heq] at hpre
    exact full_of_isPrefix hsize hpre
  · exact flatten_of_ended hsize (List.length_take_le _ _) hpre hend
  · have hnone := h.received_isPrefix
    rw [packetsFor, if_pos ⟨hzero, hne⟩] at hnone
    exact List.prefix_nil.1 hnone

/-- Twelve bytes of a reply of twenty, for an endpoint of eight bytes: the host takes two
packets and starts the status stage. -/
theorem dataStage_delivers_twelve :
    ∃ s, exec (DataStage.next 8) (DataStage.start (List.replicate 20 7) 12 .addressed)
        ([.device, .device, .device, .device, .take, .device, .device, .device, .device, .take,
          .status, .device, .device] : List DataStageEvent) = some s ∧
      s.call.next = .returned .noError ∧ s.received.flatten = List.replicate 12 7 := by
  have hrun : ∃ s, s ∈ exec (DataStage.next 8)
      (DataStage.start (List.replicate 20 7) 12 .addressed)
      ([.device, .device, .device, .device, .take, .device, .device, .device, .device, .take,
        .status, .device, .device] : List DataStageEvent) ∧
      s.call.next = .returned .noError ∧ Ended 8 12 s.received := by
    decide +kernel
  obtain ⟨s, hs, hreturned, hend⟩ := hrun
  exact ⟨s, hs, hreturned,
    (dataStage_delivers (by decide) (List.replicate 20 7) 12 .addressed hs).2.2.2.1 hend⟩

/-- The bus is up, the host has not begun another transfer and the call has not returned. -/
structure DataStage.Live (s : DataStage) : Prop where
  attached : s.endpoint.deviceState ≠ .unattached
  awake : s.endpoint.deviceState ≠ .suspended
  setup : s.endpoint.setupReceived = false
  running : s.call.next.isReturned = false

/-- The host asks for a packet while it is owed one, and starts the status stage when it is
owed none. -/
def DataStage.Patient (size limit : ℕ) (s : DataStage) : DataStageEvent → Prop
  | .take => ¬ Ended size limit s.received
  | .status => Ended size limit s.received
  | .device => True
  | .setup | .interrupt _ => False

def DataStage.Reaches (size limit : ℕ) (s t : DataStage) : Prop :=
  ∃ es, Along (DataStage.next size) (DataStage.Patient size limit) s es ∧
    exec (DataStage.next size) s es = some t

theorem DataStage.Reaches.refl (size limit : ℕ) (s : DataStage) : s.Reaches size limit s :=
  ⟨[], trivial, rfl⟩

theorem DataStage.Reaches.head {size limit : ℕ} {s t u : DataStage} {event : DataStageEvent}
    (hnext : s.next size event = some t) (hpatient : s.Patient size limit event)
    (h : t.Reaches size limit u) : s.Reaches size limit u := by
  obtain ⟨es, halong, hrun⟩ := h
  refine ⟨event :: es, ⟨hpatient, fun v hv => ?_⟩, ?_⟩
  · rwa [← Option.some.inj (hnext.symm.trans hv)]
  · rw [exec_cons, hnext]
    exact hrun

theorem WriteStream.testState_of_live {s : DataStage} (h : s.Live) (w : WriteStream)
    (next : WriteStep) : w.testState s.endpoint.deviceState next = { w with next := next } := by
  have hattached := h.attached
  have hawake := h.awake
  cases hstate : s.endpoint.deviceState with
  | unattached => exact absurd hstate hattached
  | suspended => exact absurd hstate hawake
  | _ => rfl

def DataStage.goto (s : DataStage) (step : WriteStep) : DataStage :=
  { s with call := { s.call with next := step } }

theorem DataStage.Live.goto {s : DataStage} (h : s.Live) {step : WriteStep}
    (hstep : step.isReturned = false) : (s.goto step).Live :=
  ⟨h.attached, h.awake, h.setup, hstep⟩

theorem DataStage.Live.send {s : DataStage} (h : s.Live) (p fifo : List UInt8) (w : WriteStream)
    (hw : w.next.isReturned = false) :
    DataStage.Live ⟨{ s.endpoint with bank := some p, fifo := fifo }, w, s.received⟩ :=
  ⟨h.attached, h.awake, h.setup, hw⟩

theorem DataStage.Live.next_device {s : DataStage} (h : s.Live) (size : ℕ) :
    s.next size .device =
      some ⟨(s.call.step size s.endpoint).1, (s.call.step size s.endpoint).2, s.received⟩ := by
  rw [DataStage.next, if_neg (by rw [h.running]; simp)]

theorem DataStage.Live.moves {size limit : ℕ} {s u : DataStage} (h : s.Live) (step : WriteStep)
    (hstep : s.call.step size s.endpoint = (s.endpoint, { s.call with next := step }))
    (hrest : (s.goto step).Reaches size limit u) : s.Reaches size limit u := by
  have hnext := h.next_device size
  rw [hstep] at hnext
  exact hrest.head hnext trivial

def DataStage.Returns (size limit : ℕ) (s : DataStage) : Prop :=
  ∃ t, s.Reaches size limit t ∧ t.call.next = .returned .noError ∧ t.received = s.received

theorem DataStage.Returns.moves {size limit : ℕ} {s : DataStage} (h : s.Live) (step : WriteStep)
    (hstep : s.call.step size s.endpoint = (s.endpoint, { s.call with next := step }))
    (hrest : (s.goto step).Returns size limit) : s.Returns size limit := by
  obtain ⟨t, ht, hreturned, hreceived⟩ := hrest
  exact ⟨t, h.moves step hstep ht, hreturned, hreceived⟩

section Returns

variable {size limit : ℕ} {s : DataStage} (h : s.Live) (hout : s.endpoint.outReceived = true)

include h hout

theorem DataStage.returns_statusOut (hnext : s.call.next = .statusOut) :
    s.Returns size limit := by
  refine ⟨s.goto (.returned .noError), h.moves _ ?_ (.refl ..), rfl, rfl⟩
  rw [WriteStream.step, hnext]
  exact if_pos hout

theorem DataStage.returns_outReceived (hnext : s.call.next = .outReceived) :
    s.Returns size limit := by
  refine .moves h .statusOut ?_ (returns_statusOut (h.goto rfl) hout rfl)
  rw [WriteStream.step, hnext]
  exact if_pos hout

theorem DataStage.returns_setupReceived (hnext : s.call.next = .setupReceived) :
    s.Returns size limit := by
  refine .moves h .outReceived ?_ (returns_outReceived (h.goto rfl) hout rfl)
  rw [WriteStream.step, hnext]
  exact if_neg (by rw [h.setup]; simp)

theorem DataStage.returns_deviceState (hnext : s.call.next = .deviceState) :
    s.Returns size limit := by
  by_cases hactive : s.call.Active
  · refine .moves h .setupReceived ?_ (returns_setupReceived (h.goto rfl) hout rfl)
    have htest := WriteStream.testState_of_live h s.call .setupReceived
    rw [WriteStream.step, hnext]
    exact (if_pos hactive).trans (by rw [htest])
  · refine .moves h .statusOut ?_ (returns_statusOut (h.goto rfl) hout rfl)
    rw [WriteStream.step, hnext]
    exact if_neg hactive

theorem DataStage.returns_statusSetup (hnext : s.call.next = .statusSetup) :
    s.Returns size limit := by
  refine .moves h .statusOut ?_ (returns_statusOut (h.goto rfl) hout rfl)
  rw [WriteStream.step, hnext]
  exact if_neg (by rw [h.setup]; simp)

/-- Wherever the call is, it returns once the host has started the status stage. -/
theorem DataStage.returns (hfifo : s.endpoint.fifo = []) : s.Returns size limit := by
  cases hnext : s.call.next with
  | deviceState => exact returns_deviceState h hout hnext
  | setupReceived => exact returns_setupReceived h hout hnext
  | outReceived => exact returns_outReceived h hout hnext
  | inReady =>
      cases hbank : s.endpoint.bank with
      | some p =>
          refine .moves h .deviceState ?_ (returns_deviceState (h.goto rfl) hout rfl)
          rw [WriteStream.step, hnext]
          simp only [hbank]
      | none =>
          -- one more packet goes to the bank
          have hdevice := h.next_device size
          rw [WriteStream.step_of_ready size hnext hbank hfifo] at hdevice
          have hlive := h.send (s.call.dataStream.take size) []
            ⟨s.call.dataStream.drop size, (s.call.dataStream.take size).length == size,
              .deviceState⟩ rfl
          have hreturns : DataStage.Returns size limit _ := returns_deviceState hlive hout rfl
          obtain ⟨t, ht, hreturned, hreceived⟩ := hreturns
          exact ⟨t, ht.head hdevice trivial, hreturned, hreceived⟩
  | statusOut => exact returns_statusOut h hout hnext
  | statusState =>
      refine .moves h .statusSetup ?_ (returns_statusSetup (h.goto rfl) hout rfl)
      have htest := WriteStream.testState_of_live h s.call .statusSetup
      rw [WriteStream.step, hnext]
      exact congrArg (Prod.mk _) htest
  | statusSetup => exact returns_statusSetup h hout hnext
  | returned code =>
      have hrunning := h.running
      rw [hnext] at hrunning
      exact absurd hrunning (by simp [WriteStep.isReturned])

end Returns

def DataStage.Arms (size limit : ℕ) (s : DataStage) : Prop :=
  ∃ t, s.Reaches size limit t ∧ t.Live ∧ t.endpoint.outReceived = s.endpoint.outReceived ∧
    t.endpoint.bank ≠ none ∧ t.received = s.received

theorem DataStage.Arms.moves {size limit : ℕ} {s : DataStage} (h : s.Live) (step : WriteStep)
    (hstep : s.call.step size s.endpoint = (s.endpoint, { s.call with next := step }))
    (hrest : (s.goto step).Arms size limit) : s.Arms size limit := by
  obtain ⟨t, ht, hlive, hout, hbank, hreceived⟩ := hrest
  exact ⟨t, h.moves step hstep ht, hlive, hout, hbank, hreceived⟩

section Arms

variable {size limit : ℕ} {s : DataStage} (h : s.Live) (hout : s.endpoint.outReceived = false)
  (hbank : s.endpoint.bank = none) (hfifo : s.endpoint.fifo = [])

include h hbank hfifo

theorem DataStage.arms_inReady (hnext : s.call.next = .inReady) : s.Arms size limit := by
  have hdevice := h.next_device size
  rw [WriteStream.step_of_ready size hnext hbank hfifo] at hdevice
  have hlive := h.send (s.call.dataStream.take size) []
    ⟨s.call.dataStream.drop size, (s.call.dataStream.take size).length == size, .deviceState⟩ rfl
  exact ⟨_, (DataStage.Reaches.refl ..).head hdevice trivial, hlive, rfl, by simp, rfl⟩

include hout

theorem DataStage.arms_outReceived (hnext : s.call.next = .outReceived) :
    s.Arms size limit := by
  refine .moves h .inReady ?_ (arms_inReady (h.goto rfl) hbank hfifo rfl)
  rw [WriteStream.step, hnext]
  exact if_neg (by rw [hout]; simp)

theorem DataStage.arms_setupReceived (hnext : s.call.next = .setupReceived) :
    s.Arms size limit := by
  refine .moves h .outReceived ?_ (arms_outReceived (h.goto rfl) hout hbank hfifo rfl)
  rw [WriteStream.step, hnext]
  exact if_neg (by rw [h.setup]; simp)

theorem DataStage.arms (hactive : s.call.Active) (hnot : s.call.next.isWaiting = false) :
    s.Arms size limit := by
  cases hnext : s.call.next with
  | deviceState =>
      refine .moves h .setupReceived ?_
        (arms_setupReceived (h.goto rfl) hout hbank hfifo rfl)
      have htest := WriteStream.testState_of_live h s.call .setupReceived
      rw [WriteStream.step, hnext]
      exact (if_pos hactive).trans (by rw [htest])
  | setupReceived => exact arms_setupReceived h hout hbank hfifo hnext
  | outReceived => exact arms_outReceived h hout hbank hfifo hnext
  | inReady => exact arms_inReady h hbank hfifo hnext
  | statusOut | statusState | statusSetup =>
      rw [hnext] at hnot
      exact absurd hnot (by simp [WriteStep.isWaiting])
  | returned code =>
      have hrunning := h.running
      rw [hnext] at hrunning
      exact absurd hrunning (by simp [WriteStep.isReturned])

end Arms

theorem DataStage.Reaches.trans {size limit : ℕ} {s t u : DataStage}
    (h : s.Reaches size limit t) (h' : t.Reaches size limit u) : s.Reaches size limit u := by
  obtain ⟨es, halong, hrun⟩ := h
  induction es generalizing s with
  | nil =>
      rw [exec_nil, Option.some.injEq] at hrun
      exact hrun ▸ h'
  | cons e es ih =>
      obtain ⟨v, hv, hrest⟩ := exec_cons_eq_some hrun
      exact (ih (halong.2 v hv) hrest).head hv halong.1

theorem DataStage.Splits.reaches {size limit : ℕ} (hsize : 0 < size)
    {packets : List (List UInt8)} {s t : DataStage} (h : s.Splits size packets)
    (hreach : s.Reaches size limit t) : t.Splits size packets := by
  obtain ⟨es, _, hrun⟩ := hreach
  exact exec_invariant (fun _ _ _ h hnext => h.next hsize hnext) h hrun

/-- A host that is patient gets the packets that are left, one after the other, and then the
call returns. -/
theorem DataStage.Splits.completes {size limit : ℕ} (hsize : 0 < size)
    {packets : List (List UInt8)} (hall : Ended size limit packets) {s : DataStage}
    (h : s.Splits size packets) (hlive : s.Live) (hout : s.endpoint.outReceived = false) :
    ∃ t, s.Reaches size limit t ∧ t.call.next = .returned .noError ∧
      Ended size limit t.received := by
  by_cases hend : Ended size limit s.received
  · -- the host starts the status stage
    have hstatus : s.next size .status =
        some { s with endpoint := { s.endpoint with outReceived := true } } := by
      rw [DataStage.next, if_neg (by rw [hlive.setup]; simp)]
    have hreturns : DataStage.Returns size limit
        { s with endpoint := { s.endpoint with outReceived := true } } :=
      DataStage.returns ⟨hlive.attached, hlive.awake, hlive.setup, hlive.running⟩ rfl h.fifo
    obtain ⟨t, ht, hreturned, hreceived⟩ := hreturns
    refine ⟨t, ht.head hstatus hend, hreturned, ?_⟩
    rw [hreceived]
    exact hend
  · -- the host is owed a packet: it is in the bank, or the call brings it there
    have hfull : ∃ t, s.Reaches size limit t ∧ t.Live ∧ t.endpoint.outReceived = false ∧
        t.endpoint.bank ≠ none ∧ t.received = s.received := by
      by_cases hbank : s.endpoint.bank = none
      · have hactive : s.call.Active := by
          by_contra hidle
          have hpackets := h.packets
          rw [hbank, s.call.unsent_of_not_active size hidle] at hpackets
          simp only [Option.toList_none, List.append_nil] at hpackets
          exact hend (hpackets ▸ hall)
        have hnot : s.call.next.isWaiting = false := by
          by_contra hwaiting
          rcases h.waiting (Bool.eq_true_of_not_eq_false hwaiting) with hidle | hstatus
          · exact hidle hactive
          · exact Bool.false_ne_true (hout.symm.trans hstatus)
        have harms : s.Arms size limit :=
          DataStage.arms hlive hout hbank h.fifo hactive hnot
        obtain ⟨t, ht, hlive', hout', hrest⟩ := harms
        exact ⟨t, ht, hlive', hout'.trans hout, hrest⟩
      · exact ⟨s, .refl .., hlive, hout, hbank, rfl⟩
    obtain ⟨t, ht, hlive', hout', hbank, hreceived⟩ := hfull
    obtain ⟨p, hp⟩ := Option.ne_none_iff_exists'.1 hbank
    have htake : t.next size .take = some ⟨{ t.endpoint with bank := none }, t.call,
        t.received ++ [p]⟩ := by
      simp only [DataStage.next, hp, hlive'.setup]
      rfl
    have hsplits := h.reaches hsize ht
    have hnext := hsplits.next hsize htake
    have hless : packets.length - (t.received ++ [p]).length <
        packets.length - s.received.length := by
      have hlen := hnext.received_isPrefix.length_le
      rw [hreceived] at hlen ⊢
      simp only [List.length_append, List.length_singleton] at hlen ⊢
      omega
    obtain ⟨u, hu, hreturned, hended⟩ := DataStage.Splits.completes hsize hall hnext
      ⟨hlive'.attached, hlive'.awake, hlive'.setup, hlive'.running⟩ hout'
    exact ⟨u, ht.trans (hu.head htake (by rwa [DataStage.Patient, hreceived])), hreturned, hended⟩
termination_by packets.length - s.received.length
decreasing_by exact hless

/-- The data stage is not stuck: from every state of every run in which the call has not returned,
the bus is up and the host has begun neither the status stage nor another transfer, a host that
takes the packets it is owed and then starts the status stage gets the whole reply, and the
function returns. This holds for all transfers but those of no byte with a reply to send. -/
theorem dataStage_completes {size : ℕ} (hsize : 0 < size) (buffer : List UInt8)
    (wLength : UInt16) (hasked : wLength ≠ 0 ∨ buffer = []) (state : DeviceState)
    {es : List DataStageEvent} {s : DataStage}
    (hrun : exec (DataStage.next size) (DataStage.start buffer wLength state) es = some s)
    (hlive : s.Live) (hout : s.endpoint.outReceived = false) :
    ∃ t, s.Reaches size wLength.toNat t ∧ t.call.next = .returned .noError ∧
      t.received.flatten = buffer.take wLength.toNat := by
  have hpackets : packetsFor size buffer wLength = segments size (buffer.take wLength.toNat) := by
    rw [packetsFor, if_neg]
    rintro ⟨hzero, hne⟩
    exact hasked.elim (fun h => h hzero) hne
  have h := DataStage.splits_exec hsize hrun
  rw [hpackets] at h
  obtain ⟨t, ht, hreturned, hended⟩ :=
    h.completes hsize (ended_segments hsize wLength.toNat _) hlive hout
  refine ⟨t, ht, hreturned, ?_⟩
  exact flatten_of_ended hsize (List.length_take_le _ _) (h.reaches hsize ht).received_isPrefix hended

theorem dataStage_completes_sixteen :
    ∃ t, (DataStage.start (List.replicate 16 7) 64 .addressed).Reaches 8 64 t ∧
      t.call.next = .returned .noError ∧ t.received.flatten = List.replicate 16 7 := by
  have hrun : exec (DataStage.next 8)
      (DataStage.start (List.replicate 16 7) 64 .addressed) [] =
      some (DataStage.start (List.replicate 16 7) 64 .addressed) := rfl
  exact dataStage_completes (by decide) (List.replicate 16 7) 64 (Or.inl (by decide)) .addressed
    hrun ⟨by decide, by decide, rfl, rfl⟩ rfl

end SerialUsb
