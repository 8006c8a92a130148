import SerialUsb.Firmware.ControlRequest
import SerialUsb.System.DataStage

/-!
# The data stage of a control transfer from the host

`Endpoint_Read_Control_Stream_LE` on the control endpoint, together with the target host,
in the same steps as the other direction. The buffer gets the first `wLength` bytes that the
host sends, in whatever packets they come, and the request that is forwarded has them.
-/

namespace SerialUsb

open Framing Transition

/-- The registers of the control endpoint. `bank` has the bytes of the packet that was
received and that are not read yet; `RXOUTI` is set when there is a packet. -/
structure ReadEndpoint where
  deviceState : DeviceState
  setupReceived : Bool
  bank : Option (List UInt8)
  inReady : Bool
  deriving DecidableEq

/-- The test that comes next. The first three are those of the loop that reads, the last two
those of the loop that waits for the IN bank. -/
inductive ReadStep where
  | deviceState
  | setupReceived
  | outReceived
  | inReady
  | statusState
  | returned (code : ControlStreamCode)
  deriving DecidableEq

def ReadStep.isReturned : ReadStep → Bool
  | .returned _ => true
  | _ => false

def ReadStep.isBehind : ReadStep → Bool
  | .inReady | .statusState | .returned .noError => true
  | _ => false

structure ReadStream where
  stored : List UInt8
  length : ℕ
  next : ReadStep
  deriving DecidableEq

def ReadEndpoint.clearOut (e : ReadEndpoint) : ReadEndpoint := { e with bank := none }

def readControlStream (length : UInt16) (e : ReadEndpoint) : ReadEndpoint × ReadStream :=
  (if length = 0 then e.clearOut else e, ⟨[], length.toNat, .deviceState⟩)

def readEndpoint : List UInt8 → ℕ → List UInt8 → List UInt8 × ℕ
  | stored, length + 1, b :: bank => readEndpoint (stored ++ [b]) length bank
  | stored, length, _ => (stored, length)

def ReadStream.testState (r : ReadStream) (state : DeviceState) (next : ReadStep) : ReadStream :=
  match state with
  | .unattached => { r with next := .returned .deviceDisconnected }
  | .suspended => { r with next := .returned .busSuspended }
  | .powered | .default | .addressed | .configured => { r with next := next }

def ReadStream.step (e : ReadEndpoint) (r : ReadStream) : ReadEndpoint × ReadStream :=
  match r.next with
  | .deviceState =>
      if r.length ≠ 0 then (e, r.testState e.deviceState .setupReceived)
      else (e, { r with next := .inReady })
  | .setupReceived =>
      if e.setupReceived then (e, { r with next := .returned .hostAborted })
      else (e, { r with next := .outReceived })
  | .outReceived =>
      match e.bank with
      | none => (e, { r with next := .deviceState })
      | some bank =>
          let (stored, length) := readEndpoint r.stored r.length bank
          (e.clearOut, ⟨stored, length, .deviceState⟩)
  | .inReady =>
      if e.inReady then (e, { r with next := .returned .noError })
      else (e, { r with next := .statusState })
  | .statusState => (e, r.testState e.deviceState .inReady)
  | .returned _ => (e, r)

structure ReadStage where
  endpoint : ReadEndpoint
  call : ReadStream
  sent : List (List UInt8)
  deriving DecidableEq

inductive ReadStageEvent where
  | device
  /-- the host sends a packet -/
  | send (p : List UInt8)
  /-- the host starts another transfer -/
  | setup
  /-- the USB interrupt -/
  | interrupt (state : DeviceState)
  /-- the IN bank gets free -/
  | inReady
  deriving DecidableEq

def ReadStage.start (wLength : UInt16) (state : DeviceState) (inReady : Bool) : ReadStage :=
  let (e, r) := readControlStream wLength ⟨state, false, none, inReady⟩
  ⟨e, r, []⟩

/-- A packet is accepted when the bank is free and the packet fits the endpoint. -/
def ReadStage.next (size : ℕ) (s : ReadStage) : ReadStageEvent → Option ReadStage
  | .device =>
      if s.call.next.isReturned then none
      else
        let (e, r) := s.call.step s.endpoint
        some ⟨e, r, s.sent⟩
  | .send p =>
      match s.endpoint.bank with
      | some _ => none
      | none =>
          if s.endpoint.setupReceived ∨ size < p.length then none
          else some { s with
            endpoint := { s.endpoint with bank := some p }
            sent := s.sent ++ [p] }
  | .setup => some { s with endpoint := { s.endpoint with setupReceived := true } }
  | .interrupt state => some { s with endpoint := { s.endpoint with deviceState := state } }
  | .inReady => some { s with endpoint := { s.endpoint with inReady := true } }

def ReadStage.data (s : ReadStage) : Option (List UInt8) :=
  if s.call.next = .returned .noError then some s.call.stored else none

structure ReadStage.Stores (wLength : ℕ) (s : ReadStage) : Prop where
  length : s.call.stored.length + s.call.length = wLength
  more : s.call.length ≠ 0 → s.call.stored ++ s.endpoint.bank.getD [] = s.sent.flatten
  done : s.call.length = 0 → s.call.stored = s.sent.flatten.take wLength
  behind : s.call.next.isBehind = true → s.call.length = 0

theorem readEndpoint_eq (stored : List UInt8) (length : ℕ) (bank : List UInt8) :
    readEndpoint stored length bank =
      (stored ++ bank.take length, length - bank.length) := by
  induction bank generalizing stored length with
  | nil => cases length <;> simp [readEndpoint]
  | cons b bank ih =>
      cases length with
      | zero => simp [readEndpoint]
      | succ length =>
          rw [readEndpoint, ih]
          simp

theorem ReadStream.testState_cases (r : ReadStream) (state : DeviceState) (next : ReadStep) :
    ∃ step, r.testState state next = { r with next := step } ∧
      (step = next ∨ ∃ code, step = .returned code ∧ code ≠ .noError) := by
  cases state with
  | unattached => exact ⟨_, rfl, Or.inr ⟨_, rfl, by decide⟩⟩
  | suspended => exact ⟨_, rfl, Or.inr ⟨_, rfl, by decide⟩⟩
  | _ => exact ⟨_, rfl, Or.inl rfl⟩

/-- A test reads a packet, or it leaves the endpoint and the buffer alone. -/
theorem ReadStream.step_cases (e : ReadEndpoint) (r : ReadStream) :
    (∃ bank, e.bank = some bank ∧
      r.step e = (e.clearOut,
        ⟨r.stored ++ bank.take r.length, r.length - bank.length, .deviceState⟩)) ∨
    ∃ step, r.step e = (e, { r with next := step }) ∧
      (step.isBehind = true → r.next.isBehind = true ∨ r.length = 0) := by
  have htest : ∀ next, (next.isBehind = true → r.next.isBehind = true ∨ r.length = 0) → ∃ step,
      (e, r.testState e.deviceState next) = (e, { r with next := step }) ∧
        (step.isBehind = true → r.next.isBehind = true ∨ r.length = 0) := by
    intro next hnext
    obtain ⟨step, hstep, rfl | ⟨code, rfl, hcode⟩⟩ := r.testState_cases e.deviceState next
    · exact ⟨_, by rw [hstep], hnext⟩
    · refine ⟨_, by rw [hstep], fun h => absurd h ?_⟩
      cases code with
      | noError => exact absurd rfl hcode
      | _ => simp [ReadStep.isBehind]
  obtain ⟨stored, length, next⟩ := r
  cases next with
  | deviceState =>
      right
      rw [ReadStream.step]
      dsimp only
      split
      · exact htest _ (by simp [ReadStep.isBehind])
      next hzero => exact ⟨_, rfl, fun _ => Or.inr (not_not.1 hzero)⟩
  | setupReceived =>
      right
      rw [ReadStream.step]
      dsimp only
      split
      · exact ⟨_, rfl, by simp [ReadStep.isBehind]⟩
      · exact ⟨_, rfl, by simp [ReadStep.isBehind]⟩
  | outReceived =>
      cases hbank : e.bank with
      | some bank =>
          left
          refine ⟨bank, rfl, ?_⟩
          simp only [ReadStream.step, hbank, readEndpoint_eq]
      | none =>
          right
          simp only [ReadStream.step, hbank]
          exact ⟨_, rfl, by simp [ReadStep.isBehind]⟩
  | inReady =>
      right
      rw [ReadStream.step]
      dsimp only
      split
      · exact ⟨_, rfl, fun _ => Or.inl rfl⟩
      · exact ⟨_, rfl, fun _ => Or.inl rfl⟩
  | statusState => exact Or.inr (htest _ fun _ => Or.inl rfl)
  | returned code => exact Or.inr ⟨_, rfl, Or.inl⟩

theorem ReadStage.Stores.read {wLength : ℕ} {s : ReadStage} (h : s.Stores wLength)
    {bank : List UInt8} (hbank : s.endpoint.bank = some bank) :
    ReadStage.Stores wLength ⟨s.endpoint.clearOut,
      ⟨s.call.stored ++ bank.take s.call.length, s.call.length - bank.length, .deviceState⟩,
      s.sent⟩ := by
  have hlength := h.length
  have hmore := h.more
  rw [hbank, Option.getD_some] at hmore
  refine ⟨?_, fun hleft => ?_, fun hnone => ?_, by simp [ReadStep.isBehind]⟩
  · rw [List.length_append, List.length_take]
    dsimp only
    omega
  · dsimp only at hleft
    rw [ReadEndpoint.clearOut, Option.getD_none, List.append_nil,
      List.take_of_length_le (by omega)]
    exact hmore (by omega)
  · by_cases hzero : s.call.length = 0
    · rw [hzero, List.take_zero, List.append_nil]
      exact h.done hzero
    · rw [← hmore hzero, ← hlength, List.take_length_add_append]

theorem ReadStage.Stores.next {size wLength : ℕ} {s t : ReadStage} {event : ReadStageEvent}
    (h : s.Stores wLength) (hnext : s.next size event = some t) : t.Stores wLength := by
  have hstores := h
  obtain ⟨hlength, hmore, hdone, hbehind⟩ := h
  cases event with
  | device =>
      rw [ReadStage.next] at hnext
      by_cases hreturned : s.call.next.isReturned = true
      · rw [if_pos hreturned] at hnext
        exact absurd hnext (by simp)
      rw [if_neg hreturned, Option.some.injEq] at hnext
      rcases s.call.step_cases s.endpoint with ⟨bank, hbank, hstep⟩ | ⟨step, hstep, hleads⟩
      · rw [hstep] at hnext
        subst hnext
        exact hstores.read hbank
      · rw [hstep] at hnext
        subst hnext
        exact ⟨hlength, hmore, hdone, fun h => (hleads h).elim hbehind id⟩
  | send p =>
      rw [ReadStage.next] at hnext
      split at hnext
      · exact absurd hnext (by simp)
      next hbank =>
        split at hnext
        · exact absurd hnext (by simp)
        · obtain rfl := Option.some.inj hnext
          rw [hbank, Option.getD_none, List.append_nil] at hmore
          refine ⟨hlength, fun hleft => ?_, fun hzero => ?_, hbehind⟩
          · rw [Option.getD_some, hmore hleft]
            simp
          · -- the packet comes too late for the buffer
            have hzero : s.call.length = 0 := hzero
            have hall : wLength ≤ s.sent.flatten.length := by
              have hlen := congrArg List.length (hdone hzero)
              rw [List.length_take] at hlen
              omega
            rw [List.flatten_append, List.take_append_of_le_length hall]
            exact hdone hzero
  | setup =>
      obtain rfl := Option.some.inj hnext
      exact ⟨hlength, hmore, hdone, hbehind⟩
  | interrupt state =>
      obtain rfl := Option.some.inj hnext
      exact ⟨hlength, hmore, hdone, hbehind⟩
  | inReady =>
      obtain rfl := Option.some.inj hnext
      exact ⟨hlength, hmore, hdone, hbehind⟩

theorem ReadStage.stores_start (wLength : UInt16) (state : DeviceState) (inReady : Bool) :
    (ReadStage.start wLength state inReady).Stores wLength.toNat := by
  have hbank : (ReadStage.start wLength state inReady).endpoint.bank = none := by
    by_cases hzero : wLength = 0
    · simp [ReadStage.start, readControlStream, hzero, ReadEndpoint.clearOut]
    · simp [ReadStage.start, readControlStream, hzero]
  refine ⟨Nat.zero_add _, fun _ => ?_, fun _ => (List.take_nil).symm, fun h => ?_⟩
  · rw [hbank]
    rfl
  · exact absurd h (by simp [ReadStage.start, readControlStream, ReadStep.isBehind])

theorem ReadStage.stores_exec {size : ℕ} {wLength : UInt16} {state : DeviceState}
    {inReady : Bool} {es : List ReadStageEvent} {s : ReadStage}
    (hrun : exec (ReadStage.next size) (ReadStage.start wLength state inReady) es = some s) :
    s.Stores wLength.toNat :=
  exec_invariant (fun _ _ _ h hnext => h.next hnext) (ReadStage.stores_start ..) hrun

/-- What is in the buffer is a beginning of what was sent. -/
theorem ReadStage.Stores.stored_isPrefix {wLength : ℕ} {s : ReadStage} (h : s.Stores wLength) :
    s.call.stored <+: s.sent.flatten := by
  by_cases hzero : s.call.length = 0
  · rw [h.done hzero]
    exact List.take_prefix ..
  · exact ⟨_, h.more hzero⟩

theorem ReadStage.Stores.of_noError {wLength : ℕ} {s : ReadStage} (h : s.Stores wLength)
    (hreturned : s.call.next = .returned .noError) :
    s.call.stored = s.sent.flatten.take wLength ∧ s.call.stored.length = wLength := by
  have hzero := h.behind (by rw [hreturned]; rfl)
  have hlength := h.length
  exact ⟨h.done hzero, by omega⟩

/-- The data stage from the host, for every `wLength` and every order of what the function,
the host and the interrupt do:

* at most `wLength` bytes are stored, a beginning of what the host sent;
* when the function reports success, they are the first `wLength` bytes of it;
* a request that fits a packet is forwarded then with its setup and exactly these bytes, and
  is not forwarded otherwise. -/
theorem readStage_forwards {size : ℕ} (setup : ControlRequest)
    (hdir : setup.deviceToHost = false) (hfits : 8 + setup.wLength.toNat ≤ maxPacketValueSize)
    (state : DeviceState) (inReady : Bool) {es : List ReadStageEvent} {s : ReadStage}
    (hrun : exec (ReadStage.next size) (ReadStage.start setup.wLength state inReady) es = some s) :
    s.call.stored.length ≤ setup.wLength.toNat ∧ s.call.stored <+: s.sent.flatten ∧
    (s.call.next = .returned .noError →
      s.call.stored = s.sent.flatten.take setup.wLength.toNat ∧
        s.call.stored.length = setup.wLength.toNat) ∧
    ∃ q : HostRequest, q.setup = setup ∧ q.data = s.data ∧
      (s.call.next = .returned .noError →
        ∃ f : PacketFrame, q.sends = f.encode ∧ f.type = PacketType.eTypeControl.toByte ∧
          f.value = setup.bytes ++ s.sent.flatten.take setup.wLength.toNat) ∧
      (s.call.next ≠ .returned .noError → q.sends = []) := by
  have h := ReadStage.stores_exec hrun
  have hlength := h.length
  refine ⟨by omega, h.stored_isPrefix, h.of_noError, ?_⟩
  have hdata : ∀ d, s.data = some d → d.length = setup.wLength.toNat := by
    intro d hd
    rw [ReadStage.data] at hd
    split at hd
    next hreturned => exact Option.some.inj hd ▸ (h.of_noError hreturned).2
    next => exact absurd hd (by simp)
  have hshort : ¬ maxControlTransferSize < setup.wLength.toNat := by
    rw [maxPacketValueSize_eq] at hfits
    rw [maxControlTransferSize_eq]
    omega
  refine ⟨⟨setup, s.data, hdata⟩, rfl, rfl, fun hreturned => ?_, fun hreturned => ?_⟩
  · have hsome : s.data = some (s.sent.flatten.take setup.wLength.toNat) := by
      rw [ReadStage.data, if_pos hreturned, (h.of_noError hreturned).1]
    have hmessage : HostRequest.message ⟨setup, s.data, hdata⟩ =
        some (PacketType.eTypeControl.toByte,
          setup.bytes ++ s.sent.flatten.take setup.wLength.toNat) := by
      simp only [HostRequest.message, if_neg hshort, hdir, hsome]
      rfl
    have hfit : HostRequest.Fits ⟨setup, s.data, hdata⟩ := Or.inr (Or.inr (Or.inl hfits))
    rcases hfit.sends_eq with ⟨_, hnone⟩ | ⟨f, hsends, hsent⟩
    · exact absurd (hnone.symm.trans hmessage) (by simp)
    · rw [hmessage, Option.some.injEq, Prod.mk.injEq] at hsent
      exact ⟨f, hsends, hsent.1.symm, hsent.2.symm⟩
  · have hnone : s.data = none := if_neg hreturned
    simp only [HostRequest.sends, if_neg hshort, hdir, hnone]
    rfl

/-- Ten bytes in two packets. -/
theorem readStage_forwards_ten :
    ∃ s, exec (ReadStage.next 8) (ReadStage.start 10 .addressed true)
        [.send (List.replicate 8 1), .device, .device, .device, .send [2, 3], .device, .device,
          .device, .device, .device] = some s ∧
      ∃ q : HostRequest, q.setup = ⟨0x21, 9, 0, 0, 10⟩ ∧ q.data = s.data ∧
        ∃ f : PacketFrame, q.sends = f.encode ∧
          f.value = [0x21, 9, 0, 0, 0, 0, 10, 0] ++ (List.replicate 8 1 ++ [2, 3]) := by
  have hrun : ∃ s, s ∈ exec (ReadStage.next 8) (ReadStage.start 10 .addressed true)
      [.send (List.replicate 8 1), .device, .device, .device, .send [2, 3], .device, .device,
        .device, .device, .device] ∧
      s.call.next = .returned .noError ∧ s.sent.flatten = List.replicate 8 1 ++ [2, 3] := by
    decide +kernel
  obtain ⟨s, hs, hreturned, hsent⟩ := hrun
  obtain ⟨_, _, _, q, hsetup, hdata, hframe, _⟩ := readStage_forwards
    ⟨0x21, 9, 0, 0, 10⟩ (by decide) (by decide) .addressed true hs
  obtain ⟨f, hsends, _, hvalue⟩ := hframe hreturned
  refine ⟨s, hs, q, hsetup, hdata, f, hsends, ?_⟩
  rw [hvalue, hsent]
  decide

end SerialUsb
