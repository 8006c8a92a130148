import SerialUsb.Firmware.ControlRequest
import SerialUsb.Firmware.Interrupt

/-!
# The control requests of the firmware

`EVENT_USB_Device_UnhandledControlRequest` in the steps between which the interrupt can
run: the two stores that reset the flags, the data stage, each byte sent, the loop that
waits for the reply, the tests behind it, and the bytes of the reply.
-/

namespace SerialUsb

open Framing Memory

/-- Where the main loop is in `EVENT_USB_Device_UnhandledControlRequest`. -/
inductive ControlPhase where
  | idle
  /-- behind `controlReply = 0` -/
  | resetting (q : HostRequest)
  /-- in `Endpoint_Read_Control_Stream_LE` -/
  | dataStage (q : HostRequest)
  | sending (q : HostRequest) (unsent : List UInt8)
  /-- in the loop that waits for the reply -/
  | waiting (q : HostRequest)
  /-- behind the loop, before the test of `controlReply` -/
  | left (q : HostRequest)
  /-- before the test of `controlStall` -/
  | replied (q : HostRequest)
  /-- before the call of `Endpoint_Write_Control_Stream_LE` -/
  | replying (q : HostRequest)
  /-- in `Endpoint_Write_Control_Stream_LE`, with the bytes sent to the host -/
  | writing (q : HostRequest) (length : ℕ) (sent : List UInt8)

/-- What a step leaves: the reply slot, the next step, the bytes put on the line, and
the request that is forwarded from now on. -/
structure ControlStep where
  slot : ControlSlot
  phase : ControlPhase
  sent : List UInt8
  forwarded : Option HostRequest

def HostRequest.Forwarded (q : HostRequest) : Prop :=
  q.setup.wLength.toNat ≤ maxControlTransferSize ∧
    (q.setup.deviceToHost = true ∨ q.data ≠ none)

instance (q : HostRequest) : Decidable q.Forwarded := inferInstanceAs (Decidable (_ ∧ _))

theorem HostRequest.Forwarded.exists_packet {q : HostRequest} (h : q.Forwarded) (hfits : q.Fits) :
    ∃ f : PacketFrame, q.sends = f.encode ∧ f.type = PacketType.eTypeControl.toByte := by
  have hshort : ¬ maxControlTransferSize < q.setup.wLength.toNat := not_lt.2 h.1
  obtain ⟨value, hmessage⟩ : ∃ value, q.message = some (PacketType.eTypeControl.toByte, value) := by
    unfold HostRequest.message
    rw [if_neg hshort]
    by_cases hdir : q.setup.deviceToHost = true
    · exact ⟨_, if_pos hdir⟩
    · obtain ⟨d, hd⟩ := Option.ne_none_iff_exists'.1 (h.2.resolve_left hdir)
      rw [if_neg hdir, hd]
      exact ⟨_, rfl⟩
  rcases hfits.sends_eq with ⟨_, hnone⟩ | ⟨f, hsends, hsome⟩
  · exact absurd (hnone.symm.trans hmessage) (by simp)
  · rw [hmessage, Option.some.injEq, Prod.mk.injEq] at hsome
    exact ⟨f, hsends, hsome.1.symm⟩

theorem HostRequest.exists_debug {q : HostRequest}
    (hlong : maxControlTransferSize < q.setup.wLength.toNat) :
    ∃ f : PacketFrame, q.sends = f.encode ∧ f.type = PacketType.eTypeDebug.toByte := by
  refine ⟨⟨PacketType.eTypeDebug.toByte, q.setup.bytes, by simp⟩, ?_, rfl⟩
  unfold HostRequest.sends
  rw [if_pos hlong]
  rfl

def beginControlRequest (slot : ControlSlot) (q : HostRequest) : ControlSlot × ControlPhase :=
  if maxControlTransferSize < q.setup.wLength.toNat then (slot, .sending q q.sends)
  else ({ slot with controlReply := false }, .resetting q)

/-- The other steps. `leave` tells that the time is over in the loop, and that the host
ends the transfer early while the reply is written. -/
def unhandledControlRequest (slot : ControlSlot) (leave : Bool) : ControlPhase → ControlStep
  | .idle => ⟨slot, .idle, [], none⟩
  | .resetting q =>
      let slot := { slot with controlStall := false }
      if q.setup.deviceToHost then ⟨slot, .sending q q.sends, [], some q⟩
      else ⟨slot, .dataStage q, [], none⟩
  | .dataStage q =>
      match q.data with
      | none => ⟨slot, .idle, [], none⟩
      | some _ => ⟨slot, .sending q q.sends, [], some q⟩
  | .sending q (b :: unsent) => ⟨slot, .sending q unsent, [b], none⟩
  | .sending q [] =>
      if maxControlTransferSize < q.setup.wLength.toNat then ⟨slot, .idle, [], none⟩
      else ⟨slot, .waiting q, [], none⟩
  | .waiting q =>
      if slot.controlReply = true ∨ leave = true then ⟨slot, .left q, [], none⟩
      else ⟨slot, .waiting q, [], none⟩
  | .left q =>
      if slot.controlReply then ⟨slot, .replied q, [], none⟩ else ⟨slot, .idle, [], none⟩
  | .replied q =>
      if slot.controlStall then ⟨slot, .idle, [], none⟩
      else if q.setup.deviceToHost then ⟨slot, .replying q, [], none⟩
      else ⟨slot, .idle, [], none⟩
  | .replying q =>
      ⟨slot, .writing q (min slot.controlReplyLen.toNat q.setup.wLength.toNat) [], [], none⟩
  | .writing q length sent =>
      if leave = false ∧ sent.length < length then
        ⟨slot, .writing q length (sent ++ [slot.control.toList.getD sent.length 0]), [], none⟩
      else ⟨slot, .idle, [], none⟩

def ControlPhase.acting : ControlPhase → Option HostRequest
  | .replied q | .replying q | .writing q _ _ => some q
  | _ => none

structure ControlSlot.Holds (c : ControlSlot) (f : PacketFrame) : Prop where
  type : f.type = PacketType.eTypeControl.toByte ∨ f.type = PacketType.eTypeControlStall.toByte
  stall : c.controlStall = decide (f.type = PacketType.eTypeControlStall.toByte)
  control : c.control.toList.take f.value.length = f.value
  length : f.type = PacketType.eTypeControl.toByte → c.controlReplyLen.toNat = f.value.length

def ControlPhase.Sends (f : PacketFrame) : ControlPhase → Prop
  | .replying _ => f.type = PacketType.eTypeControl.toByte
  | .writing q length sent =>
      length = min f.value.length q.setup.wLength.toNat ∧ sent.length ≤ length ∧
        sent = f.value.take sent.length
  | _ => True

theorem ControlSlot.holds_readControl {c : ControlSlot} (hstall : c.controlStall = false)
    {f : PacketFrame} (htype : f.type = PacketType.eTypeControl.toByte) :
    (c.readControl f.value).Holds f where
  type := Or.inl htype
  stall := by
    rw [htype]
    exact hstall
  control := toList_take_copyAt_zero c.control f.value_le
  length := by
    intro _
    exact f.toNat_length maxPacketValueSize_lt

theorem ControlSlot.holds_readStall (c : ControlSlot) {f : PacketFrame}
    (htype : f.type = PacketType.eTypeControlStall.toByte) : (c.readStall f.value).Holds f where
  type := Or.inr htype
  stall := by
    rw [htype]
    rfl
  control := toList_take_copyAt_zero c.control f.value_le
  length := by
    intro h
    rw [htype] at h
    exact absurd h (by decide)

/-- The reply that is acted on goes to the host byte by byte. -/
theorem ControlPhase.Sends.step {c : ControlSlot} {f : PacketFrame} (hholds : c.Holds f)
    {phase : ControlPhase} (h : phase.Sends f) (leave : Bool) {q : HostRequest}
    (hacting : phase.acting = some q) :
    ∃ phase', unhandledControlRequest c leave phase = ⟨c, phase', [], none⟩ ∧ phase'.Sends f ∧
      (phase' = .idle ∨ phase'.acting = some q) := by
  cases phase with
  | idle => exact absurd hacting (by simp [acting])
  | resetting _ => exact absurd hacting (by simp [acting])
  | dataStage _ => exact absurd hacting (by simp [acting])
  | sending _ _ => exact absurd hacting (by simp [acting])
  | waiting _ => exact absurd hacting (by simp [acting])
  | left _ => exact absurd hacting (by simp [acting])
  | replied q' =>
      have hq : q' = q := Option.some.inj hacting
      rw [unhandledControlRequest]
      split
      · exact ⟨_, rfl, trivial, Or.inl rfl⟩
      next hstall =>
        split
        · refine ⟨_, rfl, hholds.type.resolve_right fun htype => hstall ?_,
            Or.inr (congrArg some hq)⟩
          rw [hholds.stall]
          exact decide_eq_true htype
        · exact ⟨_, rfl, trivial, Or.inl rfl⟩
  | replying q' =>
      have hq : q' = q := Option.some.inj hacting
      refine ⟨_, rfl, ⟨?_, Nat.zero_le _, rfl⟩, Or.inr (congrArg some hq)⟩
      rw [hholds.length h]
  | writing q' length sent =>
      have hq : q' = q := Option.some.inj hacting
      obtain ⟨hlength, hle, hsent⟩ := h
      rw [unhandledControlRequest]
      split
      next hmore =>
        refine ⟨_, rfl, ⟨hlength, ?_, ?_⟩, Or.inr (congrArg some hq)⟩
        · rw [List.length_append, List.length_singleton]
          exact hmore.2
        · have hlt : sent.length < f.value.length := by omega
          have hbyte : c.control.toList.getD sent.length 0 = f.value[sent.length] := by
            have hget := congrArg (fun l => l[sent.length]?) hholds.control
            simp only [List.getElem?_take, hlt, if_true, List.getElem?_eq_getElem hlt] at hget
            rw [List.getD_eq_getElem?_getD, hget, Option.getD_some]
          rw [List.length_append, List.length_singleton, hbyte,
            List.take_succ_eq_append_getElem hlt, ← hsent]
      next => exact ⟨_, rfl, trivial, Or.inl rfl⟩

end SerialUsb
