import SerialUsb.Proxy.Traffic
import SerialUsb.System.ControlTransfer

/-!
# The transfer and the reply of a control request

What the proxy makes of a request that the firmware has forwarded: the transfer that it
submits to the device, and the packet that it sends when that transfer ends.
-/

namespace SerialUsb

open Framing Memory

/-- The transfer asks the device for what the request asks for: the same setup but for the
endpoint that it names, the same data, and room for `wLength` bytes. -/
structure HostRequest.Asks (q : HostRequest) (serialToUsb : EndpointTable) (t : Transfer) :
    Prop where
  type : t.type = transferTypeControl
  endpoint : t.endpoint = 0
  starts : (q.setup.translate serialToUsb).bytes ++ q.outData <+: t.buffer
  length : t.length = 8 + q.setup.wLength.toNat

def HostRequest.reply (q : HostRequest) (status : TransferStatus) : Option (UInt8 × List UInt8) :=
  if q.setup.deviceToHost then
    match status with
    | .completed data =>
        if maxPacketValueSize < data.length then none
        else some (PacketType.eTypeControl.toByte, data)
    | .timedOut | .stall => some (PacketType.eTypeControlStall.toByte, [])
    | .cancelled | .error => none
  else
    match status with
    | .completed _ => some (PacketType.eTypeControl.toByte, [])
    | .stall => some (PacketType.eTypeControlStall.toByte, [])
    | .timedOut | .cancelled | .error => none

theorem HostRequest.type_of_reply (q : HostRequest) {status : TransferStatus} {type : UInt8}
    {value : List UInt8} (h : q.reply status = some (type, value)) :
    type = PacketType.eTypeControl.toByte ∨ type = PacketType.eTypeControlStall.toByte := by
  unfold HostRequest.reply at h
  split at h
  · cases status with
    | completed data =>
        dsimp only at h
        split at h
        · exact absurd h (by simp)
        · exact Or.inl (Prod.mk.inj (Option.some.inj h)).1.symm
    | timedOut => exact Or.inr (Prod.mk.inj (Option.some.inj h)).1.symm
    | stall => exact Or.inr (Prod.mk.inj (Option.some.inj h)).1.symm
    | cancelled => exact absurd h (by simp)
    | error => exact absurd h (by simp)
  · cases status with
    | completed data => exact Or.inl (Prod.mk.inj (Option.some.inj h)).1.symm
    | timedOut => exact absurd h (by simp)
    | stall => exact Or.inr (Prod.mk.inj (Option.some.inj h)).1.symm
    | cancelled => exact absurd h (by simp)
    | error => exact absurd h (by simp)

section Packet

variable {p : Proxy} {packet : SPacket} {q : HostRequest}

theorem HostRequest.Forwarded.asks_controlTransfer (hq : q.Forwarded)
    (serialToUsb : EndpointTable) {rest : List UInt8}
    (hvalue : packet.value = (q.setup.translate serialToUsb).bytes ++ (q.outData ++ rest))
    (hlength : packet.length.toNat = 8 + q.outData.length) :
    q.Asks serialToUsb (controlTransfer packet) := by
  have hcount : writeCount 0 packet.value packet.length.toNat = 8 + q.setup.wLength.toNat := by
    rw [writeCount_zero hvalue, hlength, hq.length_outData, ControlRequest.deviceToHost_translate,
      ControlRequest.translate_wLength]
    cases q.setup.deviceToHost with
    | false => rfl
    | true => rfl
  refine ⟨rfl, rfl, ?_, hcount⟩
  have hdata : q.outData.length ≤ q.setup.wLength.toNat := by
    rw [hq.length_outData]
    split
    · exact Nat.zero_le _
    · exact Nat.le_refl _
  have hbuffer : (controlTransfer packet).buffer =
      packet.value.take (8 + q.setup.wLength.toNat) := congrArg (packet.value.take ·) hcount
  rw [hbuffer, hvalue, ← List.append_assoc]
  refine List.prefix_take_iff.2 ⟨List.prefix_append _ _, ?_⟩
  rw [List.length_append, ControlRequest.length_bytes]
  exact Nat.add_le_add_left hdata 8

/-- The packet of a request makes its transfer, or its reply at once for the one that is
stalled. Where it makes neither the proxy leaves its loop. -/
theorem emits_processPacket_request (hwrites : p.serial.writes = []) (hq : q.Forwarded)
    (htype : packet.type = PacketType.eTypeControl.toByte)
    (hlength : packet.length.toNat = packet.frame.value.length)
    (hvalue : packet.frame.value = q.setup.bytes ++ q.outData) :
    (q.setup.IsDeviceQualifier ∧ ∃ f : PacketFrame,
        f.type = PacketType.eTypeControlStall.toByte ∧ f.value = [] ∧
        p.Emits (processPacket p packet).1 [f] []) ∨
      ∃ ts : List Transfer, ts.length ≤ 1 ∧ (∀ t ∈ ts, q.Asks p.serialToUsb t) ∧
        p.Emits (processPacket p packet).1 [] ts ∧
        (ts = [] → (processPacket p packet).1.done = true) := by
  have hrest : packet.value = packet.frame.value ++ packet.value.drop packet.length.toNat :=
    (List.take_append_drop packet.length.toNat packet.value).symm
  rw [hvalue, List.append_assoc] at hrest
  have htranslated := translateIndex_value p hrest
  have hdispatch : dispatchPacket p packet = sendControlPacket p packet := by
    unfold dispatchPacket
    rw [htype, PacketType.ofByte?_toByte]
  have hqualifier := isDeviceQualifier_iff htranslated
  rw [q.setup.isDeviceQualifier_translate p.serialToUsb] at hqualifier
  by_cases hstalled : q.setup.IsDeviceQualifier
  · left
    refine ⟨hstalled, ⟨PacketType.eTypeControlStall.toByte, [], Nat.zero_le _⟩, rfl, rfl, ?_⟩
    have hsend : (dispatchPacket p packet).1 = (p.send .eTypeControlStall []).1 := by
      rw [hdispatch]
      unfold sendControlPacket
      dsimp only
      rw [if_pos (hqualifier.2 hstalled)]
    have hemits := Proxy.emits_send hwrites .eTypeControlStall []
    rw [← hsend, message_of_le (Nat.zero_le _)] at hemits
    exact hemits.processPacket
  · right
    have hcontrol := sendControlPacket_of_not_isDeviceQualifier (mt hqualifier.1 hstalled)
    rw [← hdispatch] at hcontrol
    have hasks : q.Asks p.serialToUsb (controlTransfer (translateIndex p packet)) := by
      refine hq.asks_controlTransfer p.serialToUsb htranslated ?_
      rw [translateIndex_length, hlength, hvalue, List.length_append, ControlRequest.length_bytes]
    have hemits : ∀ ts : List Transfer, (dispatchPacket p packet).1.usb.transfers =
        p.usb.transfers ++ ts → p.Emits (processPacket p packet).1 [] ts := by
      intro ts hts
      refine Proxy.Emits.processPacket ⟨?_, ?_, hts, ?_⟩
      · rw [hcontrol, List.flatMap_nil, List.append_nil]
      · rw [hcontrol]
        exact hwrites
      · rw [hcontrol]
    rcases submitTransfer_cases p.usb (controlTransfer (translateIndex p packet)) with
      ⟨htransfers, _⟩ | ⟨htransfers, hret⟩
    · refine ⟨[controlTransfer (translateIndex p packet)], Nat.le_refl 1, fun t ht => ?_,
        hemits _ ?_, fun hnil => absurd hnil (List.cons_ne_nil _ _)⟩
      · rw [List.mem_singleton.1 ht]
        exact hasks
      · rw [hcontrol]
        exact htransfers
    · refine ⟨[], Nat.zero_le 1, fun _ ht => absurd ht List.not_mem_nil, hemits _ ?_, fun _ => ?_⟩
      · rw [hcontrol, List.append_nil]
        exact htransfers
      · unfold processPacket
        rw [hcontrol]
        simp [hret]

end Packet

theorem HostRequest.Asks.headD {q : HostRequest} {serialToUsb : EndpointTable} {t : Transfer}
    (h : q.Asks serialToUsb t) :
    t.buffer.headD 0 &&& 0x80 ≠ 0 ↔ q.setup.deviceToHost = true := by
  obtain ⟨rest, hbuffer⟩ := h.starts
  have hhead : t.buffer.headD 0 = q.setup.bmRequestType := by
    rw [← hbuffer, ← q.setup.translate_bmRequestType serialToUsb]
    rfl
  rw [hhead, ControlRequest.deviceToHost]
  exact bne_iff_ne.symm

/-- The end of the transfer of a request sends its reply and nothing else. -/
theorem emits_callCallback_request {p : Proxy} (hwrites : p.serial.writes = []) {q : HostRequest}
    {serialToUsb : EndpointTable} {t : Transfer} (h : q.Asks serialToUsb t)
    {status : TransferStatus} (hstatus : status ≠ .cancelled) :
    ∃ fs : List PacketFrame, fs.map (fun f => (f.type, f.value)) = (q.reply status).toList ∧
      p.Emits (callCallback p t status) fs [] := by
  have hself : ∀ {r : Proxy}, r.serial = p.serial → r.usb = p.usb →
      r.serialToUsb = p.serialToUsb → ∃ fs : List PacketFrame,
        fs.map (fun f => (f.type, f.value)) = (none : Option (UInt8 × List UInt8)).toList ∧
          p.Emits r fs [] :=
    fun hserial husb hmap => ⟨[], rfl, .of_eq hwrites hserial husb hmap⟩
  have hsend : ∀ (type : PacketType) {data : List UInt8}, data.length ≤ maxPacketValueSize →
      ∃ fs : List PacketFrame,
        fs.map (fun f => (f.type, f.value)) = (some (type.toByte, data)).toList ∧
          p.Emits (p.send type data).1 fs [] := by
    intro type data hle
    refine ⟨message maxPacketValueSize type.toByte data, ?_, Proxy.emits_send hwrites type data⟩
    rw [message_of_le hle]
    rfl
  have hsent : ∀ (type : PacketType), ∃ fs : List PacketFrame,
      fs.map (fun f => (f.type, f.value)) = (some (type.toByte, ([] : List UInt8))).toList ∧
        p.Emits (if (p.send type []).2 < 0 then { (p.send type []).1 with done := true }
          else (p.send type []).1) fs [] := by
    intro type
    have hnil : ([] : List UInt8).length ≤ maxPacketValueSize := Nat.zero_le _
    obtain ⟨fs, hfs, hemits⟩ := hsend type hnil
    refine ⟨fs, hfs, ?_⟩
    split
    · exact hemits.setDone
    · exact hemits
  unfold callCallback HostRequest.reply
  rw [if_neg hstatus, if_pos h.type, h.endpoint]
  by_cases hdir : q.setup.deviceToHost = true
  · rw [if_pos (h.headD.2 hdir), if_pos hdir, usbReadCallback_control]
    cases status with
    | completed data =>
        dsimp only
        by_cases hlong : maxPacketValueSize < data.length
        · rw [if_pos hlong, if_pos hlong]
          exact hself rfl rfl rfl
        · rw [if_neg hlong, if_neg hlong]
          exact hsend .eTypeControl (not_lt.1 hlong)
    | timedOut => exact hsend .eTypeControlStall (Nat.zero_le _)
    | stall => exact hsend .eTypeControlStall (Nat.zero_le _)
    | cancelled => exact hself rfl rfl rfl
    | error => exact hself rfl rfl rfl
  · rw [if_neg (mt h.headD.1 hdir), if_neg hdir, usbWriteCallback_control]
    cases status with
    | completed data => exact hsent .eTypeControl
    | timedOut => exact hself rfl rfl rfl
    | stall => exact hsent .eTypeControlStall
    | cancelled => exact hself rfl rfl rfl
    | error => exact hself rfl rfl rfl

end SerialUsb
