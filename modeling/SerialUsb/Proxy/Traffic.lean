import SerialUsb.Proxy.Callbacks

/-!
# What the proxy adds to the line and to the table

With complete writes every function of the proxy puts whole packets on the line and
new transfers behind those of the table. For a control request it adds at most one of
the two: the transfer, or at once the reply.
-/

namespace SerialUsb

open Framing Memory

structure Proxy.Emits (p q : Proxy) (packets : List PacketFrame) (transfers : List Transfer) :
    Prop where
  line : q.serial.line = p.serial.line ++ packets.flatMap Frame.encode
  writes : q.serial.writes = []
  transfers : q.usb.transfers = p.usb.transfers ++ transfers
  serialToUsb : q.serialToUsb = p.serialToUsb

theorem Proxy.Emits.trans {p q r : Proxy} {fs gs : List PacketFrame} {ts us : List Transfer}
    (h : p.Emits q fs ts) (h' : q.Emits r gs us) : p.Emits r (fs ++ gs) (ts ++ us) where
  line := by rw [h'.line, h.line, List.flatMap_append, List.append_assoc]
  writes := h'.writes
  transfers := by rw [h'.transfers, h.transfers, List.append_assoc]
  serialToUsb := h'.serialToUsb.trans h.serialToUsb

theorem Proxy.Emits.of_eq {p q : Proxy} (hwrites : p.serial.writes = [])
    (hserial : q.serial = p.serial) (husb : q.usb = p.usb)
    (hmap : q.serialToUsb = p.serialToUsb) : p.Emits q [] [] where
  line := by rw [hserial, List.flatMap_nil, List.append_nil]
  writes := by rw [hserial, hwrites]
  transfers := by rw [husb, List.append_nil]
  serialToUsb := hmap

theorem Proxy.Emits.setDone {p q : Proxy} {fs : List PacketFrame} {ts : List Transfer}
    (h : p.Emits q fs ts) : p.Emits { q with done := true } fs ts :=
  ⟨h.line, h.writes, h.transfers, h.serialToUsb⟩

def OtherTraffic (packets : List PacketFrame) (transfers : List Transfer) : Prop :=
  (∀ f ∈ packets, f.type = PacketType.eTypeIn.toByte ∨ f.type = PacketType.eTypeReset.toByte) ∧
    ∀ t ∈ transfers, t.type = transferTypeInterrupt ∧ t.endpoint ≠ 0

def ControlTraffic (packets : List PacketFrame) (transfers : List Transfer) : Prop :=
  packets.length + transfers.length ≤ 1 ∧
    (∀ f ∈ packets, f.type = PacketType.eTypeControl.toByte ∨
      f.type = PacketType.eTypeControlStall.toByte) ∧
    ∀ t ∈ transfers, t.type = transferTypeControl ∧ t.endpoint = 0

theorem OtherTraffic.nil : OtherTraffic [] [] :=
  ⟨fun _ h => absurd h List.not_mem_nil, fun _ h => absurd h List.not_mem_nil⟩

theorem ControlTraffic.nil : ControlTraffic [] [] :=
  ⟨Nat.zero_le 1, fun _ h => absurd h List.not_mem_nil, fun _ h => absurd h List.not_mem_nil⟩

theorem OtherTraffic.append {fs gs : List PacketFrame} {ts us : List Transfer}
    (h : OtherTraffic fs ts) (h' : OtherTraffic gs us) : OtherTraffic (fs ++ gs) (ts ++ us) :=
  ⟨List.forall_mem_append.2 ⟨h.1, h'.1⟩, List.forall_mem_append.2 ⟨h.2, h'.2⟩⟩

theorem controlTraffic_message {type : PacketType} {data : List UInt8}
    (htype : type = .eTypeControl ∨ type = .eTypeControlStall)
    (hle : data.length ≤ maxPacketValueSize) :
    ControlTraffic (message maxPacketValueSize type.toByte data) [] := by
  refine ⟨?_, fun f hf => ?_, fun _ h => absurd h List.not_mem_nil⟩
  · rw [message_of_le hle]
    rfl
  · rw [type_of_mem_message hf]
    exact htype.imp (congrArg _) (congrArg _)

section Complete

variable {p : Proxy}

theorem Proxy.emits_send (hwrites : p.serial.writes = []) (type : PacketType)
    (data : List UInt8) :
    p.Emits (p.send type data).1 (message maxPacketValueSize type.toByte data) [] := by
  have hsend : (p.send type data).1.serial = (adapterSend p.serial type data).1 := rfl
  rw [adapterSend_of_complete hwrites] at hsend
  exact ⟨congrArg Serial.line hsend, congrArg Serial.writes hsend, (List.append_nil _).symm, rfl⟩

theorem Proxy.emits_poll (hwrites : p.serial.writes = []) (endpoint : UInt8) :
    ∃ ts, OtherTraffic [] ts ∧ p.Emits (p.poll endpoint).1 [] ts := by
  have hemits : ∀ ts, (p.poll endpoint).1.usb.transfers = p.usb.transfers ++ ts →
      p.Emits (p.poll endpoint).1 [] ts :=
    fun ts h => ⟨(List.append_nil _).symm, hwrites, h, rfl⟩
  rcases gusbPoll_cases p.usb endpoint with ⟨t, hendpoint, hvalid, husb, _⟩ | ⟨husb, _⟩
  · have hinfo : t.type = transferTypeInterrupt ∧ t.endpoint ≠ 0 := by
      rcases hvalid with ⟨htype, hzero⟩ | hinterrupt
      · exfalso
        have hpoll : gusbPoll p.usb endpoint = (p.usb, -1) := by
          rw [← hendpoint, hzero]
          rfl
        rw [hpoll] at husb
        exact absurd husb (by simp)
      · exact hinterrupt
    refine ⟨[t], ⟨fun _ h => absurd h List.not_mem_nil, fun t' ht' => ?_⟩, hemits _ husb⟩
    rw [List.mem_singleton.1 ht']
    exact hinfo
  · exact ⟨[], .nil, hemits _ (husb.trans (List.append_nil _).symm)⟩

theorem emits_sendNextInPacket (hwrites : p.serial.writes = []) :
    ∃ fs, OtherTraffic fs [] ∧ p.Emits (sendNextInPacket p).1 fs [] := by
  unfold sendNextInPacket
  split
  · exact ⟨[], .nil, .of_eq hwrites rfl rfl rfl⟩
  · cases hfifo : p.inEpFifo with
    | nil => exact ⟨[], .nil, .of_eq hwrites rfl rfl rfl⟩
    | cons endpoint rest =>
        dsimp only
        have hsend := Proxy.emits_send hwrites .eTypeIn (p.inPacket endpoint).sent
        refine ⟨message maxPacketValueSize PacketType.eTypeIn.toByte (p.inPacket endpoint).sent,
          ⟨fun _ h => Or.inl (type_of_mem_message h), fun _ h => absurd h List.not_mem_nil⟩, ?_⟩
        split
        · exact hsend
        · exact ⟨hsend.line, hsend.writes, hsend.transfers, hsend.serialToUsb⟩

theorem emits_pollEndpoints (is : List ℕ) (hwrites : p.serial.writes = []) :
    ∃ ts, OtherTraffic [] ts ∧ p.Emits (pollEndpoints p is).1 [] ts := by
  induction is generalizing p with
  | nil => exact ⟨[], .nil, .of_eq hwrites rfl rfl rfl⟩
  | cons i is ih =>
      obtain ⟨ts, hother, hpoll⟩ := Proxy.emits_poll hwrites (p.serialToUsb.get (0x80 ||| i))
      rw [pollEndpoints]
      dsimp only
      split
      · split
        · exact ⟨ts, hother, hpoll⟩
        · obtain ⟨us, hrest, hpolls⟩ := ih hpoll.writes
          exact ⟨ts ++ us, hother.append hrest, hpoll.trans hpolls⟩
      · exact ih hwrites

theorem emits_ackIn (hwrites : p.serial.writes = []) :
    ∃ fs ts, OtherTraffic fs ts ∧ p.Emits (ackIn p).1 fs ts := by
  unfold ackIn
  split
  · obtain ⟨ts, hother, hpoll⟩ := Proxy.emits_poll hwrites p.inPending
    have hpolled : p.Emits { (p.poll p.inPending).1 with inPending := 0 } [] ts :=
      ⟨hpoll.line, hpoll.writes, hpoll.transfers, hpoll.serialToUsb⟩
    dsimp only
    split
    · obtain ⟨fs, hpackets, hsend⟩ := emits_sendNextInPacket hpolled.writes
      exact ⟨fs, ts ++ [], hother.append hpackets, hpolled.trans hsend⟩
    · exact ⟨[], ts, hother, hpolled⟩
  · exact ⟨[], [], .nil, .of_eq hwrites rfl rfl rfl⟩

theorem emits_sendOutPacket (hwrites : p.serial.writes = []) {packet : SPacket}
    (hmapped : p.serialToUsb.get (packet.value.headD 0).toNat ≠ 0) :
    ∃ ts, OtherTraffic [] ts ∧ p.Emits (sendOutPacket p packet).1 [] ts := by
  obtain ⟨ts, _, htype, husb⟩ := gusbWrite_cases p.usb
    (p.serialToUsb.get (packet.value.headD 0).toNat) (packet.value.drop 1)
    (unsignedSub packet.length.toNat 1)
  refine ⟨ts, ⟨fun _ h => absurd h List.not_mem_nil, fun t ht => ?_⟩,
    ⟨(List.append_nil _).symm, hwrites, husb, rfl⟩⟩
  obtain ⟨hendpoint, htype⟩ := htype t ht
  rw [if_neg hmapped] at htype
  exact ⟨htype, hendpoint ▸ hmapped⟩

theorem emits_sendControlPacket (hwrites : p.serial.writes = []) (packet : SPacket) :
    ∃ fs ts, ControlTraffic fs ts ∧ p.Emits (sendControlPacket p packet).1 fs ts := by
  unfold sendControlPacket
  dsimp only
  split
  · exact ⟨_, [], controlTraffic_message (Or.inr rfl) (Nat.zero_le _),
      Proxy.emits_send hwrites .eTypeControlStall []⟩
  · obtain ⟨ts, hlength, htype, husb⟩ := gusbWrite_cases p.usb 0 (translateIndex p packet).value
      (translateIndex p packet).length.toNat
    refine ⟨[], ts, ⟨?_, fun _ h => absurd h List.not_mem_nil, fun t ht => ?_⟩,
      ⟨(List.append_nil _).symm, hwrites, husb, rfl⟩⟩
    · rw [List.length_nil, Nat.zero_add]
      exact hlength
    · exact ⟨(htype t ht).2, (htype t ht).1⟩

def Proxy.OtherPacket (p : Proxy) (f : PacketFrame) : Prop :=
  f.type = PacketType.eTypeEndpoints.toByte ∨ f.type = PacketType.eTypeIn.toByte ∨
    f.type = PacketType.eTypeDebug.toByte ∨
    (f.type = PacketType.eTypeOut.toByte ∧ f.value ≠ [] ∧
      p.serialToUsb.get (f.value.headD 0).toNat ≠ 0)

instance (p : Proxy) (f : PacketFrame) : Decidable (p.OtherPacket f) :=
  inferInstanceAs (Decidable (_ ∨ _))

theorem Proxy.Emits.processPacket {packet : SPacket} {fs : List PacketFrame} {ts : List Transfer}
    (h : p.Emits (dispatchPacket p packet).1 fs ts) :
    p.Emits (processPacket p packet).1 fs ts := by
  unfold SerialUsb.processPacket
  dsimp only
  split
  · exact h.setDone
  · exact h

theorem emits_processPacket_other (hwrites : p.serial.writes = []) {packet : SPacket}
    (h : p.OtherPacket packet.frame) :
    ∃ fs ts, OtherTraffic fs ts ∧ p.Emits (processPacket p packet).1 fs ts := by
  have hdispatch : ∃ fs ts, OtherTraffic fs ts ∧ p.Emits (dispatchPacket p packet).1 fs ts := by
    rcases h with htype | htype | htype | ⟨htype, hvalue, hmapped⟩
    all_goals
      have htype' : packet.type = _ := htype
      simp only [dispatchPacket, htype', PacketType.ofByte?_toByte]
    · have htimer : p.Emits { p with initTimer := -1 } [] [] := .of_eq hwrites rfl rfl rfl
      obtain ⟨ts, hother, hpolls⟩ := emits_pollEndpoints (List.range endpointMaxNumber)
        htimer.writes
      exact ⟨[], ts, hother, htimer.trans hpolls⟩
    · exact emits_ackIn hwrites
    · exact ⟨[], [], .nil, .of_eq hwrites rfl rfl rfl⟩
    · have hhead : packet.value.headD 0 = packet.frame.value.headD 0 := by
        have hframe : packet.frame.value = packet.value.take packet.length.toNat := rfl
        rw [hframe] at hvalue ⊢
        cases hcase : packet.value with
        | nil => rw [List.take_nil]
        | cons b rest =>
            cases hlength : packet.length.toNat with
            | zero => exact absurd (by rw [hlength, List.take_zero]) hvalue
            | succ n => rfl
      obtain ⟨ts, hother, hemits⟩ := emits_sendOutPacket hwrites (hhead ▸ hmapped)
      exact ⟨[], ts, hother, hemits⟩
  obtain ⟨fs, ts, hother, hemits⟩ := hdispatch
  exact ⟨fs, ts, hother, hemits.processPacket⟩

theorem emits_processPacket_control (hwrites : p.serial.writes = []) {packet : SPacket}
    (htype : packet.type = PacketType.eTypeControl.toByte) :
    ∃ fs ts, ControlTraffic fs ts ∧ p.Emits (processPacket p packet).1 fs ts := by
  obtain ⟨fs, ts, hcontrol, hemits⟩ := emits_sendControlPacket hwrites packet
  have hdispatch : dispatchPacket p packet = sendControlPacket p packet := by
    unfold dispatchPacket
    rw [htype, PacketType.ofByte?_toByte]
  rw [← hdispatch] at hemits
  exact ⟨fs, ts, hcontrol, hemits.processPacket⟩

theorem emits_usbReadCallback_of_data (hwrites : p.serial.writes = []) {endpoint : UInt8}
    (hne : endpoint ≠ 0) (data : List UInt8) :
    ∃ fs, OtherTraffic fs [] ∧
      p.Emits (usbReadCallback p endpoint data data.length).1 fs [] := by
  have hcode : (data.length : Int) ≠ TransferStatus.error.code :=
    fun h => absurd (h ▸ Int.natCast_nonneg data.length) (by decide)
  unfold usbReadCallback
  simp only [if_neg hcode, if_neg hne, if_pos (Int.natCast_nonneg data.length)]
  split
  · exact ⟨[], .nil, .of_eq hwrites rfl rfl rfl⟩
  · have hqueue : p.Emits (queueInPacket p endpoint data).1 [] [] := by
      unfold queueInPacket
      split
      · exact .of_eq hwrites rfl rfl rfl
      · exact .of_eq hwrites rfl rfl rfl
    split
    · exact ⟨[], .nil, hqueue.setDone⟩
    · obtain ⟨fs, hother, hsend⟩ := emits_sendNextInPacket hqueue.writes
      split
      · exact ⟨fs, hother, (hqueue.trans hsend).setDone⟩
      · exact ⟨fs, hother, hqueue.trans hsend⟩

/-- The end of a transfer of another endpoint than 0 sends IN packets at most. -/
theorem emits_callCallback_interrupt (hwrites : p.serial.writes = []) {t : Transfer}
    (htype : t.type = transferTypeInterrupt) (hne : t.endpoint ≠ 0) {status : TransferStatus}
    (hstatus : status ≠ .cancelled) :
    ∃ fs, OtherTraffic fs [] ∧ p.Emits (callCallback p t status) fs [] := by
  unfold callCallback
  rw [if_neg hstatus, if_neg (by rw [htype]; decide)]
  split
  · by_cases hdata : ∃ data, status = .completed data
    · obtain ⟨data, rfl⟩ := hdata
      exact emits_usbReadCallback_of_data hwrites hne data
    · rw [usbReadCallback_of_no_data p hne fun data heq => hdata ⟨data, heq⟩]
      exact ⟨[], .nil, .of_eq hwrites rfl rfl rfl⟩
  · rw [usbWriteCallback_of_ne_zero p hne]
    exact ⟨[], .nil, .of_eq hwrites rfl rfl rfl⟩

/-- The end of a control transfer sends one reply at most. -/
theorem emits_callCallback_control (hwrites : p.serial.writes = []) {t : Transfer}
    (htype : t.type = transferTypeControl) (hzero : t.endpoint = 0) {status : TransferStatus}
    (hstatus : status ≠ .cancelled) :
    ∃ fs, ControlTraffic fs [] ∧ p.Emits (callCallback p t status) fs [] := by
  have hself : ∃ fs, ControlTraffic fs [] ∧ p.Emits p fs [] :=
    ⟨[], .nil, .of_eq hwrites rfl rfl rfl⟩
  have hsend : ∀ (type : PacketType) (data : List UInt8),
      type = .eTypeControl ∨ type = .eTypeControlStall → data.length ≤ maxPacketValueSize →
        ∃ fs, ControlTraffic fs [] ∧ p.Emits (p.send type data).1 fs [] :=
    fun type data htype hle =>
      ⟨_, controlTraffic_message htype hle, Proxy.emits_send hwrites type data⟩
  unfold callCallback
  rw [if_neg hstatus, if_pos htype, hzero]
  split
  · rw [usbReadCallback_control]
    cases status with
    | completed data =>
        dsimp only
        split
        · exact ⟨[], .nil, .of_eq hwrites rfl rfl rfl⟩
        next hle => exact hsend _ _ (Or.inl rfl) (not_lt.1 hle)
    | timedOut => exact hsend _ _ (Or.inr rfl) (Nat.zero_le _)
    | stall => exact hsend _ _ (Or.inr rfl) (Nat.zero_le _)
    | cancelled => exact hself
    | error => exact hself
  · rw [usbWriteCallback_control]
    cases status with
    | completed data =>
        dsimp only
        obtain ⟨fs, hcontrol, hemits⟩ := hsend .eTypeControl [] (Or.inl rfl) (Nat.zero_le _)
        split
        · exact ⟨fs, hcontrol, hemits.setDone⟩
        · exact ⟨fs, hcontrol, hemits⟩
    | stall =>
        dsimp only
        obtain ⟨fs, hcontrol, hemits⟩ := hsend .eTypeControlStall [] (Or.inr rfl) (Nat.zero_le _)
        split
        · exact ⟨fs, hcontrol, hemits.setDone⟩
        · exact ⟨fs, hcontrol, hemits⟩
    | timedOut => exact hself
    | cancelled => exact hself
    | error => exact hself

end Complete

end SerialUsb
