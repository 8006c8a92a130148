import SerialUsb.Proxy.Process

/-!
# What the proxy puts on the serial line

With complete writes every step of the proxy adds whole packets to the line.
`Proxy.Adds p q fs` says that the step from `p` to `q` adds the packets `fs`
and leaves what is uploaded at the start as it is. The index and the endpoints
are only added on the first acknowledgement; everything else adds packets that
carry no part of the upload.
-/

namespace SerialUsb

open Framing Memory

def packets (type : PacketType) (data : List UInt8) : List PacketFrame :=
  message maxPacketValueSize type.toByte data

theorem type_of_mem_packets {type : PacketType} {data : List UInt8} {f : PacketFrame}
    (h : f ∈ packets type data) : f.type = type.toByte :=
  type_of_mem_message h

theorem flatMap_value_packets (type : PacketType) (data : List UInt8) :
    (packets type data).flatMap Frame.value = data :=
  flatMap_value_message (by decide) type.toByte data

theorem packets_of_le {type : PacketType} {data : List UInt8}
    (h : data.length ≤ maxPacketValueSize) : packets type data = [⟨type.toByte, data, h⟩] :=
  message_of_le h

theorem Proxy.send_of_complete {p : Proxy} (h : p.serial.writes = []) (type : PacketType)
    (data : List UInt8) :
    p.send type data =
      ({ p with serial :=
          ⟨p.serial.line ++ (packets type data).flatMap Frame.encode, []⟩ }, 0) := by
  unfold Proxy.send
  rw [adapterSend_of_complete h]
  rfl

/-- The step from `p` to `q` adds the packets `fs` to the line and does not
touch the tables that are uploaded. -/
structure Proxy.Adds (p q : Proxy) (fs : List PacketFrame) : Prop where
  line : q.serial.line = p.serial.line ++ fs.flatMap Frame.encode
  writes : q.serial.writes = []
  desc : q.desc = p.desc
  descIndex : q.descIndex = p.descIndex
  endpoints : q.endpoints = p.endpoints
  descIndexSent : q.descIndexSent = p.descIndexSent
  endpointsSent : q.endpointsSent = p.endpointsSent

theorem Proxy.Adds.refl {p : Proxy} (h : p.serial.writes = []) : p.Adds p [] :=
  ⟨by simp, h, rfl, rfl, rfl, rfl, rfl⟩

theorem Proxy.Adds.trans {p q r : Proxy} {fs gs : List PacketFrame} (h : p.Adds q fs)
    (h' : q.Adds r gs) : p.Adds r (fs ++ gs) where
  line := by rw [h'.line, h.line, List.append_assoc, List.flatMap_append]
  writes := h'.writes
  desc := h'.desc.trans h.desc
  descIndex := h'.descIndex.trans h.descIndex
  endpoints := h'.endpoints.trans h.endpoints
  descIndexSent := h'.descIndexSent.trans h.descIndexSent
  endpointsSent := h'.endpointsSent.trans h.endpointsSent

theorem Proxy.adds_send {p : Proxy} (h : p.serial.writes = []) (type : PacketType)
    (data : List UInt8) : p.Adds (p.send type data).1 (packets type data) := by
  rw [Proxy.send_of_complete h]
  exact ⟨rfl, rfl, rfl, rfl, rfl, rfl, rfl⟩

def PacketType.isRuntime : PacketType → Bool
  | .eTypeReset | .eTypeControl | .eTypeControlStall | .eTypeIn => true
  | _ => false

def Runtime (f : PacketFrame) : Prop :=
  ∃ t : PacketType, t.isRuntime = true ∧ f.type = t.toByte

def Proxy.AddsRuntime (p q : Proxy) : Prop :=
  ∃ fs, p.Adds q fs ∧ ∀ f ∈ fs, Runtime f

theorem Proxy.AddsRuntime.refl {p : Proxy} (h : p.serial.writes = []) : p.AddsRuntime p :=
  ⟨[], .refl h, by simp⟩

theorem Proxy.AddsRuntime.trans {p q r : Proxy} (h : p.AddsRuntime q)
    (h' : q.AddsRuntime r) : p.AddsRuntime r := by
  obtain ⟨fs, hfs, hruntime⟩ := h
  obtain ⟨gs, hgs, hruntime'⟩ := h'
  refine ⟨fs ++ gs, hfs.trans hgs, ?_⟩
  intro f hf
  rcases List.mem_append.1 hf with hf | hf
  · exact hruntime f hf
  · exact hruntime' f hf

theorem Proxy.AddsRuntime.writes {p q : Proxy} (h : p.AddsRuntime q) :
    q.serial.writes = [] := by
  obtain ⟨fs, hfs, _⟩ := h
  exact hfs.writes

theorem Proxy.AddsRuntime.of_eq {p q : Proxy} (h : p.serial.writes = [])
    (hserial : q.serial = p.serial) (hdesc : q.desc = p.desc)
    (hindex : q.descIndex = p.descIndex) (hendpoints : q.endpoints = p.endpoints)
    (hisent : q.descIndexSent = p.descIndexSent)
    (hesent : q.endpointsSent = p.endpointsSent) : p.AddsRuntime q :=
  ⟨[], ⟨by rw [hserial]; simp, hserial ▸ h, hdesc, hindex, hendpoints, hisent, hesent⟩,
    by simp⟩

theorem Proxy.addsRuntime_send {p : Proxy} (h : p.serial.writes = [])
    {type : PacketType} (htype : type.isRuntime = true) (data : List UInt8) :
    p.AddsRuntime (p.send type data).1 :=
  ⟨_, p.adds_send h type data, fun _ hf => ⟨type, htype, type_of_mem_packets hf⟩⟩

theorem addsRuntime_sendNextInPacket {p : Proxy} (h : p.serial.writes = []) :
    p.AddsRuntime (sendNextInPacket p).1 := by
  unfold sendNextInPacket
  split
  · exact .refl h
  · cases hfifo : p.inEpFifo with
    | nil => exact .refl h
    | cons endpoint rest =>
        have hsend : p.AddsRuntime (p.send .eTypeIn (p.inPacket endpoint).sent).1 :=
          p.addsRuntime_send h rfl _
        simp only [Proxy.send_of_complete h] at hsend ⊢
        exact hsend.trans (.of_eq rfl rfl rfl rfl rfl rfl rfl)

theorem addsRuntime_queueInPacket {p : Proxy} (h : p.serial.writes = [])
    (endpoint : UInt8) (buf : List UInt8) :
    p.AddsRuntime (queueInPacket p endpoint buf).1 := by
  unfold queueInPacket
  split
  · exact .refl h
  · exact .of_eq h rfl rfl rfl rfl rfl rfl

theorem addsRuntime_poll {p : Proxy} (h : p.serial.writes = []) (endpoint : UInt8) :
    p.AddsRuntime (p.poll endpoint).1 :=
  .of_eq h rfl rfl rfl rfl rfl rfl

theorem addsRuntime_usbReadCallback {p : Proxy} (h : p.serial.writes = [])
    (endpoint : UInt8) (buf : List UInt8) (status : Int) :
    p.AddsRuntime (usbReadCallback p endpoint buf status).1 := by
  have hdone : ∀ q : Proxy, p.AddsRuntime q → p.AddsRuntime { q with done := true } :=
    fun q hq => hq.trans (.of_eq hq.writes rfl rfl rfl rfl rfl rfl)
  have hcontrol : p.AddsRuntime (p.send .eTypeControl buf).1 := p.addsRuntime_send h rfl buf
  have hstall : p.AddsRuntime (p.send .eTypeControlStall []).1 := p.addsRuntime_send h rfl []
  have hqueue := addsRuntime_queueInPacket h endpoint buf
  have hnext := hqueue.trans (addsRuntime_sendNextInPacket hqueue.writes)
  unfold usbReadCallback
  by_cases herror : status = TransferStatus.error.code
  · rw [if_pos herror]
    exact .refl h
  rw [if_neg herror]
  by_cases hzero : endpoint = 0
  · rw [if_pos hzero]
    split
    · exact hdone p (.refl h)
    · by_cases hstatus : 0 ≤ status
      · simp only [if_pos hstatus]
        split <;> exact hcontrol
      · simp only [if_neg hstatus]
        split <;> exact hstall
  · rw [if_neg hzero]
    split
    · exact hdone p (.refl h)
    split
    · dsimp only
      split
      · exact hdone _ hqueue
      · split
        · exact hdone _ hnext
        · exact hnext
    · exact .refl h

theorem addsRuntime_usbWriteCallback {p : Proxy} (h : p.serial.writes = [])
    (endpoint : UInt8) (status : Int) :
    p.AddsRuntime (usbWriteCallback p endpoint status).1 := by
  have hcontrol : p.AddsRuntime (p.send .eTypeControl []).1 := p.addsRuntime_send h rfl []
  have hstall : p.AddsRuntime (p.send .eTypeControlStall []).1 := p.addsRuntime_send h rfl []
  unfold usbWriteCallback
  simp only [Proxy.send_of_complete h] at hcontrol hstall ⊢
  repeat' split
  all_goals first | exact .refl h | exact hcontrol | exact hstall | omega

theorem addsRuntime_callCallback {p : Proxy} (h : p.serial.writes = [])
    (transfer : Transfer) (status : TransferStatus) :
    p.AddsRuntime (callCallback p transfer status) := by
  have hread := addsRuntime_usbReadCallback h transfer.endpoint status.data status.code
  have hwrite := addsRuntime_usbWriteCallback h transfer.endpoint status.code
  unfold callCallback
  repeat' split
  all_goals first | exact .refl h | exact hread | exact hwrite

theorem addsRuntime_usbCallback {p q : Proxy} {i : ℕ} {status : TransferStatus}
    (h : p.serial.writes = []) (hq : usbCallback p i status = some q) :
    p.AddsRuntime q := by
  obtain ⟨transfer, _, rfl⟩ := Option.map_eq_some_iff.1 hq
  have hcall := addsRuntime_callCallback h transfer status
  exact hcall.trans (.of_eq hcall.writes rfl rfl rfl rfl rfl rfl)

theorem addsRuntime_pollEndpoints {p : Proxy} (h : p.serial.writes = []) (is : List ℕ) :
    p.AddsRuntime (pollEndpoints p is).1 := by
  induction is generalizing p with
  | nil => exact .refl h
  | cons i is ih =>
      have hpoll := addsRuntime_poll h (p.serialToUsb.get (0x80 ||| i))
      rw [pollEndpoints]
      dsimp only
      split
      · split
        · exact hpoll
        · exact hpoll.trans (ih hpoll.writes)
      · exact ih h

theorem addsRuntime_ackIn {p : Proxy} (h : p.serial.writes = []) :
    p.AddsRuntime (ackIn p).1 := by
  have hpoll : p.AddsRuntime { (p.poll p.inPending).1 with inPending := 0 } :=
    .of_eq h rfl rfl rfl rfl rfl rfl
  unfold ackIn
  dsimp only
  split
  · split
    · exact hpoll.trans (addsRuntime_sendNextInPacket hpoll.writes)
    · exact hpoll
  · exact .refl h

theorem addsRuntime_sendControlPacket {p : Proxy} (h : p.serial.writes = [])
    (packet : SPacket) : p.AddsRuntime (sendControlPacket p packet).1 := by
  unfold sendControlPacket
  dsimp only
  split
  · exact p.addsRuntime_send h rfl []
  · exact .of_eq h rfl rfl rfl rfl rfl rfl

/-- Only the first two acknowledgements of the start make the proxy send a part
of the upload. -/
theorem addsRuntime_processPacket {p : Proxy} (h : p.serial.writes = [])
    {packet : SPacket} (hd : packet.type ≠ PacketType.eTypeDescriptors.toByte)
    (hi : packet.type ≠ PacketType.eTypeIndex.toByte) :
    p.AddsRuntime (processPacket p packet).1 := by
  have hdispatch : p.AddsRuntime (dispatchPacket p packet).1 := by
    unfold dispatchPacket
    cases htype : PacketType.ofByte? packet.type with
    | none => exact .refl h
    | some t =>
        have hbyte := PacketType.eq_toByte_of_ofByte? htype
        cases t with
        | eTypeDescriptors => exact absurd hbyte hd
        | eTypeIndex => exact absurd hbyte hi
        | eTypeEndpoints =>
            have htimer : p.AddsRuntime { p with initTimer := -1 } :=
              .of_eq h rfl rfl rfl rfl rfl rfl
            exact htimer.trans (addsRuntime_pollEndpoints htimer.writes _)
        | eTypeReset => exact .refl h
        | eTypeControl => exact addsRuntime_sendControlPacket h packet
        | eTypeControlStall => exact .refl h
        | eTypeIn => exact addsRuntime_ackIn h
        | eTypeOut => exact .of_eq h rfl rfl rfl rfl rfl rfl
        | eTypeDebug => exact .refl h
  unfold processPacket
  dsimp only
  split
  · exact hdispatch.trans (.of_eq hdispatch.writes rfl rfl rfl rfl rfl rfl)
  · exact hdispatch

theorem processPacket_descriptors {p : Proxy} (h : p.serial.writes = []) {packet : SPacket}
    (htype : packet.type = PacketType.eTypeDescriptors.toByte) :
    (processPacket p packet).1 =
      if p.descIndexSent = true then p
      else { p with
        descIndexSent := true
        serial := ⟨p.serial.line ++ (packets .eTypeIndex
          (p.descIndex.flatMap DescriptorIndex.bytes)).flatMap Frame.encode, []⟩ } := by
  have hsend := Proxy.send_of_complete (p := { p with descIndexSent := true }) h .eTypeIndex
    (p.descIndex.flatMap DescriptorIndex.bytes)
  simp only [processPacket, dispatchPacket, htype, PacketType.ofByte?_toByte, sendIndex, hsend]
  cases p.descIndexSent <;> rfl

theorem processPacket_index {p : Proxy} (h : p.serial.writes = []) {packet : SPacket}
    (htype : packet.type = PacketType.eTypeIndex.toByte) :
    (processPacket p packet).1 =
      if p.endpointsSent = true then p
      else { p with
        endpointsSent := true
        serial := ⟨p.serial.line ++ (packets .eTypeEndpoints
          (p.endpoints.flatMap EndpointConfig.bytes)).flatMap Frame.encode, []⟩ } := by
  have hsend := Proxy.send_of_complete (p := { p with endpointsSent := true }) h
    .eTypeEndpoints (p.endpoints.flatMap EndpointConfig.bytes)
  simp only [processPacket, dispatchPacket, htype, PacketType.ofByte?_toByte, sendEndpoints,
    hsend]
  cases p.endpointsSent <;> rfl

end SerialUsb
