import SerialUsb.Proxy.Callbacks
import SerialUsb.Proxy.InPackets

/-!
# The sizes of the packets of the proxy

Every packet that the proxy sends behind the upload fits the buffer that the firmware reads
it to, whatever ends the transfers come to and whatever bytes are delivered to it. The queue
of IN packets is what carries this: an element of it has an endpoint and at most a payload.
-/

namespace SerialUsb

open Framing Memory

/-- A packet that carries no part of the upload and fits its buffer: `input` takes the
endpoint and the payload. -/
def RuntimeFits (f : PacketFrame) : Prop :=
  Runtime f ∧ (f.type = PacketType.eTypeIn.toByte →
    1 ≤ f.value.length ∧ f.value.length ≤ 1 + maxPayloadSizeEp)

def Transfer.Numbered (t : Transfer) : Prop :=
  if t.type = transferTypeControl then t.endpoint = 0
  else endpointIn t.endpoint = true → endpointNumber t.endpoint ≠ 0

structure Proxy.Sized (p : Proxy) : Prop where
  writes : p.serial.writes = []
  fifo : ∀ endpoint ∈ p.inEpFifo,
    1 ≤ (p.inPacket endpoint).length ∧ (p.inPacket endpoint).length ≤ 1 + maxPayloadSizeEp
  transfers : ∀ t ∈ p.usb.transfers, t.Numbered

def Proxy.Feeds (p q : Proxy) : Prop :=
  ∃ fs, p.Adds q fs ∧ (∀ f ∈ fs, RuntimeFits f) ∧ q.Sized

theorem Proxy.Feeds.sized {p q : Proxy} (h : p.Feeds q) : q.Sized := by
  obtain ⟨_, _, _, hsized⟩ := h
  exact hsized

theorem Proxy.Feeds.trans {p q r : Proxy} (h : p.Feeds q) (h' : q.Feeds r) : p.Feeds r := by
  obtain ⟨fs, hadds, hfits, _⟩ := h
  obtain ⟨gs, hadds', hfits', hsized⟩ := h'
  exact ⟨fs ++ gs, hadds.trans hadds', List.forall_mem_append.2 ⟨hfits, hfits'⟩, hsized⟩

theorem Proxy.Feeds.of_quiet {p q : Proxy} (hwrites : p.serial.writes = [])
    (hserial : q.serial = p.serial) (hdesc : q.desc = p.desc)
    (hindex : q.descIndex = p.descIndex) (hendpoints : q.endpoints = p.endpoints)
    (hisent : q.descIndexSent = p.descIndexSent) (hesent : q.endpointsSent = p.endpointsSent)
    (hsized : q.Sized) : p.Feeds q :=
  ⟨[], ⟨by rw [hserial]; simp, hserial ▸ hwrites, hdesc, hindex, hendpoints, hisent, hesent⟩,
    by simp, hsized⟩

theorem Proxy.Sized.feeds_self {p : Proxy} (h : p.Sized) : p.Feeds p :=
  .of_quiet h.writes rfl rfl rfl rfl rfl rfl h

theorem Proxy.Sized.setDone {p : Proxy} (h : p.Sized) : Proxy.Sized { p with done := true } :=
  ⟨h.writes, h.fifo, h.transfers⟩

theorem Proxy.Feeds.setDone {p q : Proxy} (h : p.Feeds q) :
    p.Feeds { q with done := true } :=
  h.trans (.of_quiet h.sized.writes rfl rfl rfl rfl rfl rfl h.sized.setDone)

section Sized

variable {p : Proxy}

theorem Proxy.Sized.feeds_send (h : p.Sized) {type : PacketType} (htype : type.isRuntime = true)
    (hne : type ≠ .eTypeIn) (data : List UInt8) : p.Feeds (p.send type data).1 := by
  refine ⟨packets type data, p.adds_send h.writes type data, fun f hf => ?_,
    (p.adds_send h.writes type data).writes, h.fifo, h.transfers⟩
  have hbyte := type_of_mem_packets hf
  refine ⟨⟨type, htype, hbyte⟩, fun hin => ?_⟩
  exact absurd (PacketType.toByte_injective (hbyte.symm.trans hin)) hne

theorem InPacket.length_sent {packet : InPacket} (h : packet.length ≤ 1 + maxPayloadSizeEp) :
    packet.sent.length = packet.length := by
  rw [InPacket.sent, List.length_take, List.length_cons, Vector.length_toList]
  omega

theorem Proxy.Sized.feeds_sendNextInPacket (h : p.Sized) : p.Feeds (sendNextInPacket p).1 := by
  unfold sendNextInPacket
  split
  · exact h.feeds_self
  · cases hfifo : p.inEpFifo with
    | nil => exact h.feeds_self
    | cons endpoint rest =>
        have hall := h.fifo
        rw [hfifo, List.forall_mem_cons] at hall
        obtain ⟨⟨hpos, hle⟩, hrest⟩ := hall
        have hlength := InPacket.length_sent hle
        have hshort : (p.inPacket endpoint).sent.length ≤ maxPacketValueSize := by
          rw [hlength]
          exact hle.trans (by decide)
        have hsent : p.Feeds (p.send .eTypeIn (p.inPacket endpoint).sent).1 := by
          have hadds := p.adds_send h.writes .eTypeIn (p.inPacket endpoint).sent
          rw [packets_of_le hshort] at hadds
          refine ⟨_, hadds, fun f hf => ?_, hadds.writes, h.fifo, h.transfers⟩
          rw [List.mem_singleton.1 hf]
          exact ⟨⟨.eTypeIn, rfl, rfl⟩, fun _ => ⟨hlength ▸ hpos, hlength ▸ hle⟩⟩
        dsimp only
        split
        · exact hsent
        · exact hsent.trans
            (.of_quiet hsent.sized.writes rfl rfl rfl rfl rfl rfl
              ⟨hsent.sized.writes, hrest, h.transfers⟩)

theorem Proxy.Sized.feeds_queueInPacket (h : p.Sized) {endpoint : UInt8}
    (hnumber : endpointNumber endpoint ≠ 0) {buf : List UInt8}
    (hle : buf.length ≤ maxPayloadSizeEp) : p.Feeds (queueInPacket p endpoint buf).1 := by
  unfold queueInPacket
  split
  · exact h.feeds_self
  · refine .of_quiet h.writes rfl rfl rfl rfl rfl rfl ⟨h.writes, fun o ho => ?_, h.transfers⟩
    rw [inPacket_setIfInBounds hnumber]
    split
    · exact ⟨Nat.le_add_left 1 _, by dsimp only; omega⟩
    next hother =>
      rcases List.mem_append.1 ho with hmem | hmem
      · exact h.fifo o hmem
      · rw [List.mem_singleton.1 hmem] at hother
        exact absurd rfl hother

theorem Proxy.Sized.append {usb : Usb} (h : p.Sized) {ts : List Transfer}
    (husb : usb.transfers = p.usb.transfers ++ ts) (hts : ∀ t ∈ ts, t.Numbered) :
    Proxy.Sized { p with usb := usb } := by
  refine ⟨h.writes, h.fifo, fun t ht => ?_⟩
  rw [husb] at ht
  exact List.forall_mem_append.2 ⟨h.transfers, hts⟩ t ht

theorem Proxy.Sized.feeds_poll (h : p.Sized) (endpoint : UInt8) :
    p.Feeds (p.poll endpoint).1 := by
  refine .of_quiet h.writes rfl rfl rfl rfl rfl rfl ?_
  rcases gusbPoll_cases p.usb endpoint with ⟨t, hendpoint, hvalid, husb, _⟩ | ⟨husb, _⟩
  · refine h.append husb fun t' ht' => ?_
    rw [List.mem_singleton.1 ht', Transfer.Numbered]
    have hnumber : endpointNumber t.endpoint ≠ 0 := by
      intro hzero
      have hnone : gusbPoll p.usb endpoint = (p.usb, -1) := by
        rw [← hendpoint]
        simp [gusbPoll, getEndpoint, hzero]
      rw [hnone] at husb
      exact absurd husb (by simp)
    split
    next htype =>
      rcases hvalid with ⟨_, hzero⟩ | ⟨hinterrupt, _⟩
      · exact hzero
      · rw [hinterrupt] at htype
        exact absurd htype (by decide)
    next => exact fun _ => hnumber
  · exact h.append (husb.trans (List.append_nil _).symm) (by simp)

theorem Proxy.Sized.feeds_gusbWrite (h : p.Sized) (endpoint : UInt8) (buf : List UInt8)
    (count : ℕ) : Proxy.Sized { p with usb := (gusbWrite p.usb endpoint buf count).1 } := by
  unfold gusbWrite
  by_cases hinvalid : endpoint ≠ 0 ∧ getEndpoint p.usb endpoint false = none
  · rw [if_pos hinvalid]
    exact ⟨h.writes, h.fifo, h.transfers⟩
  · rw [if_neg hinvalid]
    dsimp only
    have hnumbered : ∀ (data : List UInt8) (n : ℕ), Transfer.Numbered ⟨endpoint,
        if endpoint = 0 then transferTypeControl else transferTypeInterrupt, data, n⟩ := by
      intro data n
      unfold Transfer.Numbered
      by_cases hzero : endpoint = 0
      · simp [hzero]
      · simp only [hzero, if_false]
        rw [if_neg (by decide)]
        intro hin
        exfalso
        refine hinvalid ⟨hzero, ?_⟩
        simp [getEndpoint, hin]
    rcases submitTransfer_cases p.usb ⟨endpoint,
      if endpoint = 0 then transferTypeControl else transferTypeInterrupt,
      buf.take (writeCount endpoint buf count), writeCount endpoint buf count⟩ with husb | husb
    · refine h.append husb.1 fun t ht => ?_
      rw [List.mem_singleton.1 ht]
      exact hnumbered _ _
    · exact h.append (husb.1.trans (List.append_nil _).symm) (by simp)

theorem Proxy.Sized.feeds_pollEndpoints (h : p.Sized) (is : List ℕ) :
    p.Feeds (pollEndpoints p is).1 := by
  induction is generalizing p with
  | nil => exact h.feeds_self
  | cons i is ih =>
      have hpoll := h.feeds_poll (p.serialToUsb.get (0x80 ||| i))
      rw [pollEndpoints]
      dsimp only
      split
      · split
        · exact hpoll
        · exact hpoll.trans (ih hpoll.sized)
      · exact ih h

theorem Proxy.Sized.feeds_ackIn (h : p.Sized) : p.Feeds (ackIn p).1 := by
  have hpoll := h.feeds_poll p.inPending
  have hpolled : p.Feeds { (p.poll p.inPending).1 with inPending := 0 } :=
    hpoll.trans (.of_quiet hpoll.sized.writes rfl rfl rfl rfl rfl rfl
      ⟨hpoll.sized.writes, hpoll.sized.fifo, hpoll.sized.transfers⟩)
  unfold ackIn
  dsimp only
  split
  · split
    · exact hpolled.trans hpolled.sized.feeds_sendNextInPacket
    · exact hpolled
  · exact h.feeds_self

theorem Proxy.Sized.feeds_sendControlPacket (h : p.Sized) (packet : SPacket) :
    p.Feeds (sendControlPacket p packet).1 := by
  unfold sendControlPacket
  dsimp only
  split
  · exact h.feeds_send rfl (by decide) []
  · exact .of_quiet h.writes rfl rfl rfl rfl rfl rfl (h.feeds_gusbWrite 0 _ _)

theorem Proxy.Sized.feeds_sendOutPacket (h : p.Sized) (packet : SPacket) :
    p.Feeds (sendOutPacket p packet).1 := by
  have hwrite := h.feeds_gusbWrite (p.serialToUsb.get (packet.value.headD 0).toNat)
    (packet.value.drop 1) (unsignedSub packet.length.toNat 1)
  exact .of_quiet h.writes rfl rfl rfl rfl rfl rfl ⟨hwrite.writes, hwrite.fifo, hwrite.transfers⟩

/-- Only the first two acknowledgements of the start are left out. -/
theorem Proxy.Sized.feeds_processPacket (h : p.Sized) {packet : SPacket}
    (hd : packet.type ≠ PacketType.eTypeDescriptors.toByte)
    (hi : packet.type ≠ PacketType.eTypeIndex.toByte) :
    p.Feeds (processPacket p packet).1 := by
  have hdispatch : p.Feeds (dispatchPacket p packet).1 := by
    unfold dispatchPacket
    cases htype : PacketType.ofByte? packet.type with
    | none => exact h.feeds_self
    | some t =>
        have hbyte := PacketType.eq_toByte_of_ofByte? htype
        cases t with
        | eTypeDescriptors => exact absurd hbyte hd
        | eTypeIndex => exact absurd hbyte hi
        | eTypeEndpoints =>
            have htimer : Proxy.Sized { p with initTimer := -1 } :=
              ⟨h.writes, h.fifo, h.transfers⟩
            have hclosed : p.Feeds { p with initTimer := -1 } :=
              .of_quiet h.writes rfl rfl rfl rfl rfl rfl htimer
            exact hclosed.trans (htimer.feeds_pollEndpoints _)
        | eTypeReset => exact h.feeds_self
        | eTypeControl => exact h.feeds_sendControlPacket packet
        | eTypeControlStall => exact h.feeds_self
        | eTypeIn => exact h.feeds_ackIn
        | eTypeOut => exact h.feeds_sendOutPacket packet
        | eTypeDebug => exact h.feeds_self
  unfold processPacket
  dsimp only
  split
  · exact hdispatch.setDone
  · exact hdispatch

/-- Data that is longer than a payload ends the proxy before it is queued. -/
theorem Proxy.Sized.feeds_usbReadCallback (h : p.Sized) {endpoint : UInt8}
    (hnumber : endpoint ≠ 0 → endpointNumber endpoint ≠ 0) (status : TransferStatus) :
    p.Feeds (usbReadCallback p endpoint status.data status.code).1 := by
  unfold usbReadCallback
  by_cases herror : status.code = TransferStatus.error.code
  · rw [if_pos herror]
    exact h.feeds_self
  rw [if_neg herror]
  by_cases hzero : endpoint = 0
  · rw [if_pos hzero]
    split
    · exact h.feeds_self.setDone
    · have hcontrol := h.feeds_send rfl (by decide : PacketType.eTypeControl ≠ .eTypeIn)
        status.data
      have hstall := h.feeds_send rfl (by decide : PacketType.eTypeControlStall ≠ .eTypeIn) []
      by_cases hstatus : 0 ≤ status.code
      · simp only [if_pos hstatus]
        split <;> exact hcontrol
      · simp only [if_neg hstatus]
        split <;> exact hstall
  rw [if_neg hzero]
  split
  · exact h.feeds_self.setDone
  next hshort =>
    split
    next hstatus =>
      have hle : status.data.length ≤ maxPayloadSizeEp := by
        cases status with
        | completed data => exact Int.ofNat_le.1 (not_lt.1 hshort)
        | _ => exact absurd hstatus (by decide)
      have hqueue := h.feeds_queueInPacket (hnumber hzero) hle
      have hnext := hqueue.trans hqueue.sized.feeds_sendNextInPacket
      dsimp only
      split
      · exact hqueue.setDone
      · split
        · exact hnext.setDone
        · exact hnext
    next => exact h.feeds_self

theorem Proxy.Sized.feeds_usbWriteCallback (h : p.Sized) (endpoint : UInt8) (status : Int) :
    p.Feeds (usbWriteCallback p endpoint status).1 := by
  have hcontrol := h.feeds_send rfl (by decide : PacketType.eTypeControl ≠ .eTypeIn) []
  have hstall := h.feeds_send rfl (by decide : PacketType.eTypeControlStall ≠ .eTypeIn) []
  unfold usbWriteCallback
  dsimp only
  split
  · exact h.feeds_self
  split
  · split
    · split
      · exact hstall.setDone
      · exact hstall
    · exact h.feeds_self
  split
  · exact h.feeds_self
  split
  · split
    · exact hcontrol.setDone
    · exact hcontrol
  · exact h.feeds_self

/-- Whatever a transfer of the table ends with, what the callbacks send fits. -/
theorem Proxy.Sized.feeds_usbCallback {q : Proxy} (h : p.Sized) {i : ℕ} {status : TransferStatus}
    (hq : usbCallback p i status = some q) : p.Feeds q := by
  obtain ⟨t, ht, rfl⟩ := Option.map_eq_some_iff.1 hq
  have hnumbered := h.transfers t (List.mem_of_getElem? ht)
  unfold Transfer.Numbered at hnumbered
  have hcall : p.Feeds (callCallback p t status) := by
    unfold callCallback
    split
    · exact h.feeds_self
    split
    next htype =>
      rw [if_pos htype] at hnumbered
      split
      · exact h.feeds_usbReadCallback (fun hne => absurd hnumbered hne) status
      · exact h.feeds_usbWriteCallback _ _
    next htype =>
      rw [if_neg htype] at hnumbered
      split
      next hin => exact h.feeds_usbReadCallback (fun _ => hnumbered hin) status
      next => exact h.feeds_usbWriteCallback _ _
  have hsized := hcall.sized
  exact hcall.trans (.of_quiet hsized.writes rfl rfl rfl rfl rfl rfl
    ⟨hsized.writes, hsized.fifo, fun t' ht' => hsized.transfers t' (List.mem_of_mem_eraseIdx ht')⟩)

end Sized

end SerialUsb
