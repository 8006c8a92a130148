import SerialUsb.Proxy.Process

/-!
# What the loop of the proxy sends

Every function that the proxy calls in its loop changes the serial line by calls of
`adapter_send` alone, and none of them sends a reset. A property of the line that these calls
keep is kept by `process_packet` and by the end of any transfer, whatever the writes return.
The end of a transfer sends packets of three types.
-/

namespace SerialUsb

/-- The types of the packets that the end of a transfer sends. -/
def PacketType.isSentByTransfer : PacketType → Bool
  | .eTypeControl | .eTypeControlStall | .eTypeIn => true
  | _ => false

/-- The types of the packets that are sent in the loop. -/
def PacketType.isSentInLoop : PacketType → Bool
  | .eTypeIndex | .eTypeEndpoints => true
  | type => type.isSentByTransfer

/-- A property of the proxy that depends on the line alone, and that packets of these types
keep. -/
structure KeptBySending (sends : PacketType → Bool) (P : Proxy → Prop) : Prop where
  send : ∀ type : PacketType, sends type = true → ∀ {p : Proxy} (data : List UInt8), P p →
    P (p.send type data).1
  congr : ∀ {p q : Proxy}, P p → q.serial = p.serial → P q

section Kept

variable {P : Proxy → Prop} {p : Proxy}

theorem KeptBySending.byTransfer (h : KeptBySending PacketType.isSentInLoop P) :
    KeptBySending PacketType.isSentByTransfer P where
  send := by
    intro type htype
    refine h.send type ?_
    cases type <;> first | rfl | exact htype
  congr := h.congr

section Transfer

variable (h : KeptBySending PacketType.isSentByTransfer P) (hp : P p)
include h hp

theorem KeptBySending.sendNextInPacket :
    P (sendNextInPacket p).1 := by
  unfold SerialUsb.sendNextInPacket
  split
  · exact hp
  · cases hfifo : p.inEpFifo with
    | nil => exact hp
    | cons endpoint rest =>
        have hsend := h.send .eTypeIn rfl (p.inPacket endpoint).sent hp
        dsimp only
        split
        · exact hsend
        · exact h.congr hsend rfl

theorem KeptBySending.queueInPacket (endpoint : UInt8)
    (buf : List UInt8) : P (queueInPacket p endpoint buf).1 := by
  unfold SerialUsb.queueInPacket
  split
  · exact hp
  · exact h.congr hp rfl

theorem KeptBySending.usbReadCallback (endpoint : UInt8)
    (buf : List UInt8) (status : Int) : P (usbReadCallback p endpoint buf status).1 := by
  have hcontrol := h.send .eTypeControl rfl buf hp
  have hstall := h.send .eTypeControlStall rfl [] hp
  have hqueue := h.queueInPacket hp endpoint buf
  have hnext := h.sendNextInPacket hqueue
  unfold SerialUsb.usbReadCallback
  by_cases herror : status = TransferStatus.error.code
  · rw [if_pos herror]
    exact hp
  rw [if_neg herror]
  by_cases hzero : endpoint = 0
  · rw [if_pos hzero]
    split
    · exact h.congr hp rfl
    · by_cases hstatus : 0 ≤ status
      · simp only [if_pos hstatus]
        split <;> exact hcontrol
      · simp only [if_neg hstatus]
        split <;> exact hstall
  · rw [if_neg hzero]
    split
    · exact h.congr hp rfl
    split
    · dsimp only
      split
      · exact h.congr hqueue rfl
      · split
        · exact h.congr hnext rfl
        · exact hnext
    · exact hp

theorem KeptBySending.usbWriteCallback (endpoint : UInt8)
    (status : Int) : P (usbWriteCallback p endpoint status).1 := by
  have hcontrol := h.send .eTypeControl rfl [] hp
  have hstall := h.send .eTypeControlStall rfl [] hp
  unfold SerialUsb.usbWriteCallback
  dsimp only
  split
  · exact hp
  split
  · split
    · split
      · exact h.congr hstall rfl
      · exact hstall
    · exact hp
  split
  · exact hp
  split
  · split
    · exact h.congr hcontrol rfl
    · exact hcontrol
  · exact hp

theorem KeptBySending.usbCallback {q : Proxy} {i : ℕ}
    {status : TransferStatus} (hq : usbCallback p i status = some q) : P q := by
  obtain ⟨transfer, _, rfl⟩ := Option.map_eq_some_iff.1 hq
  have hcall : P (callCallback p transfer status) := by
    have hread := h.usbReadCallback hp transfer.endpoint status.data status.code
    have hwrite := h.usbWriteCallback hp transfer.endpoint status.code
    unfold callCallback
    split
    · exact hp
    · split
      · split
        · exact hread
        · exact hwrite
      · split
        · exact hread
        · exact hwrite
  exact h.congr hcall rfl

end Transfer

theorem KeptBySending.pollEndpoints (h : KeptBySending PacketType.isSentInLoop P) (hp : P p)
    (is : List ℕ) : P (pollEndpoints p is).1 := by
  induction is generalizing p with
  | nil => exact hp
  | cons i is ih =>
      have hpoll : P (p.poll (p.serialToUsb.get (0x80 ||| i))).1 := h.congr hp rfl
      rw [SerialUsb.pollEndpoints]
      dsimp only
      split
      · split
        · exact hpoll
        · exact ih hpoll
      · exact ih hp

theorem KeptBySending.processPacket (h : KeptBySending PacketType.isSentInLoop P) (hp : P p)
    (packet : SPacket) : P (processPacket p packet).1 := by
  have hdispatch : P (dispatchPacket p packet).1 := by
    unfold dispatchPacket
    cases PacketType.ofByte? packet.type with
    | none => exact hp
    | some type =>
        cases type with
        | eTypeDescriptors =>
            dsimp only [sendIndex]
            split
            · exact hp
            · exact h.send _ rfl _ (h.congr hp rfl)
        | eTypeIndex =>
            dsimp only [sendEndpoints]
            split
            · exact hp
            · exact h.send _ rfl _ (h.congr hp rfl)
        | eTypeEndpoints =>
            have htimer : P { p with initTimer := -1 } := h.congr hp rfl
            exact h.pollEndpoints htimer _
        | eTypeReset => exact hp
        | eTypeControl =>
            dsimp only [sendControlPacket]
            split
            · exact h.send _ rfl [] hp
            · exact h.congr hp rfl
        | eTypeControlStall => exact hp
        | eTypeIn =>
            have hpoll : P { (p.poll p.inPending).1 with inPending := 0 } := h.congr hp rfl
            dsimp only [ackIn]
            split
            · split
              · exact h.byTransfer.sendNextInPacket hpoll
              · exact hpoll
            · exact hp
        | eTypeOut => exact h.congr hp rfl
        | eTypeDebug => exact hp
  unfold SerialUsb.processPacket
  dsimp only
  split
  · exact h.congr hdispatch rfl
  · exact hdispatch

end Kept

end SerialUsb
