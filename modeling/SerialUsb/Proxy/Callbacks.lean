import SerialUsb.Proxy.Served

/-!
# The end of a transfer

What the callbacks make of each status. The end of an IN transfer with data puts the
packet into the queue, any other end does nothing for its endpoint. The end of a
control transfer sends one packet, none, or a part of one: `answered_iff` says when
the proxy has sent a whole reply or has set `done`.
-/

namespace SerialUsb

open Framing Memory

def TransferStatus.replyType : TransferStatus → PacketType
  | .completed _ => .eTypeControl
  | _ => .eTypeControlStall

/-- Exactly one packet that ends a control request. -/
def IsReply (bytes : List UInt8) : Prop :=
  ∃ f : PacketFrame, bytes = f.encode ∧
    (f.type = PacketType.eTypeControl.toByte ∨ f.type = PacketType.eTypeControlStall.toByte)

theorem Proxy.line_send (p : Proxy) (type : PacketType) {data : List UInt8}
    (h : data.length ≤ maxPacketValueSize) :
    (p.send type data).1.serial.line =
      p.serial.line ++ p.serial.nextWrite.accepted (Frame.encode ⟨type.toByte, data, h⟩) := by
  rw [← gserialWrite_line, ← congrArg Prod.fst (adapterSend_of_le p.serial type h)]
  rfl

theorem Proxy.send_neg_iff (p : Proxy) (type : PacketType) {data : List UInt8}
    (h : data.length ≤ maxPacketValueSize) :
    (p.send type data).2 < 0 ↔ p.serial.nextWrite = .error := by
  rw [← gserialWrite_neg_iff p.serial (Frame.encode ⟨type.toByte, data, h⟩)]
  have hret : (p.send type data).2 = (adapterSend p.serial type data).2 := rfl
  rw [hret, congrArg Prod.snd (adapterSend_of_le p.serial type h)]
  by_cases hneg : (gserialWrite p.serial (Frame.encode ⟨type.toByte, data, h⟩)).2 < 0
  · simp [hneg]
  · simp [hneg]

/-- A reply that is sent is on the line when the `write` is complete. -/
theorem Proxy.isReply_send_iff (p : Proxy) (status : TransferStatus) {data : List UInt8}
    (h : data.length ≤ maxPacketValueSize) :
    IsReply ((p.send status.replyType data).1.serial.line.drop p.serial.line.length) ↔
      p.serial.nextWrite = .complete := by
  rw [p.line_send status.replyType h, List.drop_left]
  constructor
  · rintro ⟨g, hg, _⟩
    exact (WriteResult.accepted_eq_encode_iff _ _).1 ⟨g, hg⟩
  · intro hcomplete
    rw [hcomplete]
    refine ⟨_, rfl, ?_⟩
    cases status with
    | completed data => exact Or.inl rfl
    | timedOut => exact Or.inr rfl
    | stall => exact Or.inr rfl
    | cancelled => exact Or.inr rfl
    | error => exact Or.inr rfl

theorem code_completed_ne (data : List UInt8) {n : Int} (h : n < 0) :
    (TransferStatus.completed data).code ≠ n :=
  fun heq => absurd (heq ▸ Int.natCast_nonneg data.length) (not_le.2 h)

theorem usbReadCallback_control (p : Proxy) (status : TransferStatus) :
    (usbReadCallback p 0 status.data status.code).1 =
      match status with
      | .completed data =>
          if maxPacketValueSize < data.length then { p with done := true }
          else (p.send .eTypeControl data).1
      | .timedOut | .stall => (p.send .eTypeControlStall []).1
      | .cancelled | .error => p := by
  have hsent : ∀ (buf : List UInt8) {code : Int}, code ≠ TransferStatus.error.code →
      (usbReadCallback p 0 buf code).1 =
        if (maxPacketValueSize : Int) < code then { p with done := true }
        else if 0 ≤ code then (p.send .eTypeControl buf).1
        else (p.send .eTypeControlStall []).1 := by
    intro buf code hcode
    unfold usbReadCallback
    rw [if_neg hcode, if_pos rfl]
    split
    · rfl
    · dsimp only
      split
      · split
        · rfl
        · rfl
      · split
        · rfl
        · rfl
  cases status with
  | completed data =>
      rw [hsent _ (code_completed_ne data (by decide)),
        if_pos (show 0 ≤ (TransferStatus.completed data).code from Int.natCast_nonneg _)]
      have hcode : ((maxPacketValueSize : Int) < (TransferStatus.completed data).code) =
          (maxPacketValueSize < data.length) := propext Int.ofNat_lt
      simp only [hcode]
      rfl
  | timedOut => rw [hsent _ (by decide), if_neg (by decide), if_neg (by decide)]
  | stall => rw [hsent _ (by decide), if_neg (by decide), if_neg (by decide)]
  | cancelled => rfl
  | error => rfl

theorem usbWriteCallback_control (p : Proxy) (status : TransferStatus) :
    (usbWriteCallback p 0 status.code).1 =
      match status with
      | .completed _ | .stall =>
          if (p.send status.replyType []).2 < 0 then
            { (p.send status.replyType []).1 with done := true }
          else (p.send status.replyType []).1
      | _ => p := by
  have hsent : ∀ q : Proxy × Int,
      (if q.2 < 0 then ({ q.1 with done := true }, (-1 : Int)) else (q.1, 0)).1 =
        if q.2 < 0 then { q.1 with done := true } else q.1 := by
    intro q
    split
    · rfl
    · rfl
  unfold usbWriteCallback
  cases status with
  | completed data =>
      rw [if_neg (code_completed_ne data (by decide)), if_neg (code_completed_ne data (by decide)),
        if_neg (code_completed_ne data (by decide)), if_pos rfl]
      exact hsent (p.send .eTypeControl [])
  | stall => exact hsent (p.send .eTypeControlStall [])
  | timedOut => rfl
  | cancelled => rfl
  | error => rfl

/-- The end of a transfer of another endpoint than 0 does nothing without data. -/
theorem usbReadCallback_of_no_data (p : Proxy) {endpoint : UInt8} (hne : endpoint ≠ 0)
    {status : TransferStatus} (h : ∀ data, status ≠ .completed data) :
    (usbReadCallback p endpoint status.data status.code).1 = p := by
  unfold usbReadCallback
  rw [if_neg hne]
  cases status with
  | completed data => exact absurd rfl (h data)
  | timedOut => rfl
  | stall => rfl
  | cancelled => rfl
  | error => rfl

theorem usbWriteCallback_of_ne_zero (p : Proxy) {endpoint : UInt8} (hne : endpoint ≠ 0)
    (status : Int) : (usbWriteCallback p endpoint status).1 = p := by
  unfold usbWriteCallback
  simp only [if_neg hne]
  split
  · rfl
  · split
    · rfl
    · split
      · rfl
      · rfl

theorem usbReadCallback_of_data (p : Proxy) {endpoint : UInt8} (hne : endpoint ≠ 0)
    (data : List UInt8) :
    let q := (usbReadCallback p endpoint data data.length).1
    p.Keeps q ∧ q.usb = p.usb ∧ (q.done = true ∨ q.Queued endpoint) := by
  have hcode : (data.length : Int) ≠ TransferStatus.error.code :=
    fun h => absurd (h ▸ Int.natCast_nonneg data.length) (by decide)
  have hdone : ∀ {q : Proxy}, p.Keeps q → p.Keeps { q with done := true } :=
    fun h => h.trans (.of_eq rfl rfl rfl rfl rfl)
  unfold usbReadCallback
  simp only [if_neg hcode, if_neg hne, if_pos (Int.natCast_nonneg data.length)]
  split
  · exact ⟨hdone (.refl p), rfl, Or.inl rfl⟩
  · obtain ⟨hkeeps, husb, hqueued⟩ := keeps_queueInPacket p endpoint data
    split
    · exact ⟨hdone hkeeps, husb, Or.inl rfl⟩
    next hret =>
      have hsend := hkeeps.trans (keeps_sendNextInPacket (queueInPacket p endpoint data).1)
      have husb' := (usb_sendNextInPacket (queueInPacket p endpoint data).1).trans husb
      split
      · exact ⟨hdone hsend, husb', Or.inl rfl⟩
      · exact ⟨hsend, husb',
          Or.inr (queued_sendNextInPacket _ hne (hqueued.resolve_left hret))⟩

/-- The end of a control transfer sends its reply or sets `done`, by its status and
the outcome of the next `write`. -/
def Transfer.Answered (t : Transfer) (status : TransferStatus) (w : WriteResult) : Prop :=
  if t.buffer.headD 0 &&& 0x80 ≠ 0 then
    match status with
    | .completed data => maxPacketValueSize < data.length ∨ w = .complete
    | .timedOut | .stall => w = .complete
    | .cancelled | .error => False
  else
    match status with
    | .completed _ | .stall => w = .complete ∨ w = .error
    | .timedOut | .cancelled | .error => False

instance (t : Transfer) (status : TransferStatus) (w : WriteResult) :
    Decidable (t.Answered status w) := by
  unfold Transfer.Answered
  split
  · cases status <;> infer_instance
  · cases status <;> infer_instance

def Proxy.replied (p q : Proxy) : List UInt8 := q.serial.line.drop p.serial.line.length

theorem not_isReply_nil : ¬ IsReply [] := by
  rintro ⟨f, hf, _⟩
  exact f.encode_ne_nil hf.symm

theorem Proxy.not_isReply_self (p : Proxy) : ¬ IsReply (p.replied p) := by
  rw [Proxy.replied, List.drop_length]
  exact not_isReply_nil

theorem answered_iff_read {p : Proxy} (hdone : p.done = false) (status : TransferStatus) :
    let q := (usbReadCallback p 0 status.data status.code).1
    p.Keeps q ∧ q.usb = p.usb ∧
      ((q.done = true ∨ IsReply (p.replied q)) ↔
        match status with
        | .completed data => maxPacketValueSize < data.length ∨ p.serial.nextWrite = .complete
        | .timedOut | .stall => p.serial.nextWrite = .complete
        | .cancelled | .error => False) := by
  have hsent : ∀ (status : TransferStatus) {data : List UInt8},
      data.length ≤ maxPacketValueSize →
      let q := (p.send status.replyType data).1
      p.Keeps q ∧ q.usb = p.usb ∧
        ((q.done = true ∨ IsReply (p.replied q)) ↔ p.serial.nextWrite = .complete) := by
    intro status data hle
    refine ⟨p.keeps_send _ _, rfl, ?_⟩
    have hnot : ¬ (p.send status.replyType data).1.done = true := by
      change ¬ p.done = true
      rw [hdone]
      exact Bool.false_ne_true
    rw [or_iff_right hnot]
    exact p.isReply_send_iff status hle
  have hself : ¬ (p.done = true ∨ IsReply (p.replied p)) := by
    rw [hdone]
    exact fun h => h.elim Bool.false_ne_true p.not_isReply_self
  rw [usbReadCallback_control]
  cases status with
  | completed data =>
      dsimp only
      by_cases hlong : maxPacketValueSize < data.length
      · rw [if_pos hlong]
        exact ⟨.of_eq rfl rfl rfl rfl rfl, rfl, iff_of_true (Or.inl rfl) (Or.inl hlong)⟩
      · rw [if_neg hlong, or_iff_right hlong]
        exact hsent (.completed data) (not_lt.1 hlong)
  | timedOut => exact hsent .timedOut (Nat.zero_le _)
  | stall => exact hsent .stall (Nat.zero_le _)
  | cancelled => exact ⟨.refl p, rfl, iff_of_false hself id⟩
  | error => exact ⟨.refl p, rfl, iff_of_false hself id⟩

theorem answered_iff_write {p : Proxy} (hdone : p.done = false) (status : TransferStatus) :
    let q := (usbWriteCallback p 0 status.code).1
    p.Keeps q ∧ q.usb = p.usb ∧
      ((q.done = true ∨ IsReply (p.replied q)) ↔
        match status with
        | .completed _ | .stall => p.serial.nextWrite = .complete ∨ p.serial.nextWrite = .error
        | .timedOut | .cancelled | .error => False) := by
  have hsent : ∀ status : TransferStatus,
      let r := p.send status.replyType []
      let q := if r.2 < 0 then { r.1 with done := true } else r.1
      p.Keeps q ∧ q.usb = p.usb ∧
        ((q.done = true ∨ IsReply (p.replied q)) ↔
          p.serial.nextWrite = .complete ∨ p.serial.nextWrite = .error) := by
    intro status
    have hnil : ([] : List UInt8).length ≤ maxPacketValueSize := Nat.zero_le _
    have hneg := p.send_neg_iff status.replyType hnil
    dsimp only
    split
    next hfails =>
      exact ⟨.of_eq rfl rfl rfl rfl rfl, rfl,
        iff_of_true (Or.inl rfl) (Or.inr (hneg.1 hfails))⟩
    next haccepted =>
      refine ⟨p.keeps_send _ _, rfl, ?_⟩
      have hnot : ¬ (p.send status.replyType []).1.done = true := by
        change ¬ p.done = true
        rw [hdone]
        exact Bool.false_ne_true
      rw [or_iff_right hnot, or_iff_left (fun h => haccepted (hneg.2 h))]
      exact p.isReply_send_iff status hnil
  have hself : ¬ (p.done = true ∨ IsReply (p.replied p)) := by
    rw [hdone]
    exact fun h => h.elim Bool.false_ne_true p.not_isReply_self
  rw [usbWriteCallback_control]
  cases status with
  | completed data => exact hsent (.completed data)
  | stall => exact hsent .stall
  | timedOut => exact ⟨.refl p, rfl, iff_of_false hself id⟩
  | cancelled => exact ⟨.refl p, rfl, iff_of_false hself id⟩
  | error => exact ⟨.refl p, rfl, iff_of_false hself id⟩

/-- The end of a control transfer: the reply is sent, or `done` is set, exactly in the
answered cases. -/
theorem answered_iff {p : Proxy} (hdone : p.done = false) {t : Transfer}
    (htype : t.type = transferTypeControl) (hzero : t.endpoint = 0) {status : TransferStatus}
    (hstatus : status ≠ .cancelled) :
    let q := callCallback p t status
    p.Keeps q ∧ q.usb = p.usb ∧
      ((q.done = true ∨ IsReply (p.replied q)) ↔ t.Answered status p.serial.nextWrite) := by
  unfold callCallback Transfer.Answered
  rw [if_neg hstatus, if_pos htype, hzero]
  split
  · exact answered_iff_read hdone status
  · exact answered_iff_write hdone status

/-- The end of a transfer of another endpoint: with data of an IN endpoint the packet
is queued or `done` is set, in any other case nothing happens. -/
theorem callCallback_interrupt (p : Proxy) {t : Transfer}
    (htype : t.type = transferTypeInterrupt) (hne : t.endpoint ≠ 0) {status : TransferStatus}
    (hstatus : status ≠ .cancelled) :
    let q := callCallback p t status
    (p.Keeps q ∧ q.usb = p.usb ∧ endpointIn t.endpoint = true ∧
        (∃ data, status = .completed data) ∧ (q.done = true ∨ q.Queued t.endpoint)) ∨
      (q = p ∧ (endpointIn t.endpoint = true → ∀ data, status ≠ .completed data)) := by
  unfold callCallback
  rw [if_neg hstatus, if_neg (by rw [htype]; decide)]
  cases hin : endpointIn t.endpoint with
  | false => exact Or.inr ⟨usbWriteCallback_of_ne_zero p hne _, fun h => absurd h (by decide)⟩
  | true =>
      by_cases hdata : ∃ data, status = .completed data
      · obtain ⟨data, rfl⟩ := hdata
        obtain ⟨hkeeps, husb, hqueued⟩ := usbReadCallback_of_data p hne data
        exact Or.inl ⟨hkeeps, husb, rfl, ⟨data, rfl⟩, hqueued⟩
      · have hnone := fun data heq => hdata ⟨data, heq⟩
        exact Or.inr ⟨usbReadCallback_of_no_data p hne hnone, fun _ => hnone⟩

end SerialUsb
