import SerialUsb.Adapter.Send

/-!
# What a send leaves on the line

`adapter_send` writes the packets of its message one by one, each with a `write` of its
own. It stops at a `write` that fails, and takes a short one for a success: the message
is complete on the line exactly when no `write` was short.
-/

namespace SerialUsb

open Framing

def writePackets (s : Serial) : List PacketFrame → Serial × Int
  | [] => (s, 0)
  | f :: fs =>
      let (s, ret) := gserialWrite s f.encode
      if ret < 0 then (s, -1) else writePackets s fs

theorem adapterSend_eq_writePackets (s : Serial) (type : PacketType) (data : List UInt8) :
    adapterSend s type data = writePackets s (message maxPacketValueSize type.toByte data) := by
  have hpos : 0 < maxPacketValueSize := by decide
  by_cases hlt : maxPacketValueSize < data.length
  · have hrest : 0 < (data.drop maxPacketValueSize).length := by
      rw [List.length_drop]
      omega
    rw [adapterSend, message_of_lt hpos hlt, writePackets]
    simp only [if_pos hrest]
    rw [adapterSend_eq_writePackets]
    rfl
  · have hle : data.length ≤ maxPacketValueSize := Nat.not_lt.1 hlt
    rw [adapterSend_of_le s type hle, message_of_le hle]
    unfold writePackets
    dsimp only
    by_cases hneg : (gserialWrite s (Frame.encode ⟨type.toByte, data, hle⟩)).2 < 0
    · rw [if_pos hneg, if_pos hneg]
    · rw [if_neg hneg, if_neg hneg]
      rfl
termination_by data.length
decreasing_by
  have hlt' : maxPacketValueSize < data.length := hlt
  rw [List.length_drop]
  exact Nat.sub_lt (Nat.lt_of_le_of_lt (Nat.zero_le _) hlt') (by decide)

theorem writePackets_of_nil {s : Serial} (h : s.writes = []) (fs : List PacketFrame) :
    writePackets s fs = (⟨s.line ++ fs.flatMap Frame.encode, []⟩, 0) := by
  induction fs generalizing s with
  | nil => rw [List.flatMap_nil, List.append_nil, ← h, writePackets]
  | cons f fs ih =>
      rw [writePackets, gserialWrite_of_complete h]
      simp only [if_neg (Int.not_lt.2 (Int.natCast_nonneg _))]
      rw [ih rfl, List.flatMap_cons, List.append_assoc]

theorem writePackets_complete (line : List UInt8) (ws : List WriteResult) (f : PacketFrame)
    (fs : List PacketFrame) :
    writePackets ⟨line, .complete :: ws⟩ (f :: fs) = writePackets ⟨line ++ f.encode, ws⟩ fs := by
  rw [writePackets, gserialWrite]
  simp only [if_neg (Int.not_lt.2 (Int.natCast_nonneg _))]

theorem writePackets_short (line : List UInt8) (n : ℕ) (ws : List WriteResult) (f : PacketFrame)
    (fs : List PacketFrame) :
    writePackets ⟨line, .short n :: ws⟩ (f :: fs) =
      writePackets ⟨line ++ f.encode.take (min n (f.encode.length - 1)), ws⟩ fs := by
  rw [writePackets, gserialWrite]
  simp only [if_neg (Int.not_lt.2 (Int.natCast_nonneg _))]

theorem writePackets_error (line : List UInt8) (ws : List WriteResult) (f : PacketFrame)
    (fs : List PacketFrame) :
    writePackets ⟨line, .error :: ws⟩ (f :: fs) = (⟨line, ws⟩, -1) := by
  rw [writePackets, gserialWrite]
  exact if_pos (by decide)

/-- The writes succeed when none fails, short ones included. -/
theorem writePackets_eq_zero_iff (line : List UInt8) (ws : List WriteResult)
    (fs : List PacketFrame) :
    (writePackets ⟨line, ws⟩ fs).2 = 0 ↔ WriteResult.error ∉ ws.take fs.length := by
  induction fs generalizing line ws with
  | nil => simp [writePackets]
  | cons f fs ih =>
      cases ws with
      | nil => simp [writePackets_of_nil]
      | cons w ws =>
          rw [List.length_cons, List.take_succ_cons, List.mem_cons, not_or]
          cases w with
          | complete => simp [writePackets_complete, ih]
          | short n => simp [writePackets_short, ih]
          | error => simp [writePackets_error]

theorem writePackets_length_le (line : List UInt8) (ws : List WriteResult)
    (fs : List PacketFrame) :
    (writePackets ⟨line, ws⟩ fs).1.line.length ≤
      line.length + (fs.flatMap Frame.encode).length := by
  induction fs generalizing line ws with
  | nil => exact Nat.le_refl _
  | cons f fs ih =>
      rw [List.flatMap_cons, List.length_append]
      cases ws with
      | nil =>
          rw [writePackets_of_nil rfl, List.length_append, List.flatMap_cons, List.length_append]
      | cons w ws =>
          cases w with
          | complete =>
              have hle := ih (line ++ f.encode) ws
              rw [List.length_append] at hle
              rw [writePackets_complete]
              omega
          | short n =>
              have hle := ih (line ++ f.encode.take (min n (f.encode.length - 1))) ws
              rw [List.length_append, List.length_take] at hle
              rw [writePackets_short]
              omega
          | error =>
              rw [writePackets_error]
              exact Nat.le_add_right _ _

theorem writePackets_length_lt (line : List UInt8) (ws : List WriteResult)
    (fs : List PacketFrame) {n : ℕ} (hshort : WriteResult.short n ∈ ws.take fs.length) :
    (writePackets ⟨line, ws⟩ fs).1.line.length <
      line.length + (fs.flatMap Frame.encode).length := by
  induction fs generalizing line ws with
  | nil => exact absurd hshort (by simp)
  | cons f fs ih =>
      have hpos : 0 < f.encode.length := List.length_pos_iff.2 f.encode_ne_nil
      rw [List.flatMap_cons, List.length_append]
      cases ws with
      | nil => exact absurd hshort (by simp)
      | cons w ws =>
          rw [List.length_cons, List.take_succ_cons, List.mem_cons] at hshort
          cases w with
          | complete =>
              have hlt := ih (line ++ f.encode) ws (hshort.resolve_left (by simp))
              rw [List.length_append] at hlt
              rw [writePackets_complete]
              omega
          | short n =>
              have hle := writePackets_length_le
                (line ++ f.encode.take (min n (f.encode.length - 1))) ws fs
              rw [List.length_append, List.length_take] at hle
              rw [writePackets_short]
              omega
          | error =>
              rw [writePackets_error]
              exact Nat.lt_add_of_pos_right (Nat.add_pos_left hpos _)

theorem writePackets_line (line : List UInt8) (ws : List WriteResult) (fs : List PacketFrame)
    (hshort : ∀ n, WriteResult.short n ∉ ws.take fs.length)
    (herror : WriteResult.error ∉ ws.take fs.length) :
    (writePackets ⟨line, ws⟩ fs).1.line = line ++ fs.flatMap Frame.encode := by
  induction fs generalizing line ws with
  | nil => exact (List.append_nil line).symm
  | cons f fs ih =>
      cases ws with
      | nil => rw [writePackets_of_nil rfl]
      | cons w ws =>
          simp only [List.length_cons, List.take_succ_cons, List.mem_cons, not_or] at hshort herror
          cases w with
          | complete =>
              rw [writePackets_complete, ih _ ws (fun n => (hshort n).2) herror.2,
                List.flatMap_cons, List.append_assoc]
          | short n => exact absurd rfl (hshort n).1
          | error => exact absurd rfl herror.1

/-- When `adapter_send` returns 0, the bytes it has put on the line are the packets of the
message: as many as the data needs and at least one, all of its type, whose values are the
data. -/
def SendsWhole (s : Serial) (type : PacketType) (data : List UInt8) : Prop :=
  (adapterSend s type data).2 = 0 → ∃ fs : List PacketFrame,
    fs.length = max 1 ((data.length + (maxPacketValueSize - 1)) / maxPacketValueSize) ∧
      (∀ f ∈ fs, f.type = type.toByte) ∧ fs.flatMap Frame.value = data ∧
      (adapterSend s type data).1.line = s.line ++ fs.flatMap Frame.encode

def Serial.outcomes (s : Serial) (n : ℕ) : List WriteResult :=
  s.writes.take (max 1 ((n + (maxPacketValueSize - 1)) / maxPacketValueSize))

/-- A success means that the message is on the line exactly when a write has failed or none
was short. -/
theorem sendsWhole_iff (s : Serial) (type : PacketType) (data : List UInt8) :
    SendsWhole s type data ↔
      WriteResult.error ∈ s.outcomes data.length ∨
        ∀ n, WriteResult.short n ∉ s.outcomes data.length := by
  have hpos : 0 < maxPacketValueSize := by decide
  have hlength := length_message hpos type.toByte data
  unfold SendsWhole Serial.outcomes
  rw [adapterSend_eq_writePackets, writePackets_eq_zero_iff, hlength]
  constructor
  · intro h
    by_cases herror : WriteResult.error ∈ s.writes.take
        (max 1 ((data.length + (maxPacketValueSize - 1)) / maxPacketValueSize))
    · exact Or.inl herror
    · refine Or.inr fun n hshort => ?_
      obtain ⟨fs, hcount, _, hvalues, hline⟩ := h herror
      -- a short write accepts fewer bytes than any such packets have
      have hlt := writePackets_length_lt s.line s.writes
        (message maxPacketValueSize type.toByte data) (hlength ▸ hshort)
      rw [hline, List.length_append, length_flatMap_encode, length_flatMap_encode, hvalues, hcount,
        flatMap_value_message hpos, hlength] at hlt
      exact Nat.lt_irrefl _ hlt
  · rintro (herror | hshort) hsuccess
    · exact absurd herror hsuccess
    · refine ⟨message maxPacketValueSize type.toByte data, hlength,
        fun f hf => type_of_mem_message hf, flatMap_value_message hpos type.toByte data, ?_⟩
      exact writePackets_line s.line s.writes _ (hlength ▸ hshort) (hlength ▸ hsuccess)

/-- A control reply of which the kernel takes three of four bytes is reported as sent. -/
theorem sendsWhole_shortWrite :
    ¬ SendsWhole ⟨[], [.short 3]⟩ .eTypeControl [1, 2] ∧
      adapterSend ⟨[], [.short 3]⟩ .eTypeControl [1, 2] = (⟨[4, 2, 1], []⟩, 0) := by
  have hsend : adapterSend ⟨[], [.short 3]⟩ .eTypeControl [1, 2] = (⟨[4, 2, 1], []⟩, 0) := by
    rw [adapterSend_of_le _ _ (by decide)]
    rfl
  refine ⟨fun h => ?_, hsend⟩
  obtain ⟨fs, hcount, _, hvalues, hline⟩ := h (by rw [hsend])
  have hlength := congrArg List.length hline
  rw [hsend, List.length_append, length_flatMap_encode, hvalues, hcount] at hlength
  exact absurd hlength (by decide)

end SerialUsb
