import SerialUsb.Framing.Message
import SerialUsb.Protocol.Packet

/-!
# Sending packets on the serial line

`adapter_send` cuts a message into packets and writes them one by one. The
outcomes of the coming `write` calls are listed in the state of the serial
device; when the list has run out, writes are complete.
-/

namespace SerialUsb

open Framing

inductive WriteResult where
  | complete
  | short (n : ℕ)
  | error
  deriving DecidableEq, Repr

/-- The serial device of the adapter: the bytes accepted by `write` that the
firmware has not received yet, and the outcomes of the coming writes. -/
structure Serial where
  line : List UInt8
  writes : List WriteResult
  deriving DecidableEq

/-- `async_write`, which `gserial_write` returns unchanged. -/
def gserialWrite (s : Serial) (buf : List UInt8) : Serial × Int :=
  match s.writes with
  | [] => ({ s with line := s.line ++ buf }, buf.length)
  | .complete :: ws => (⟨s.line ++ buf, ws⟩, buf.length)
  | .short n :: ws =>
      let accepted := buf.take (min n (buf.length - 1))
      (⟨s.line ++ accepted, ws⟩, accepted.length)
  | .error :: ws => (⟨s.line, ws⟩, -1)

/-- `adapter_send`; a message without data is sent as one packet. -/
def adapterSend (s : Serial) (type : PacketType) (data : List UInt8) : Serial × Int :=
  let value := data.take maxPacketValueSize
  let rest := data.drop maxPacketValueSize
  let (s, ret) := gserialWrite s (type.toByte :: UInt8.ofNat value.length :: value)
  if ret < 0 then (s, -1)
  else if 0 < rest.length then adapterSend s type rest
  else (s, 0)
termination_by data.length
decreasing_by
  simp only [rest, List.length_drop, maxPacketValueSize_eq] at *
  omega

theorem gserialWrite_of_complete {s : Serial} (h : s.writes = []) (buf : List UInt8) :
    gserialWrite s buf = ({ line := s.line ++ buf, writes := [] }, (buf.length : Int)) := by
  unfold gserialWrite
  rw [h]

theorem adapterSend_of_complete {s : Serial} (h : s.writes = []) (type : PacketType)
    (data : List UInt8) :
    adapterSend s type data =
      (⟨s.line ++ (message maxPacketValueSize type.toByte data).flatMap Frame.encode, []⟩,
        0) := by
  rw [adapterSend]
  simp only [gserialWrite_of_complete h]
  rw [if_neg (Int.not_lt.2 (Int.natCast_nonneg _))]
  by_cases hrest : 0 < (data.drop maxPacketValueSize).length
  · have hlt : maxPacketValueSize < data.length := by
      rw [List.length_drop] at hrest
      omega
    rw [if_pos hrest, adapterSend_of_complete rfl, message_of_lt (by decide) hlt,
      List.flatMap_cons, List.append_assoc]
    rfl
  · have hle : data.length ≤ maxPacketValueSize := by
      rw [List.length_drop] at hrest
      omega
    rw [if_neg hrest, message_of_le hle, List.take_of_length_le hle]
    simp [Frame.encode]
termination_by data.length
decreasing_by
  rw [List.length_drop]
  have hpos : 0 < maxPacketValueSize := by decide
  omega

theorem adapterSend_of_le (s : Serial) (type : PacketType) {data : List UInt8}
    (h : data.length ≤ maxPacketValueSize) :
    adapterSend s type data =
      ((gserialWrite s (Frame.encode ⟨type.toByte, data, h⟩)).1,
        if (gserialWrite s (Frame.encode ⟨type.toByte, data, h⟩)).2 < 0 then -1 else 0) := by
  have hrest : ¬ 0 < (data.drop maxPacketValueSize).length := by
    rw [List.length_drop]
    omega
  rw [adapterSend, List.take_of_length_le h]
  simp only [if_neg hrest]
  change (if (gserialWrite s (Frame.encode ⟨type.toByte, data, h⟩)).2 < 0 then
    ((gserialWrite s (Frame.encode ⟨type.toByte, data, h⟩)).1, (-1 : Int)) else
    ((gserialWrite s (Frame.encode ⟨type.toByte, data, h⟩)).1, 0)) = _
  by_cases hneg : (gserialWrite s (Frame.encode ⟨type.toByte, data, h⟩)).2 < 0
  · rw [if_pos hneg, if_pos hneg]
  · rw [if_neg hneg, if_neg hneg]

def Serial.nextWrite (s : Serial) : WriteResult := s.writes.headD .complete

def WriteResult.accepted (w : WriteResult) (buf : List UInt8) : List UInt8 :=
  match w with
  | .complete => buf
  | .short n => buf.take (min n (buf.length - 1))
  | .error => []

theorem gserialWrite_line (s : Serial) (buf : List UInt8) :
    (gserialWrite s buf).1.line = s.line ++ s.nextWrite.accepted buf := by
  unfold gserialWrite Serial.nextWrite
  cases s.writes with
  | nil => rfl
  | cons w ws =>
      cases w with
      | complete => rfl
      | short n => rfl
      | error => exact (List.append_nil _).symm

theorem gserialWrite_neg_iff (s : Serial) (buf : List UInt8) :
    (gserialWrite s buf).2 < 0 ↔ s.nextWrite = .error := by
  unfold gserialWrite Serial.nextWrite
  cases s.writes with
  | nil => simp
  | cons w ws =>
      cases w with
      | complete => simp
      | short n => simp
      | error => simp

theorem WriteResult.accepted_eq_encode_iff (w : WriteResult) (f : PacketFrame) :
    (∃ g : PacketFrame, w.accepted f.encode = g.encode) ↔ w = .complete := by
  constructor
  · rintro ⟨g, hg⟩
    cases w with
    | complete => rfl
    | error => exact absurd hg.symm g.encode_ne_nil
    | short n =>
        -- the length byte of a part with a header still announces the whole value
        exfalso
        have hlt : min n (f.encode.length - 1) < f.encode.length := by
          have hlength := f.encode_length
          omega
        have htake : f.encode.take (min n (f.encode.length - 1)) = g.encode := hg
        have hf := takeFrame_encode_append maxPacketValueSize_lt f []
        have hg' := takeFrame_encode_append maxPacketValueSize_lt g
          (f.encode.drop (min n (f.encode.length - 1)))
        rw [← htake, List.take_append_drop] at hg'
        rw [List.append_nil, hg'] at hf
        have hnil := (Prod.mk.inj (Option.some.inj hf)).2
        rw [List.drop_eq_nil_iff] at hnil
        omega
  · rintro rfl
    exact ⟨f, rfl⟩

end SerialUsb
