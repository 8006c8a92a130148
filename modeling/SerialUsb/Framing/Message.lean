import SerialUsb.Framing.Stream

/-!
# Messages split over several frames

A message longer than a frame's value is sent as several frames of its type,
all but the last one full. `message limit type data` lists them: there is
always at least one, they all have the type, and their values concatenate to
the data.
-/

namespace Framing

def message (limit : ℕ) (type : UInt8) (data : List UInt8) : List (Frame limit) :=
  if _h : 0 < limit ∧ limit < data.length then
    ⟨type, data.take limit, List.length_take_le ..⟩ :: message limit type (data.drop limit)
  else [⟨type, data.take limit, List.length_take_le ..⟩]
termination_by data.length
decreasing_by rw [List.length_drop]; omega

theorem message_of_le {limit : ℕ} {type : UInt8} {data : List UInt8}
    (h : data.length ≤ limit) : message limit type data = [⟨type, data, h⟩] := by
  have hnot : ¬ (0 < limit ∧ limit < data.length) := by omega
  rw [message, dif_neg hnot]
  congr 2
  exact List.take_of_length_le h

theorem message_of_lt {limit : ℕ} {type : UInt8} {data : List UInt8}
    (hlimit : 0 < limit) (h : limit < data.length) :
    message limit type data =
      ⟨type, data.take limit, List.length_take_le ..⟩ ::
        message limit type (data.drop limit) := by
  rw [message, dif_pos ⟨hlimit, h⟩]

theorem type_of_mem_message {limit : ℕ} {type : UInt8} {data : List UInt8}
    {f : Frame limit} (h : f ∈ message limit type data) : f.type = type := by
  rw [message] at h
  split at h
  next hlt =>
    rcases List.mem_cons.1 h with rfl | hmem
    · rfl
    · exact type_of_mem_message hmem
  next =>
    rw [List.mem_singleton] at h
    exact h ▸ rfl
termination_by data.length
decreasing_by rw [List.length_drop]; omega

theorem flatMap_value_message {limit : ℕ} (hlimit : 0 < limit) (type : UInt8)
    (data : List UInt8) : (message limit type data).flatMap Frame.value = data := by
  by_cases h : limit < data.length
  · rw [message_of_lt hlimit h, List.flatMap_cons, flatMap_value_message hlimit type]
    exact List.take_append_drop limit data
  · rw [message_of_le (Nat.not_lt.1 h)]
    exact List.append_nil data
termination_by data.length
decreasing_by rw [List.length_drop]; omega

theorem length_message {limit : ℕ} (hlimit : 0 < limit) (type : UInt8) (data : List UInt8) :
    (message limit type data).length = max 1 ((data.length + (limit - 1)) / limit) := by
  by_cases h : limit < data.length
  · have hsum : data.length + (limit - 1) = data.length - limit + (limit - 1) + limit := by omega
    have hpos : 1 ≤ (data.length - limit + (limit - 1)) / limit :=
      (Nat.one_le_div_iff hlimit).2 (by omega)
    rw [message_of_lt hlimit h, List.length_cons, length_message hlimit type, List.length_drop,
      hsum, Nat.add_div_right _ hlimit, max_eq_right hpos, max_eq_right (by omega)]
  · have hle : (data.length + (limit - 1)) / limit ≤ 1 := by
      rw [Nat.div_le_iff_le_mul_add_pred hlimit]
      omega
    rw [message_of_le (Nat.not_lt.1 h), max_eq_left hle, List.length_singleton]
termination_by data.length
decreasing_by rw [List.length_drop]; omega

end Framing
