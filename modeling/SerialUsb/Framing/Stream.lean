import Mathlib.Data.List.Infix
import Mathlib.Data.UInt

/-!
# Type-length-value frames in a byte stream

A frame is a type byte, a length byte and as many value bytes as the length
byte says. The values a receiver can hold have at most `limit` bytes, so a
header that announces more can never be followed by a complete frame.

`frames limit s` reads a stream from its start: every complete frame, up to
the first one that is incomplete or announces too much, and `pending limit s`
is what is left there. The two are characterised without the recursion by
`frames_flatMap_append`: a list of frames followed by a tail that starts no
complete frame is read as that list and that tail.
-/

namespace Framing

/-- A frame whose value fits a receiver of `limit` value bytes. -/
structure Frame (limit : ℕ) where
  type : UInt8
  value : List UInt8
  value_le : value.length ≤ limit
  deriving DecidableEq

def Frame.encode {limit : ℕ} (f : Frame limit) : List UInt8 :=
  f.type :: UInt8.ofNat f.value.length :: f.value

theorem Frame.encode_length {limit : ℕ} (f : Frame limit) :
    f.encode.length = f.value.length + 2 := rfl

theorem length_flatMap_encode {limit : ℕ} (fs : List (Frame limit)) :
    (fs.flatMap Frame.encode).length = (fs.flatMap Frame.value).length + 2 * fs.length := by
  induction fs with
  | nil => rfl
  | cons f fs ih =>
      rw [List.flatMap_cons, List.flatMap_cons, List.length_append, List.length_append, ih,
        f.encode_length, List.length_cons]
      omega

theorem Frame.encode_ne_nil {limit : ℕ} (f : Frame limit) : f.encode ≠ [] := by
  simp [Frame.encode]

theorem Frame.toNat_length {limit : ℕ} (hlimit : limit < 256)
    (f : Frame limit) : (UInt8.ofNat f.value.length).toNat = f.value.length := by
  have hle := f.value_le
  rw [UInt8.toNat_ofNat']
  omega

def takeFrame (limit : ℕ) : List UInt8 → Option (Frame limit × List UInt8)
  | t :: l :: rest =>
      if h : l.toNat ≤ limit ∧ l.toNat ≤ rest.length then
        some (⟨t, rest.take l.toNat, by rw [List.length_take]; omega⟩,
          rest.drop l.toNat)
      else none
  | _ => none

theorem takeFrame_encode_append {limit : ℕ} (hlimit : limit < 256)
    (f : Frame limit) (s : List UInt8) :
    takeFrame limit (f.encode ++ s) = some (f, s) := by
  have hlen := f.toNat_length hlimit
  have hle := f.value_le
  have hcond : (UInt8.ofNat f.value.length).toNat ≤ limit ∧
      (UInt8.ofNat f.value.length).toNat ≤ (f.value ++ s).length := by
    rw [hlen, List.length_append]
    omega
  simp only [Frame.encode, List.cons_append, takeFrame, dif_pos hcond]
  simp [hlen]

theorem takeFrame_eq_some {limit : ℕ} {s rest : List UInt8} {f : Frame limit}
    (h : takeFrame limit s = some (f, rest)) : s = f.encode ++ rest := by
  match s with
  | [] => simp [takeFrame] at h
  | [_] => simp [takeFrame] at h
  | t :: l :: tail =>
      simp only [takeFrame] at h
      split at h
      next hcond =>
        obtain ⟨rfl, rfl⟩ := Prod.mk.inj (Option.some.inj h)
        have hl : (tail.take l.toNat).length = l.toNat := by
          rw [List.length_take]
          omega
        simp [Frame.encode, hl]
      next => exact absurd h (by simp)

theorem takeFrame_length_lt {limit : ℕ} {s rest : List UInt8} {f : Frame limit}
    (h : takeFrame limit s = some (f, rest)) : rest.length < s.length := by
  rw [takeFrame_eq_some h, List.length_append, f.encode_length]
  omega

def frames (limit : ℕ) (s : List UInt8) : List (Frame limit) :=
  match _h : takeFrame limit s with
  | some (f, rest) => f :: frames limit rest
  | none => []
termination_by s.length
decreasing_by exact takeFrame_length_lt ‹_›

def pending (limit : ℕ) (s : List UInt8) : List UInt8 :=
  match _h : takeFrame limit s with
  | some (_, rest) => pending limit rest
  | none => s
termination_by s.length
decreasing_by exact takeFrame_length_lt ‹_›

theorem frames_of_takeFrame_none {limit : ℕ} {s : List UInt8}
    (h : takeFrame limit s = none) : frames limit s = [] := by
  rw [frames]
  split
  next heq => simp [h] at heq
  next => rfl

theorem pending_of_takeFrame_none {limit : ℕ} {s : List UInt8}
    (h : takeFrame limit s = none) : pending limit s = s := by
  rw [pending]
  split
  next heq => simp [h] at heq
  next => rfl

theorem frames_encode_append {limit : ℕ} (hlimit : limit < 256)
    (f : Frame limit) (s : List UInt8) :
    frames limit (f.encode ++ s) = f :: frames limit s := by
  have htake := takeFrame_encode_append hlimit f s
  rw [frames]
  split
  next g rest heq =>
    obtain ⟨rfl, rfl⟩ := Prod.mk.inj (Option.some.inj (heq.symm.trans htake))
    rfl
  next heq => simp [htake] at heq

theorem pending_encode_append {limit : ℕ} (hlimit : limit < 256)
    (f : Frame limit) (s : List UInt8) :
    pending limit (f.encode ++ s) = pending limit s := by
  have htake := takeFrame_encode_append hlimit f s
  rw [pending]
  split
  next g rest heq =>
    obtain ⟨rfl, rfl⟩ := Prod.mk.inj (Option.some.inj (heq.symm.trans htake))
    rfl
  next heq => simp [htake] at heq

/-- Frames followed by a tail are read as those frames and the frames of the
tail. -/
theorem frames_flatMap_append {limit : ℕ} (hlimit : limit < 256)
    (fs : List (Frame limit)) (tail : List UInt8) :
    frames limit (fs.flatMap Frame.encode ++ tail) = fs ++ frames limit tail := by
  induction fs with
  | nil => rfl
  | cons f fs ih =>
      rw [List.flatMap_cons, List.append_assoc, frames_encode_append hlimit, ih,
        List.cons_append]

theorem frames_append_isPrefix {limit : ℕ} (hlimit : limit < 256) (s t : List UInt8) :
    frames limit s <+: frames limit (s ++ t) := by
  induction s using frames.induct limit with
  | case1 s f rest htake ih =>
      rw [takeFrame_eq_some htake, List.append_assoc, frames_encode_append hlimit,
        frames_encode_append hlimit]
      exact List.cons_prefix_cons.2 ⟨rfl, ih⟩
  | case2 s hnone =>
      rw [frames_of_takeFrame_none hnone]
      exact List.nil_prefix

theorem pending_flatMap_append {limit : ℕ} (hlimit : limit < 256)
    (fs : List (Frame limit)) (tail : List UInt8) :
    pending limit (fs.flatMap Frame.encode ++ tail) = pending limit tail := by
  induction fs with
  | nil => rfl
  | cons f fs ih =>
      rw [List.flatMap_cons, List.append_assoc, pending_encode_append hlimit, ih]

/-- A concatenation of frames is read as exactly those frames. -/
theorem frames_flatMap {limit : ℕ} (hlimit : limit < 256)
    (fs : List (Frame limit)) :
    frames limit (fs.flatMap Frame.encode) = fs := by
  have hnil : frames limit [] = [] := frames_of_takeFrame_none rfl
  have h := frames_flatMap_append hlimit fs []
  rwa [List.append_nil, hnil, List.append_nil] at h

theorem pending_flatMap {limit : ℕ} (hlimit : limit < 256)
    (fs : List (Frame limit)) :
    pending limit (fs.flatMap Frame.encode) = [] := by
  have hnil : pending limit [] = [] := pending_of_takeFrame_none rfl
  have h := pending_flatMap_append hlimit fs []
  rwa [List.append_nil, hnil] at h

/-- A stream that starts with a header announcing more than `limit` value
bytes. No frame is ever complete behind it. -/
def Oversized (limit : ℕ) : List UInt8 → Prop
  | _ :: l :: _ => limit < l.toNat
  | _ => False

instance decidableOversized (limit : ℕ) : (s : List UInt8) → Decidable (Oversized limit s)
  | [] => isFalse id
  | [_] => isFalse id
  | _ :: l :: _ => inferInstanceAs (Decidable (limit < l.toNat))

theorem Oversized.append {limit : ℕ} {s : List UInt8} (h : Oversized limit s)
    (t : List UInt8) : Oversized limit (s ++ t) := by
  match s, h with
  | _ :: _ :: _, h => exact h

theorem Oversized.takeFrame_eq_none {limit : ℕ} {s : List UInt8}
    (h : Oversized limit s) : takeFrame limit s = none := by
  match s, h with
  | _ :: l :: _, h =>
      have hnot : ¬ l.toNat ≤ limit := Nat.not_le.2 h
      simp [takeFrame, hnot]

theorem Frame.not_oversized_append {limit : ℕ} (hlimit : limit < 256) (f : Frame limit)
    (s : List UInt8) : ¬ Oversized limit (f.encode ++ s) := by
  intro hover
  have hnone := hover.takeFrame_eq_none
  exact absurd (hnone.symm.trans (takeFrame_encode_append hlimit f s)) (by simp)

theorem Frame.not_oversized {limit : ℕ} (hlimit : limit < 256) (f : Frame limit) :
    ¬ Oversized limit f.encode := by
  have h := f.not_oversized_append hlimit []
  rwa [List.append_nil] at h

theorem frames_of_oversized {limit : ℕ} {s : List UInt8}
    (h : Oversized limit s) : frames limit s = [] :=
  frames_of_takeFrame_none h.takeFrame_eq_none

def extent : List UInt8 → ℕ
  | _ :: l :: _ => 2 + l.toNat
  | _ => 2

theorem takeFrame_eq_none_of_lt_extent {limit : ℕ} {s : List UInt8}
    (h : s.length < extent s) : takeFrame limit s = none := by
  match s, h with
  | [], _ => rfl
  | [_], _ => rfl
  | _ :: l :: rest, h =>
      have hlt : ¬ l.toNat ≤ rest.length := by
        simp only [extent, List.length_cons] at h
        omega
      simp [takeFrame, hlt]

end Framing
