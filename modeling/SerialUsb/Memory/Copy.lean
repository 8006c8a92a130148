import Mathlib.Data.List.Basic
import Mathlib.Data.Vector.Basic
import Mathlib.Data.UInt

/-!
# Copies into fixed buffers and little-endian words

`copyAt dst off src` is `memcpy(dst + off, src, n)` for a buffer of fixed size:
the bytes of `src` replace those of `dst` from `off` on, and whatever would
fall behind the end of the buffer is not stored. `toList_take_copyAt` is the
rule for an append: a copy that fits, made right behind the bytes already
there, extends them by `src`.
-/

namespace Memory

@[irreducible] def copyAt {α : Type*} {n : ℕ} (dst : Vector α n) (off : ℕ) (src : List α) :
    Vector α n :=
  Vector.ofFn fun i =>
    if h : off ≤ i.val ∧ i.val - off < src.length then src[i.val - off] else dst[i]

theorem getElem_copyAt {α : Type*} {n : ℕ} (dst : Vector α n) (off : ℕ)
    (src : List α) {i : ℕ} (hi : i < n) :
    (copyAt dst off src)[i] =
      if h : off ≤ i ∧ i - off < src.length then src[i - off] else dst[i] := by
  simp [copyAt]

theorem getElem_copyAt_of_lt {α : Type*} {n : ℕ} (dst : Vector α n) {off : ℕ}
    (src : List α) {i : ℕ} (hi : i < n) (hlt : i < off) :
    (copyAt dst off src)[i] = dst[i] := by
  have hnot : ¬ (off ≤ i ∧ i - off < src.length) := by omega
  rw [getElem_copyAt, dif_neg hnot]

theorem toList_take_copyAt {α : Type*} {n : ℕ} (dst : Vector α n) {off : ℕ}
    {src : List α} (hfit : off + src.length ≤ n) :
    (copyAt dst off src).toList.take (off + src.length) =
      dst.toList.take off ++ src := by
  have hlen : dst.toList.length = n := Vector.length_toList
  apply List.ext_getElem
  · simp only [List.length_take, List.length_append, Vector.length_toList]
    omega
  · intro i h₁ h₂
    have hi : i < off + src.length := by
      rw [List.length_take] at h₁
      omega
    have hin : i < n := by omega
    rw [List.getElem_take, Vector.getElem_toList, getElem_copyAt _ _ _ hin]
    by_cases hoff : i < off
    · have hnot : ¬ (off ≤ i ∧ i - off < src.length) := by omega
      have htake : i < (dst.toList.take off).length := by
        rw [List.length_take]
        omega
      rw [dif_neg hnot, List.getElem_append_left htake, List.getElem_take,
        Vector.getElem_toList]
    · have hyes : off ≤ i ∧ i - off < src.length := by omega
      have htake : (dst.toList.take off).length = off := by
        rw [List.length_take]
        omega
      rw [dif_pos hyes, List.getElem_append_right (by omega)]
      simp [htake]

theorem toList_take_copyAt_zero {α : Type*} {n : ℕ} (dst : Vector α n)
    {src : List α} (hfit : src.length ≤ n) :
    (copyAt dst 0 src).toList.take src.length = src := by
  have hfit' : 0 + src.length ≤ n := by omega
  simpa using toList_take_copyAt dst hfit'

theorem toList_drop_copyAt {α : Type*} {n : ℕ} (dst : Vector α n) (off : ℕ)
    (src : List α) :
    (copyAt dst off src).toList.drop (off + src.length) =
      dst.toList.drop (off + src.length) := by
  apply List.ext_getElem
  · simp
  · intro i h₁ h₂
    rw [List.length_drop, Vector.length_toList] at h₁
    have hin : off + src.length + i < n := by omega
    have hnot : ¬ (off ≤ off + src.length + i ∧
        off + src.length + i - off < src.length) := by omega
    rw [List.getElem_drop, List.getElem_drop, Vector.getElem_toList,
      Vector.getElem_toList, getElem_copyAt _ _ _ hin, dif_neg hnot]

def Filled {n : ℕ} (dst : Vector UInt8 n) (src : List UInt8) : Prop :=
  dst.toList = src ++ List.replicate (n - src.length) 0

theorem filled_nil (n : ℕ) : Filled (Vector.replicate n 0) [] := by
  simp [Filled]

theorem Filled.take {n : ℕ} {dst : Vector UInt8 n} {src : List UInt8}
    (h : Filled dst src) : dst.toList.take src.length = src := by
  rw [h, List.take_left]

theorem Filled.copyAt {n : ℕ} {dst : Vector UInt8 n} {src more : List UInt8}
    (h : Filled dst src) (hfit : src.length + more.length ≤ n) :
    Filled (copyAt dst src.length more) (src ++ more) := by
  have htake := toList_take_copyAt dst hfit
  have hdrop := toList_drop_copyAt dst src.length more
  have hrest : n - (src ++ more).length = n - src.length - more.length := by
    rw [List.length_append]
    omega
  rw [h.take] at htake
  rw [h, List.drop_append, List.drop_of_length_le (Nat.le_add_right _ _), List.nil_append,
    Nat.add_sub_cancel_left, List.drop_replicate] at hdrop
  rw [Filled, ← List.take_append_drop (src.length + more.length)
      (Memory.copyAt dst src.length more).toList,
    htake, hdrop, hrest]

def le16 (w : UInt16) : List UInt8 := [w.toUInt8, (w >>> 8).toUInt8]

def ofLe16 (lo hi : UInt8) : UInt16 := lo.toUInt16 ||| (hi.toUInt16 <<< 8)

@[simp] theorem length_le16 (w : UInt16) : (le16 w).length = 2 := rfl

theorem ofLe16_le16 (w : UInt16) : ofLe16 w.toUInt8 (w >>> 8).toUInt8 = w := by
  have hlt : w.toNat < 65536 := w.toNat_lt
  have hshift : (8 : UInt16).toNat % 16 = 8 := rfl
  have hlow : (w.toUInt8.toUInt16).toNat = w.toNat % 256 := by simp
  have hhigh : ((w >>> 8).toUInt8.toUInt16 <<< 8).toNat = w.toNat / 256 * 256 := by
    simp only [UInt16.toNat_shiftLeft, UInt8.toNat_toUInt16, UInt16.toNat_toUInt8,
      UInt16.toNat_shiftRight, Nat.shiftRight_eq_div_pow, Nat.shiftLeft_eq, hshift]
    omega
  have hor : 2 ^ 8 * (w.toNat / 256) + w.toNat % 256 =
      2 ^ 8 * (w.toNat / 256) ||| w.toNat % 256 :=
    Nat.two_pow_add_eq_or_of_lt (Nat.mod_lt _ (by decide)) (w.toNat / 256)
  have hcomm : w.toNat / 256 * 256 = 2 ^ 8 * (w.toNat / 256) := by omega
  apply UInt16.toNat_inj.1
  rw [ofLe16, UInt16.toNat_or, hlow, hhigh, Nat.or_comm, hcomm, ← hor]
  omega

theorem toNat_ofLe16 (lo hi : UInt8) : (ofLe16 lo hi).toNat = lo.toNat + 256 * hi.toNat := by
  have hlo := lo.toNat_lt
  have hhi := hi.toNat_lt
  have hshift : (8 : UInt16).toNat % 16 = 8 := rfl
  have hhigh : (hi.toUInt16 <<< 8).toNat = 2 ^ 8 * hi.toNat := by
    rw [UInt16.toNat_shiftLeft, UInt8.toNat_toUInt16, hshift, Nat.shiftLeft_eq]
    omega
  have hor : 2 ^ 8 * hi.toNat + lo.toNat = 2 ^ 8 * hi.toNat ||| lo.toNat :=
    Nat.two_pow_add_eq_or_of_lt hlo hi.toNat
  rw [ofLe16, UInt16.toNat_or, hhigh, UInt8.toNat_toUInt16, Nat.or_comm, ← hor]
  omega

theorem le16_ofLe16 (lo hi : UInt8) : le16 (ofLe16 lo hi) = [lo, hi] := by
  have hlo := lo.toNat_lt
  have hhi := hi.toNat_lt
  have hword := toNat_ofLe16 lo hi
  have hshift : (8 : UInt16).toNat % 16 = 8 := rfl
  have hlow : (ofLe16 lo hi).toUInt8 = lo := by
    apply UInt8.toNat_inj.1
    rw [UInt16.toNat_toUInt8, hword]
    omega
  have hhigh : (ofLe16 lo hi >>> 8).toUInt8 = hi := by
    apply UInt8.toNat_inj.1
    rw [UInt16.toNat_toUInt8, UInt16.toNat_shiftRight, hshift, Nat.shiftRight_eq_div_pow, hword]
    omega
  rw [le16, hlow, hhigh]
end Memory
