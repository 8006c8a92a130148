import Mathlib.Data.List.Basic
import Mathlib.Algebra.Order.Group.Nat

/-!
# Walks over records

Records lie one behind the other, and `len p` is the length that the record at `p` announces.
`records len limit p` are the positions that a walk from `p` comes to before `limit`. A record
of length 0 is the last of them: the walk does not get past it.
-/

namespace Framing

theorem forall_split_cons {α : Type*} {P : List α → α → Prop} {a : α} {l : List α} :
    (∀ before x after, a :: l = before ++ x :: after → P before x) ↔
      P [] a ∧ ∀ before x after, l = before ++ x :: after → P (a :: before) x := by
  constructor
  · intro h
    exact ⟨h [] a l rfl, fun before x after heq => h (a :: before) x after (congrArg (a :: ·) heq)⟩
  · rintro ⟨hfirst, hrest⟩ before x after heq
    cases before with
    | nil =>
        obtain ⟨rfl, -⟩ := List.cons.inj heq
        exact hfirst
    | cons b before =>
        obtain ⟨rfl, heq'⟩ := List.cons.inj heq
        exact hrest before x after heq'

theorem forall_split_cons_imp {α : Type*} {P Q : List α → α → Prop} {a : α} {l : List α} :
    (∀ before x after, a :: l = before ++ x :: after →
        (∀ b y c, before = b ++ y :: c → Q b y) → P before x) ↔
      P [] a ∧ (Q [] a → ∀ before x after, l = before ++ x :: after →
        (∀ b y c, before = b ++ y :: c → Q (a :: b) y) → P (a :: before) x) := by
  rw [forall_split_cons]
  simp only [forall_split_cons]
  constructor
  · rintro ⟨hfirst, hrest⟩
    refine ⟨hfirst fun b y c heq => ?_, fun ha before x after heq hbefore => ?_⟩
    · exact absurd heq.symm (List.append_ne_nil_of_right_ne_nil b (List.cons_ne_nil y c))
    · exact hrest before x after heq ⟨ha, hbefore⟩
  · rintro ⟨hfirst, hrest⟩
    exact ⟨fun _ => hfirst, fun before x after heq h => hrest h.1 before x after heq h.2⟩

theorem forall_split_nil {α : Type*} {P : List α → α → Prop} :
    ∀ before x after, ([] : List α) = before ++ x :: after → P before x := by
  intro before x after heq
  exact absurd heq.symm (List.append_ne_nil_of_right_ne_nil before (List.cons_ne_nil x after))

def positions (len : ℕ → ℕ) (limit : ℕ) : ℕ → ℕ → List ℕ
  | 0, _ => []
  | fuel + 1, p =>
      if p < limit then p :: if len p = 0 then [] else positions len limit fuel (p + len p)
      else []

def records (len : ℕ → ℕ) (limit p : ℕ) : List ℕ := positions len limit (limit - p) p

section Records

variable {len : ℕ → ℕ} {limit p : ℕ}

theorem positions_of_le (h : limit ≤ p) (fuel : ℕ) : positions len limit fuel p = [] := by
  cases fuel with
  | zero => rfl
  | succ fuel => exact if_neg (Nat.not_lt.2 h)

theorem positions_congr {a b : ℕ} (ha : limit - p ≤ a) (hb : limit - p ≤ b) :
    positions len limit a p = positions len limit b p := by
  induction a generalizing b p with
  | zero => rw [positions_of_le (by omega), positions_of_le (by omega)]
  | succ a ih =>
      by_cases hlt : p < limit
      · cases b with
        | zero => omega
        | succ b =>
            rw [positions, positions, if_pos hlt, if_pos hlt]
            by_cases hlen : len p = 0
            · rw [if_pos hlen, if_pos hlen]
            · have ha' : limit - (p + len p) ≤ a := by omega
              have hb' : limit - (p + len p) ≤ b := by omega
              rw [if_neg hlen, if_neg hlen, ih ha' hb']
      · rw [positions_of_le (by omega), positions_of_le (by omega)]

theorem records_of_le (h : limit ≤ p) : records len limit p = [] := positions_of_le h _

theorem records_of_zero (h : p < limit) (hlen : len p = 0) : records len limit p = [p] := by
  obtain ⟨n, hn⟩ : ∃ n, limit - p = n + 1 := ⟨limit - p - 1, by omega⟩
  rw [records, hn, positions, if_pos h, if_pos hlen]

theorem records_of_lt (h : p < limit) (hlen : len p ≠ 0) :
    records len limit p = p :: records len limit (p + len p) := by
  obtain ⟨n, hn⟩ : ∃ n, limit - p = n + 1 := ⟨limit - p - 1, by omega⟩
  rw [records, hn, positions, if_pos h, if_neg hlen, records]
  exact congrArg (p :: ·) (positions_congr (by omega) (Nat.le_refl _))

/-- A walk ends at the limit, at a record of length 0, or goes on behind a record. -/
theorem records_induction {motive : ℕ → Prop} (limit : ℕ) (len : ℕ → ℕ)
    (stop : ∀ p, limit ≤ p → motive p) (stuck : ∀ p, p < limit → len p = 0 → motive p)
    (next : ∀ p, p < limit → len p ≠ 0 → motive (p + len p) → motive p) (p : ℕ) : motive p := by
  induction hn : limit - p using Nat.strongRecOn generalizing p with
  | _ n ih =>
      by_cases hlt : p < limit
      · by_cases hlen : len p = 0
        · exact stuck p hlt hlen
        · exact next p hlt hlen (ih (limit - (p + len p)) (by omega) _ rfl)
      · exact stop p (Nat.not_lt.1 hlt)

theorem bounds_of_mem_records {q : ℕ} (h : q ∈ records len limit p) : p ≤ q ∧ q < limit := by
  induction p using records_induction limit len with
  | stop p hp =>
      rw [records_of_le hp] at h
      exact absurd h List.not_mem_nil
  | stuck p hp hlen =>
      rw [records_of_zero hp hlen, List.mem_singleton] at h
      exact ⟨h.ge, h ▸ hp⟩
  | next p hp hlen ih =>
      rw [records_of_lt hp hlen, List.mem_cons] at h
      rcases h with rfl | h
      · exact ⟨Nat.le_refl q, hp⟩
      · exact ⟨Nat.le_of_add_right_le (ih h).1, (ih h).2⟩

/-- Each step of a walk goes forward. -/
theorem pairwise_records (len : ℕ → ℕ) (limit p : ℕ) :
    (records len limit p).Pairwise (· < ·) := by
  induction p using records_induction limit len with
  | stop p hp =>
      rw [records_of_le hp]
      exact List.Pairwise.nil
  | stuck p hp hlen =>
      rw [records_of_zero hp hlen]
      exact List.pairwise_singleton _ p
  | next p hp hlen ih =>
      rw [records_of_lt hp hlen]
      refine List.pairwise_cons.2 ⟨fun q hq => ?_, ih⟩
      have hle := (bounds_of_mem_records hq).1
      omega

theorem pairwise_records_add (len : ℕ → ℕ) (limit p : ℕ) :
    (records len limit p).Pairwise fun q q' => q + len q ≤ q' := by
  induction p using records_induction limit len with
  | stop p hp =>
      rw [records_of_le hp]
      exact List.Pairwise.nil
  | stuck p hp hlen =>
      rw [records_of_zero hp hlen]
      exact List.pairwise_singleton _ p
  | next p hp hlen ih =>
      rw [records_of_lt hp hlen]
      exact List.pairwise_cons.2 ⟨fun q hq => (bounds_of_mem_records hq).1, ih⟩

end Records

end Framing
