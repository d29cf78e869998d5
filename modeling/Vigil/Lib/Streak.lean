import Mathlib.Data.Nat.Find
import Mathlib.Tactic.Common

/-!
# Streaks

The number of consecutive positions, counted back from a position, at which a test holds. A streak
grows by one at a time, so that the first streak of a length has exactly this length
(`exists_first`), and the test holds all along a streak (`of_streak`).
-/

namespace Streak

variable (p : ℕ → Bool)

/-- The number of consecutive positions right before `n` at which the test holds. -/
def streak : ℕ → ℕ
  | 0 => 0
  | n + 1 => if p n then streak n + 1 else 0

variable {p}

/-- One more position at which the test holds. -/
theorem streak_succ_of_true {n : ℕ} (h : p n = true) : streak p (n + 1) = streak p n + 1 := by
  rw [streak, if_pos h]

/-- A position at which it does not hold ends the streak. -/
theorem streak_succ_of_false {n : ℕ} (h : p n = false) : streak p (n + 1) = 0 := by
  rw [streak, h]
  rfl

/-- A streak does not begin before the first position. -/
theorem streak_le (n : ℕ) : streak p n ≤ n := by
  induction n with
  | zero => exact Nat.le_refl 0
  | succ n ih =>
    cases h : p n with
    | true =>
      rw [streak_succ_of_true h]
      exact Nat.succ_le_succ ih
    | false =>
      rw [streak_succ_of_false h]
      exact Nat.zero_le _

/-- The test holds at the last `streak p n` places before `n`. -/
theorem of_streak {n i : ℕ} (hi : i < n) (h : n ≤ i + streak p n) : p i = true := by
  induction n with
  | zero => exact absurd hi (Nat.not_lt_zero i)
  | succ n ih =>
    cases hn : p n with
    | false =>
      rw [streak_succ_of_false hn] at h
      omega
    | true =>
      rw [streak_succ_of_true hn] at h
      rcases Nat.lt_succ_iff_lt_or_eq.mp hi with hlt | rfl
      · exact ih hlt (by omega)
      · exact hn

/-- The first streak of at least a length has this length. -/
theorem exists_first {length n : ℕ} (hpos : 0 < length) (h : length ≤ streak p n) :
    ∃ k ≤ n, streak p k = length ∧ ∀ j < k, streak p j < length := by
  have hex : ∃ k, length ≤ streak p k := ⟨n, h⟩
  refine ⟨Nat.find hex, Nat.find_min' hex h, ?_, fun j hj => Nat.not_le.mp (Nat.find_min hex hj)⟩
  have hge := Nat.find_spec hex
  have hbefore := fun j => @Nat.find_min _ _ hex j
  generalize Nat.find hex = k at hge hbefore
  cases k with
  | zero =>
    rw [streak] at hge
    omega
  | succ k =>
    have hlt := Nat.not_le.mp (hbefore k (Nat.lt_succ_self k))
    rw [streak] at hge ⊢
    split_ifs at hge ⊢ <;> omega

end Streak
