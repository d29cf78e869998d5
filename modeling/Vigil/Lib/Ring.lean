import Mathlib.Data.List.Basic
import Mathlib.Data.Nat.Notation

/-!
# Ring buffers

A ring buffer keeps the latest elements that were pushed, as many as its capacity. It is a list
here, the oldest element first. `push_recent` is the law of a buffer: pushing drops the oldest
element of a full buffer, so that a buffer of the latest elements stays one.
-/

namespace Ring

variable {α : Type*} (c : ℕ)

/-- The latest `c` elements of a list. -/
def recent (l : List α) : List α := l.drop (l.length - c)

/-- Push an element, and drop the oldest one of a buffer that has `c` elements already. -/
def push (l : List α) (x : α) : List α := (if c ≤ l.length then l.tail else l) ++ [x]

/-- There is nothing to keep of an empty list. -/
@[simp] theorem recent_nil : recent c ([] : List α) = [] := by
  simp [recent]

/-- Only an empty list has nothing to keep. -/
theorem eq_nil_of_recent {l : List α} (hc : 0 < c) (h : recent c l = []) : l = [] := by
  have hlen := congrArg List.length h
  rw [recent, List.length_drop, List.length_nil] at hlen
  exact List.eq_nil_of_length_eq_zero (by omega)

/-- Pushing to a buffer of the latest elements leaves the latest elements. -/
theorem push_recent (hc : 0 < c) (l : List α) (x : α) :
    push c (recent c l) x = recent c (l ++ [x]) := by
  unfold push recent
  rw [List.length_drop, List.length_append, List.length_singleton]
  split_ifs with h
  · -- The buffer is full, and its oldest element is the one before the latest `c - 1`.
    rw [List.tail_drop, List.drop_append_of_le_length (by omega)]
    congr 2
    omega
  · rw [show l.length - c = 0 by omega, show l.length + 1 - c = 0 by omega]
    rfl

/-- A buffer with room for nothing keeps the element that is pushed, like one with room for one. -/
theorem push_max_one : push (α := α) (max c 1) = push c := by
  funext l x
  cases l with
  | nil =>
    unfold push
    split_ifs <;> rfl
  | cons y l =>
    have hiff : max c 1 ≤ (y :: l).length ↔ c ≤ (y :: l).length := by
      rw [List.length_cons]
      omega
    simp only [push, hiff]

/-- The latest elements are as many as fit, or all. -/
theorem length_recent (l : List α) : (recent c l).length = min c l.length := by
  rw [recent, List.length_drop]
  omega

end Ring
