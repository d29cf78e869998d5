import Mathlib.Data.List.Basic

/-!
# Bounded channels

A channel of limited capacity between tasks, the oldest item first. A send that waits is a
`trySend` that is not taken while the channel is full.
-/

/-- Why a send without waiting fails. -/
inductive TrySendError
  | full
  | closed
  deriving DecidableEq, Repr

/-- A bounded channel. -/
structure Channel (α : Type*) where
  /-- What waits to be received, the oldest first. -/
  items : List α := []
  capacity : ℕ
  /-- The receiver is gone. -/
  closed : Bool := false
  deriving DecidableEq

namespace Channel

variable {α : Type*} (q : Channel α)

/-- There is room for another item. -/
def HasRoom : Prop := q.closed = false ∧ q.items.length < q.capacity

instance : Decidable q.HasRoom := inferInstanceAs (Decidable (_ ∧ _))

/-- Send without waiting. -/
def trySend (a : α) : Except TrySendError (Channel α) :=
  if q.closed then .error .closed
  else if q.items.length < q.capacity then .ok { q with items := q.items ++ [a] }
  else .error .full

/-- Receive, if there is something to receive. -/
def recv : Option (α × Channel α) :=
  match q.items with
  | [] => none
  | a :: rest => some (a, { q with items := rest })

variable {q}

/-- A send succeeds where there is room, and puts the item last. -/
theorem trySend_eq_ok_iff {a : α} {q' : Channel α} :
    q.trySend a = .ok q' ↔ q.HasRoom ∧ q' = { q with items := q.items ++ [a] } := by
  unfold trySend HasRoom
  split_ifs with hclosed hroom
  · simp [hclosed]
  · simp [hclosed, hroom, eq_comm]
  · simp [hroom]

/-- What is received was the first item. -/
theorem recv_eq_some_iff {a : α} {q' : Channel α} :
    q.recv = some (a, q') ↔ ∃ rest, q.items = a :: rest ∧ q' = { q with items := rest } := by
  unfold recv
  split
  · next h => simp [h]
  · next b rest h =>
    simp only [Option.some.injEq, Prod.mk.injEq, h, List.cons.injEq]
    constructor
    · rintro ⟨rfl, rfl⟩
      exact ⟨rest, ⟨rfl, rfl⟩, rfl⟩
    · rintro ⟨rest', ⟨rfl, rfl⟩, rfl⟩
      exact ⟨rfl, rfl⟩

end Channel
