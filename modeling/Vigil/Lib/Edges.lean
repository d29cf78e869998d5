import Mathlib.Data.List.Destutter

/-!
# Edges of a signal

A signal is watched for changes: an observation is an edge if it differs from the last one, and the
first observation is an edge unless it has the value at which the signal rests. `edges` are the
edges of a sequence of observations. They are the sequence without repetitions and without a leading
resting value (`edges_eq`), so any two neighbours differ (`isChain_edges`) and the first does not
rest (`head?_edges_ne`). The edges up to an observation do not depend on what follows
(`edges_append_singleton`).
-/

namespace Edges

variable {α : Type*} [DecidableEq α] (rest : α)

/-- An observation is an edge after the last one before it, if there is one. -/
def IsEdge (last : Option α) (x : α) : Prop := last ≠ some x ∧ (last = none → x ≠ rest)

instance (last : Option α) (x : α) : Decidable (IsEdge rest last x) :=
  inferInstanceAs (Decidable (_ ∧ _))

/-- The edges of the observations that follow a last one. -/
def edgesFrom : Option α → List α → List α
  | _, [] => []
  | last, x :: xs =>
    if IsEdge rest last x then x :: edgesFrom (some x) xs else edgesFrom (some x) xs

/-- The edges of a sequence of observations. -/
def edges (xs : List α) : List α := edgesFrom rest none xs

/-- The edges of a sequence in two parts are those of the first part and, from its last element on,
those of the second. -/
theorem edgesFrom_append (last : Option α) (xs ys : List α) :
    edgesFrom rest last (xs ++ ys) =
      edgesFrom rest last xs ++ edgesFrom rest (xs.getLast?.or last) ys := by
  induction xs generalizing last with
  | nil => rfl
  | cons x xs ih =>
    have hlast : xs.getLast?.or (some x) = (x :: xs).getLast?.or last := by
      rw [List.getLast?_cons]
      cases xs.getLast? <;> rfl
    rw [List.cons_append, edgesFrom, edgesFrom, ih, hlast]
    split_ifs <;> rfl

/-- One more observation is one more edge, or none. -/
theorem edges_append_singleton (xs : List α) (x : α) :
    edges rest (xs ++ [x]) = edges rest xs ++ if IsEdge rest xs.getLast? x then [x] else [] := by
  rw [edges, edgesFrom_append, Option.or_none, edges]
  congr 1

/-- After an observation, the edges are what remains when repetitions are removed. -/
theorem cons_edgesFrom_some (x : α) (xs : List α) :
    x :: edgesFrom rest (some x) xs = xs.destutter' (· ≠ ·) x := by
  induction xs generalizing x with
  | nil => rfl
  | cons y xs ih =>
    rw [List.destutter', edgesFrom]
    by_cases hxy : x = y
    · subst hxy
      rw [if_neg (fun h => h.1 rfl), if_neg (fun h => h rfl), ih]
    · have hedge : IsEdge rest (some x) y := ⟨fun h => hxy (Option.some.inj h), nofun⟩
      rw [if_pos hedge, if_pos hxy, ih]

/-- The edges are the observations without repetitions and without a leading resting value. -/
theorem edges_eq (xs : List α) :
    edges rest xs = (xs.destutter (· ≠ ·)).dropWhile fun x => decide (x = rest) := by
  cases xs with
  | nil => rfl
  | cons x xs =>
    have hdes : (x :: xs).destutter (· ≠ ·) = x :: edgesFrom rest (some x) xs :=
      (cons_edgesFrom_some rest x xs).symm
    rw [hdes, edges, edgesFrom]
    by_cases hx : x = rest
    · rw [if_neg (fun h => h.2 rfl hx), List.dropWhile_cons_of_pos (by simpa using hx)]
      -- The next edge after the resting value is not at rest.
      have hchain : (x :: edgesFrom rest (some x) xs).IsChain (· ≠ ·) :=
        hdes ▸ List.isChain_destutter _ _
      cases hes : edgesFrom rest (some x) xs with
      | nil => rfl
      | cons y ys =>
        rw [hes, List.isChain_cons_cons] at hchain
        rw [List.dropWhile_cons_of_neg (by simpa [← hx] using hchain.1.symm)]
    · rw [if_pos ⟨nofun, fun _ => hx⟩, List.dropWhile_cons_of_neg (by simpa using hx)]

/-- Neighbouring edges differ. -/
theorem isChain_edges (xs : List α) : (edges rest xs).IsChain (· ≠ ·) := by
  rw [edges_eq]
  exact (List.isChain_destutter _ xs).suffix (List.dropWhile_suffix _)

/-- The first edge is not at rest. -/
theorem head?_edges_ne (xs : List α) : (edges rest xs).head? ≠ some rest := by
  rw [edges_eq]
  intro h
  have hne : (xs.destutter (· ≠ ·)).dropWhile (fun x => decide (x = rest)) ≠ [] := by
    rintro hnil
    rw [hnil] at h
    cases h
  have hhead := List.head_dropWhile_not (fun x => decide (x = rest)) hne
  rw [List.head?_eq_some_head hne, Option.some.injEq] at h
  simp [h] at hhead

end Edges
