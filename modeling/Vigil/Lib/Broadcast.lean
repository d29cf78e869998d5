import Mathlib.Data.List.Basic
import Mathlib.Data.List.Infix
import Mathlib.Tactic.Common

/-!
# A broadcast channel

A channel that keeps the latest values, as many as its capacity, for receivers that each have a
place in what has been sent. A receiver that has fallen behind what is kept is told how many values
it has missed, and goes on with the oldest one that is there.

`Accounts` says that what a receiver has been given accounts for everything that was sent in the
meantime: each value, in order, was received or is one of a number that was missed. A receiver keeps
it from its first place on (`Follows`), whatever it is given (`Follows.recv`) and whatever is sent
(`Follows.append`).
-/

namespace Broadcast

variable {α : Type*}

/-- What a receiver is given. -/
inductive Received (α : Type*)
  | value (a : α)
  /-- So many values have been missed. -/
  | lagged (skipped : ℕ)
  deriving DecidableEq

/-- What the receiver is given that has had everything before `next`, and its next place. -/
def recv (capacity : ℕ) (sent : List α) (next : ℕ) : Option (Received α × ℕ) :=
  if next + capacity < sent.length then
    some (.lagged (sent.length - capacity - next), sent.length - capacity)
  else sent[next]?.map fun a => (.value a, next + 1)

/-- What was sent from one place up to another. -/
def span (sent : List α) (start stop : ℕ) : List α := (sent.take stop).drop start

/-- The values among what a receiver was given. -/
def values (rs : List (Received α)) : List α :=
  rs.filterMap fun
    | .value a => some a
    | .lagged _ => none

/-- The values among what was given at two times. -/
@[simp] theorem values_append (rs rs' : List (Received α)) :
    values (rs ++ rs') = values rs ++ values rs' := List.filterMap_append

/-- A value. -/
@[simp] theorem values_value (a : α) : values [.value a] = [a] := rfl

/-- No value. -/
@[simp] theorem values_lagged (n : ℕ) : values [(.lagged n : Received α)] = [] := rfl

/-- What a receiver was given accounts for what was sent: each value was received, or missed. -/
inductive Accounts : List α → List (Received α) → Prop
  | nil : Accounts [] []
  | value {l rs} (h : Accounts l rs) (a : α) : Accounts (l ++ [a]) (rs ++ [.value a])
  | lagged {l rs} (h : Accounts l rs) (missed : List α) :
    Accounts (l ++ missed) (rs ++ [.lagged missed.length])

/-! ## Spans -/

variable {sent : List α} {start mid stop : ℕ}

/-- Nothing was sent from a place up to itself. -/
@[simp] theorem span_self (sent : List α) (n : ℕ) : span sent n n = [] := by
  rw [span, List.drop_eq_nil_iff, List.length_take]
  exact Nat.min_le_left _ _

/-- What follows a place is what was sent up to a later one, and the rest. -/
theorem span_append_drop (h : start ≤ stop) (h' : stop ≤ sent.length) :
    span sent start stop ++ sent.drop stop = sent.drop start := by
  conv_rhs => rw [← List.take_append_drop stop sent]
  rw [List.drop_append_of_le_length (by rwa [List.length_take, Nat.min_eq_left h'])]
  rfl

/-- Two spans that meet are one span. -/
theorem span_append_span (h : start ≤ mid) (h' : mid ≤ stop) (hs : stop ≤ sent.length) :
    span sent start mid ++ span sent mid stop = span sent start stop := by
  have htake : (sent.take stop).take mid = sent.take mid := by
    rw [List.take_take, Nat.min_eq_left h']
  have hlen : mid ≤ (sent.take stop).length := by rwa [List.length_take, Nat.min_eq_left hs]
  have := span_append_drop h hlen
  rwa [span, htake] at this

/-- What is sent later changes no span. -/
theorem span_append (h : stop ≤ sent.length) (later : List α) :
    span (sent ++ later) start stop = span sent start stop := by
  rw [span, span, List.take_append_of_le_length h]

/-- A span has as many values as places. -/
theorem length_span (h : stop ≤ sent.length) : (span sent start stop).length = stop - start := by
  rw [span, List.length_drop, List.length_take, Nat.min_eq_left h]

/-! ## Receivers -/

/-- Every receiving is a value, or a number of missed ones. -/
theorem recv_cases {capacity : ℕ} {next next' : ℕ} {r : Received α}
    (h : recv capacity sent next = some (r, next')) :
    (∃ a, r = .value a ∧ next' = next + 1 ∧ sent[next]? = some a) ∨
      r = .lagged (next' - next) ∧ next < next' ∧ next' ≤ sent.length := by
  unfold recv at h
  split_ifs at h with hlag
  · obtain ⟨rfl, rfl⟩ := Prod.mk.inj (Option.some.inj h)
    exact .inr ⟨rfl, by omega, Nat.sub_le _ _⟩
  · obtain ⟨a, ha, h⟩ := Option.map_eq_some_iff.mp h
    obtain ⟨rfl, rfl⟩ := Prod.mk.inj h
    exact .inl ⟨a, rfl, rfl, ha⟩

/-- The next place is further on, and nothing is beyond the end. -/
theorem lt_of_recv {capacity : ℕ} {next next' : ℕ} {r : Received α}
    (h : recv capacity sent next = some (r, next')) : next < next' ∧ next' ≤ sent.length := by
  rcases recv_cases h with ⟨a, -, rfl, ha⟩ | ⟨-, hlt, hle⟩
  · exact ⟨Nat.lt_succ_self _, (List.getElem?_eq_some_iff.mp ha).1⟩
  · exact ⟨hlt, hle⟩

/-- What accounts for a span accounts, with what is received next, for the longer one. -/
theorem Accounts.recv {capacity : ℕ} {rs : List (Received α)} {next next' : ℕ} {r : Received α}
    (h : Accounts (span sent start next) rs) (hle : start ≤ next)
    (hr : Broadcast.recv capacity sent next = some (r, next')) :
    Accounts (span sent start next') (rs ++ [r]) := by
  have hlt := lt_of_recv hr
  rw [← span_append_span hle hlt.1.le hlt.2]
  rcases recv_cases hr with ⟨a, rfl, rfl, ha⟩ | ⟨rfl, -, -⟩
  · have hone : span sent next (next + 1) = [a] := by
      have hlen : next ≤ (sent.take next).length := by
        rw [List.length_take]
        omega
      rw [span, List.take_add_one, ha, List.drop_append_of_le_length hlen]
      simp
    rw [hone]
    exact h.value a
  · rw [← length_span hlt.2]
    exact h.lagged _

/-- A receiver with its first place and its next one, and what it was given between them. -/
structure Follows (sent : List α) (start next : ℕ) (received : List (Received α)) : Prop where
  start_le : start ≤ next
  next_le : next ≤ sent.length
  accounts : Accounts (span sent start next) received

/-- A new receiver has its place at the end. -/
theorem follows_length (sent : List α) : Follows sent sent.length sent.length [] :=
  ⟨le_rfl, le_rfl, by rw [span_self]; exact .nil⟩

/-- A receiver follows what is sent, however much more is sent. -/
theorem Follows.append {next : ℕ} {rs : List (Received α)} (h : Follows sent start next rs)
    (later : List α) : Follows (sent ++ later) start next rs where
  start_le := h.start_le
  next_le := by
    rw [List.length_append]
    exact Nat.le_add_right_of_le h.next_le
  accounts := by
    rw [span_append h.next_le]
    exact h.accounts

/-- A receiver that has received something follows what is sent from its new place. -/
theorem Follows.recv {capacity next next' : ℕ} {rs : List (Received α)} {r : Received α}
    (h : Follows sent start next rs) (hr : Broadcast.recv capacity sent next = some (r, next')) :
    Follows sent start next' (rs ++ [r]) where
  start_le := h.start_le.trans (lt_of_recv hr).1.le
  next_le := (lt_of_recv hr).2
  accounts := h.accounts.recv h.start_le hr

/-- The values are among what was sent, in order. -/
theorem Accounts.sublist {l : List α} {rs : List (Received α)} (h : Accounts l rs) :
    (values rs).Sublist l := by
  induction h with
  | nil => exact List.Sublist.refl _
  | value _ a ih => simpa using ih.append (List.Sublist.refl [a])
  | lagged _ missed ih => simpa using ih.append (List.nil_sublist missed)

/-- A receiver that has missed nothing has had everything. -/
theorem Accounts.eq_values {l : List α} {rs : List (Received α)} (h : Accounts l rs)
    (hnone : ∀ n, .lagged n ∉ rs) : values rs = l := by
  induction h with
  | nil => rfl
  | value _ a ih =>
    rw [values_append, ih fun n hn => hnone n (List.mem_append_left _ hn), values_value]
  | lagged _ missed _ => exact absurd (by simp) (hnone missed.length)

/-- Spans that follow each other are among what was sent, in order. -/
theorem flatMap_span_sublist {windows : List (ℕ × ℕ)} {n : ℕ}
    (hpair : windows.Pairwise fun w v => w.2 ≤ v.1)
    (hle : ∀ w ∈ windows, n ≤ w.1 ∧ w.1 ≤ w.2 ∧ w.2 ≤ sent.length) :
    (windows.flatMap fun w => span sent w.1 w.2).Sublist (sent.drop n) := by
  induction windows generalizing n with
  | nil => exact List.nil_sublist _
  | cons w windows ih =>
    obtain ⟨hw, hpair⟩ := List.pairwise_cons.mp hpair
    obtain ⟨⟨hn, hw', hlen⟩, hle⟩ := List.forall_mem_cons.mp hle
    have hrest := ih hpair (n := w.2) fun v hv => ⟨hw v hv, (hle v hv).2⟩
    have hdrop : (sent.drop w.1).Sublist (sent.drop n) := by
      rw [← Nat.add_sub_cancel' hn, ← List.drop_drop]
      exact List.drop_sublist _ _
    rw [List.flatMap_cons]
    refine List.Sublist.trans ?_ hdrop
    rw [← span_append_drop hw' hlen]
    exact (List.Sublist.refl _).append hrest

end Broadcast
