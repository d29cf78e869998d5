import Mathlib.Logic.Basic
import Mathlib.Tactic.Common

/-!
# Runs of a machine with partial steps

A machine is a partial step function: `step s l` is the state after the step labelled `l` from `s`,
and `none` where that step is not possible. `Reaches step G s₀ s` says that a run leads from `s₀` to
`s` whose steps all meet the condition `G` on the state before the step and the label. With the
condition `Always` it is plain reachability, and a stronger condition singles out the runs of a
theorem that is about those only.

The rules are the ones that proofs about runs use: weakening the condition, joining runs, and the
invariant rule, in which a step may use that the state before it is itself reached. `runIf` executes
a list of labels and checks the condition on the way, so that a concrete run is found by evaluation
(`Reaches.exists_of_runIf`).
-/

namespace Runs

variable {σ ℓ : Type*}

/-- The condition that every step meets. -/
def Always : σ → ℓ → Prop := fun _ _ => True

instance instDecidableAlways (s : σ) (l : ℓ) : Decidable (Always s l) := isTrue trivial

/-- A run leads from `s₀` to the state, and each of its steps meets `G`. -/
inductive Reaches (step : σ → ℓ → Option σ) (G : σ → ℓ → Prop) (s₀ : σ) : σ → Prop
  /-- The empty run. -/
  | refl : Reaches step G s₀ s₀
  /-- One more step. -/
  | tail {s s' : σ} {l : ℓ} (h : Reaches step G s₀ s) (hG : G s l) (hs : step s l = some s') :
    Reaches step G s₀ s'

namespace Reaches

variable {step : σ → ℓ → Option σ} {G G' : σ → ℓ → Prop} {s₀ s s' : σ}

/-- A step under the guard is a run of one step. -/
theorem single {l : ℓ} (hG : G s l) (hs : step s l = some s') : Reaches step G s s' :=
  refl.tail hG hs

/-- Runs that meet a condition meet a weaker one. -/
theorem mono (hG : ∀ s l, G s l → G' s l) (h : Reaches step G s₀ s) : Reaches step G' s₀ s := by
  induction h with
  | refl => exact refl
  | tail _ hl hs ih => exact ih.tail (hG _ _ hl) hs

/-- A run under a guard is a run without one. -/
theorem always (h : Reaches step G s₀ s) : Reaches step Always s₀ s :=
  h.mono fun _ _ _ => trivial

/-- A run may be continued by another. -/
theorem trans (h : Reaches step G s₀ s) (h' : Reaches step G s s') : Reaches step G s₀ s' := by
  induction h' with
  | refl => exact h
  | tail _ hl hs ih => exact ih.tail hl hs

/-- A run may be given its first step. -/
theorem head {l : ℓ} (hG : G s₀ l) (hs : step s₀ l = some s) (h : Reaches step G s s') :
    Reaches step G s₀ s' :=
  (single hG hs).trans h

/-- The invariant rule: what holds at the start and is kept by every step that meets the condition
from a reached state holds of every state reached. -/
theorem invariant {P : σ → Prop} (h : Reaches step G s₀ s) (h₀ : P s₀)
    (hstep : ∀ s l s', Reaches step G s₀ s → P s → G s l → step s l = some s' → P s') : P s := by
  induction h with
  | refl => exact h₀
  | tail hr hl hs ih => exact hstep _ _ _ hr ih hl hs

/-- Runs meet whatever follows from the condition in the states that they reach. -/
theorem strengthen (h : Reaches step G s₀ s)
    (hG : ∀ s l, Reaches step G s₀ s → G s l → G' s l) : Reaches step G' s₀ s := by
  induction h with
  | refl => exact refl
  | tail hr hl hs ih => exact ih.tail (hG _ _ hr hl) hs

/-- The invariant rule for a quantity that no step of the run changes. -/
theorem constant {α : Type*} (f : σ → α) (h : Reaches step G s₀ s)
    (hstep : ∀ s l s', Reaches step G s₀ s → G s l → step s l = some s' → f s' = f s) :
    f s = f s₀ :=
  h.invariant (P := fun s => f s = f s₀) rfl fun s l s' hr hs hG hl =>
    (hstep s l s' hr hG hl).trans hs

end Reaches

/-- The state after a list of labels, if every step is possible and meets `G`. -/
def runIf (step : σ → ℓ → Option σ) (G : σ → ℓ → Prop) [∀ s l, Decidable (G s l)] :
    σ → List ℓ → Option σ
  | s, [] => some s
  | s, l :: ls => if G s l then (step s l).bind fun s' => runIf step G s' ls else none

variable {step : σ → ℓ → Option σ} {G : σ → ℓ → Prop} [∀ s l, Decidable (G s l)]

/-- An executed list of labels is a run. -/
theorem Reaches.of_runIf {ls : List ℓ} {s s' : σ} (h : runIf step G s ls = some s') :
    Reaches step G s s' := by
  induction ls generalizing s with
  | nil => rw [runIf, Option.some.injEq] at h; exact h ▸ Reaches.refl
  | cons l ls ih =>
    rw [runIf] at h
    split_ifs at h with hG
    obtain ⟨t, ht, h⟩ := Option.bind_eq_some_iff.mp h
    exact Reaches.head hG ht (ih h)

/-- A list of labels whose last state passes a test is a run to a state that passes it. -/
theorem Reaches.exists_of_runIf {s : σ} (ls : List ℓ) {p : σ → Bool}
    (h : (runIf step G s ls).any p = true) : ∃ s', Reaches step G s s' ∧ p s' = true := by
  cases hr : runIf step G s ls with
  | none => simp [hr] at h
  | some s' => exact ⟨s', .of_runIf hr, by simpa [hr] using h⟩

/-- The last state of an executed list of labels is reached, if every step is possible. -/
theorem Reaches.getD_runIf {s d : σ} {ls : List ℓ} (h : (runIf step G s ls).isSome = true) :
    Reaches step G s ((runIf step G s ls).getD d) := by
  obtain ⟨s', hs'⟩ := Option.isSome_iff_exists.mp h
  rw [hs', Option.getD_some]
  exact .of_runIf hs'

/-! ## Runs with their labels -/

/-- A run from `s₀` to the state whose steps meet `G` and have these labels, the last one first. -/
inductive Trace (step : σ → ℓ → Option σ) (G : σ → ℓ → Prop) (s₀ : σ) : List ℓ → σ → Prop
  /-- The empty run. -/
  | refl : Trace step G s₀ [] s₀
  /-- One more step. -/
  | tail {hist : List ℓ} {s s' : σ} {l : ℓ} (h : Trace step G s₀ hist s) (hG : G s l)
    (hs : step s l = some s') : Trace step G s₀ (l :: hist) s'

omit [∀ s l, Decidable (G s l)] in
/-- The state that a history leads to is reached. -/
theorem Trace.reaches {s₀ s : σ} {hist : List ℓ} (h : Trace step G s₀ hist s) :
    Reaches step G s₀ s := by
  induction h with
  | refl => exact .refl
  | tail _ hG hs ih => exact ih.tail hG hs

/-- A run may be continued by an executed list of labels. -/
theorem Trace.append_runIf {s₀ s s' : σ} {hist ls : List ℓ} (h : Trace step G s₀ hist s)
    (hr : runIf step G s ls = some s') : Trace step G s₀ (ls.reverse ++ hist) s' := by
  induction ls generalizing s hist with
  | nil =>
    obtain rfl := Option.some.inj hr
    exact h
  | cons l ls ih =>
    rw [runIf] at hr
    split_ifs at hr with hG
    obtain ⟨t, ht, hr⟩ := Option.bind_eq_some_iff.mp hr
    rw [List.reverse_cons, List.append_assoc]
    exact ih (h.tail hG ht) hr

/-- An executed list of labels is a run with these labels. -/
theorem Trace.of_runIf {s s' : σ} {ls : List ℓ} (h : runIf step G s ls = some s') :
    Trace step G s ls.reverse s' := by
  rw [← List.append_nil ls.reverse]
  exact Trace.refl.append_runIf h

/-- The last state of an executed list of labels, if every step is possible. -/
theorem Trace.getD_runIf {s d : σ} {ls : List ℓ} (h : (runIf step G s ls).isSome = true) :
    Trace step G s ls.reverse ((runIf step G s ls).getD d) := by
  obtain ⟨s', hs'⟩ := Option.isSome_iff_exists.mp h
  rw [hs', Option.getD_some]
  exact .of_runIf hs'

end Runs
