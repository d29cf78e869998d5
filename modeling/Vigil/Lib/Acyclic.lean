import Mathlib.Data.Fintype.Card
import Mathlib.Data.Set.Finite.Basic
import Mathlib.Logic.Relation

/-!
# Induction along an acyclic relation

Where from an element only finitely many others are reached, and none of them reaches itself, what
holds of an element whenever it holds of its successors holds of all of them
(`Acyclic.induction`).
-/

namespace Acyclic

open Relation

variable {α : Type*} {r : α → α → Prop} {x : α}

/-- The elements that are reached from `x`. -/
def Reached (r : α → α → Prop) (x : α) : Type _ := {y : α // ReflTransGen r x y}

/-- On the elements that are reached from `x`, the relation is well-founded from successors to their
predecessors. -/
theorem wellFounded {l : List α} (hfin : ∀ y, ReflTransGen r x y → y ∈ l)
    (hac : ∀ y, ReflTransGen r x y → ¬TransGen r y y) :
    WellFounded fun z y : Reached r x => TransGen r y.1 z.1 := by
  have : Finite (Reached r x) :=
    ((List.finite_toSet l).subset (t := {y | ReflTransGen r x y}) hfin).to_subtype
  have : IsTrans (Reached r x) fun z y => TransGen r y.1 z.1 :=
    ⟨fun _ _ _ hzy hyx => hyx.trans hzy⟩
  have : Std.Irrefl fun z y : Reached r x => TransGen r y.1 z.1 := ⟨fun y h => hac y.1 y.2 h⟩
  exact Finite.wellFounded_of_trans_of_irrefl _

/-- What holds of every element that is reached from `x` and of whose successors it holds holds
of `x`. -/
theorem induction {l : List α} (hfin : ∀ y, ReflTransGen r x y → y ∈ l)
    (hac : ∀ y, ReflTransGen r x y → ¬TransGen r y y) {P : α → Prop}
    (h : ∀ y, ReflTransGen r x y → (∀ z, r y z → P z) → P y) : P x := by
  have hall : ∀ y : Reached r x, P y.1 := fun y => by
    induction y using (wellFounded hfin hac).induction with
    | _ y ih => exact h y.1 y.2 fun z hz => ih ⟨z, y.2.tail hz⟩ (.single hz)
  exact hall ⟨x, .refl⟩

end Acyclic
