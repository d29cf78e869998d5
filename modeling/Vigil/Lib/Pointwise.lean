import Mathlib.Algebra.Order.BigOperators.Group.List
import Mathlib.Data.List.Forall2
import Mathlib.Algebra.Order.Ring.Nat

/-!
# Lists that change entry by entry

What holds of a list after its entries have changed, each one in a way that a relation allows:
`List.Forall₂ R l l'`. A change of one entry and a change of all of them are such changes
(`forall₂_modify`, `forall₂_mapIdx`). A property of pairs is kept (`Forall₂.pairwise`), and so is
the bound of a sum (`Forall₂.sum_map_le`). A property of pairs bounds the number of entries that it
tells apart (`Pairwise.countP_le_one`).
-/

namespace List

variable {α : Type*} {R S : α → α → Prop} {l l' : List α}

/-- Lists that differ at one place are related place by place if the entries there are. -/
theorem forall₂_modify (hrefl : ∀ a, R a a) {i : ℕ} {f : α → α}
    (h : ∀ a, l[i]? = some a → R a (f a)) : Forall₂ R l (l.modify i f) := by
  refine forall₂_iff_get.mpr ⟨(length_modify ..).symm, fun j hj hj' => ?_⟩
  simp only [get_eq_getElem, getElem_modify]
  split_ifs with hij
  · exact h l[j] ((congrArg (l[·]?) hij).trans (getElem?_eq_getElem hj))
  · exact hrefl l[j]

/-- A list and its image are related place by place if each entry and its image are. -/
theorem forall₂_mapIdx {f : ℕ → α → α} (h : ∀ i a, l[i]? = some a → R a (f i a)) :
    Forall₂ R l (l.mapIdx f) := by
  refine forall₂_iff_get.mpr ⟨length_mapIdx.symm, fun j hj hj' => ?_⟩
  simp only [get_eq_getElem, getElem_mapIdx]
  exact h j l[j] (getElem?_eq_getElem hj)

/-- An entry has been made from the one in its place. -/
theorem Forall₂.getElem? (h : Forall₂ R l l') {i : ℕ} {b : α} (hb : l'[i]? = some b) :
    ∃ a, l[i]? = some a ∧ R a b := by
  obtain ⟨hlen, hget⟩ := forall₂_iff_get.mp h
  obtain ⟨hi, rfl⟩ := getElem?_eq_some_iff.mp hb
  exact ⟨l[i], getElem?_eq_getElem (hlen ▸ hi), hget i (hlen ▸ hi) hi⟩

/-- An entry has been made from one. -/
theorem Forall₂.exists_of_mem (h : Forall₂ R l l') {b : α} (hb : b ∈ l') : ∃ a ∈ l, R a b := by
  obtain ⟨i, hi⟩ := mem_iff_getElem?.mp hb
  obtain ⟨a, ha, hR⟩ := h.getElem? hi
  exact ⟨a, mem_of_getElem? ha, hR⟩

/-- A property of pairs is kept, if the changes keep it. -/
theorem Forall₂.pairwise (h : Forall₂ R l l') (hp : l.Pairwise S)
    (hS : ∀ a b a' b', R a a' → R b b' → S a b → S a' b') : l'.Pairwise S := by
  induction h with
  | nil => exact Pairwise.nil
  | cons hab hl ih =>
    rw [pairwise_cons] at hp ⊢
    refine ⟨fun b' hb' => ?_, ih hp.2⟩
    obtain ⟨b, hb, hR⟩ := Forall₂.exists_of_mem hl hb'
    exact hS _ b _ b' hab hR (hp.1 b hb)

/-- A symmetric property holds of any two entries. -/
theorem Pairwise.getElem? (h : l.Pairwise S) (hsymm : ∀ a b, S a b → S b a) {i j : ℕ} {a b : α}
    (hi : l[i]? = some a) (hj : l[j]? = some b) (hne : i ≠ j) : S a b := by
  obtain ⟨hil, rfl⟩ := getElem?_eq_some_iff.mp hi
  obtain ⟨hjl, rfl⟩ := getElem?_eq_some_iff.mp hj
  rcases Nat.lt_or_gt_of_ne hne with hij | hij
  · exact pairwise_iff_getElem.mp h i j hil hjl hij
  · exact hsymm _ _ (pairwise_iff_getElem.mp h j i hjl hil hij)

/-- At most one entry passes a test, if no two that have the property do. -/
theorem Pairwise.countP_le_one (h : l.Pairwise S) {p : α → Bool}
    (hp : ∀ a b, p a = true → p b = true → ¬S a b) : l.countP p ≤ 1 := by
  induction h with
  | nil => exact Nat.zero_le 1
  | @cons a l hal _ ih =>
    by_cases ha : p a = true
    · have hnone : l.countP p = 0 := countP_eq_zero.mpr fun b hb hpb => hp a b ha hpb (hal b hb)
      rw [countP_cons_of_pos ha, hnone]
    · rwa [countP_cons_of_neg ha]

/-- A sum does not grow, if no entry's part in it does. -/
theorem Forall₂.sum_map_le (h : Forall₂ R l l') {w : α → ℕ} (hw : ∀ a b, R a b → w b ≤ w a) :
    (l'.map w).sum ≤ (l.map w).sum := by
  refine Forall₂.sum_le_sum ?_
  rw [forall₂_map_left_iff, forall₂_map_right_iff]
  exact (h.imp hw).flip

/-- The sum after a change of one entry. -/
theorem sum_map_modify {w : α → ℕ} {i : ℕ} {a : α} (hi : l[i]? = some a) (f : α → α) :
    ((l.modify i f).map w).sum + w a = (l.map w).sum + w (f a) := by
  induction l generalizing i with
  | nil => simp at hi
  | cons b l ih =>
    cases i with
    | zero =>
      obtain rfl : b = a := by simpa using hi
      simp only [modify_zero_cons, map_cons, sum_cons]
      omega
    | succ i =>
      have hsum := ih (i := i) (by simpa using hi)
      simp only [modify_succ_cons, map_cons, sum_cons]
      omega

end List
