import Mathlib.Data.List.Basic
import Mathlib.Data.List.Nodup
import Mathlib.Data.List.TakeWhile
import Mathlib.Order.MinMax

/-!
# Records of a list, and of its slices

A reader that keeps an element only if its key is greater than that of the last one kept keeps the
records of the list (`records`). Elements that come again make no difference (`records_of_again`).

A list without duplicates may be read in several slices. `flatMap_records_iff` says when the records
of the slices are the elements of the list from some place on, each once and in order: the first
slice begins there, each slice reaches the begin of the next one, the keys in it increase up to that
place, and the elements from there on have no greater keys. Slices that begin where the last one has
ended or before (`Covers`) reach the next one.
-/

namespace Records

variable {α β : Type*} [LinearOrder β] (key : α → β)

/-- The elements whose key is greater than the bound and than the keys of all before. -/
def records : β → List α → List α
  | _, [] => []
  | b, a :: l => if key a ≤ b then records b l else a :: records (key a) l

/-- The greatest key, if it is greater than the bound. -/
def top (b : β) (l : List α) : β := l.foldl (fun b a => max b (key a)) b

theorem records_sublist (b : β) (l : List α) : (records key b l).Sublist l := by
  induction l generalizing b with
  | nil => exact .slnil
  | cons a l ih =>
    unfold records
    split_ifs
    · exact (ih b).cons a
    · exact (ih (key a)).cons_cons a

/-- A first element above the bound is a record. -/
theorem records_cons_of_lt {b : β} {a : α} (h : b < key a) (l : List α) :
    records key b (a :: l) = a :: records key (key a) l := if_neg (not_le.mpr h)

/-- The records of a list are those of its parts, the second with the greatest key of the first for
its bound. -/
theorem records_append (b : β) (l m : List α) :
    records key b (l ++ m) = records key b l ++ records key (top key b l) m := by
  induction l generalizing b with
  | nil => rfl
  | cons a l ih =>
    have htop : top key b (a :: l) = top key (max b (key a)) l := rfl
    rw [List.cons_append, records, records, htop]
    split_ifs with h
    · rw [max_eq_left h, ih]
    · rw [max_eq_right (not_le.mp h).le, ih, List.cons_append]

/-- A value is at most the greatest key if and only if it is at most the bound or one of the
keys. -/
theorem le_top_iff {b x : β} {l : List α} :
    x ≤ top key b l ↔ x ≤ b ∨ ∃ a ∈ l, x ≤ key a := by
  induction l generalizing b with
  | nil => simp [top]
  | cons a l ih =>
    have htop : top key b (a :: l) = top key (max b (key a)) l := rfl
    rw [htop, ih, le_max_iff, or_assoc, List.exists_mem_cons_iff]

/-- There is no record if and only if no key is above the bound. -/
theorem records_eq_nil_iff {b : β} {l : List α} :
    records key b l = [] ↔ ∀ a ∈ l, key a ≤ b := by
  induction l with
  | nil => simp [records]
  | cons a l ih =>
    unfold records
    split_ifs with h
    · rw [ih, List.forall_mem_cons, and_iff_right h]
    · simp [h]

/-- The key of a record is above the bound. -/
theorem lt_of_mem_records {b : β} {l : List α} {a : α} (h : a ∈ records key b l) : b < key a := by
  induction l generalizing b with
  | nil => cases h
  | cons a' l ih =>
    unfold records at h
    split_ifs at h with hle
    · exact ih h
    · rcases List.mem_cons.mp h with rfl | h
      · exact not_le.mp hle
      · exact (not_le.mp hle).trans (ih h)

/-- Every element is a record if and only if the keys increase from the bound on. -/
theorem records_eq_self_iff {b : β} {l : List α} :
    records key b l = l ↔ (∀ a ∈ l, b < key a) ∧ l.Pairwise (key · < key ·) := by
  constructor
  · intro h
    refine ⟨fun a ha => lt_of_mem_records key (h ▸ ha), ?_⟩
    induction l generalizing b with
    | nil => exact .nil
    | cons a l ih =>
      have ha : b < key a := lt_of_mem_records key (h ▸ List.mem_cons_self)
      rw [records_cons_of_lt key ha, List.cons_inj_right] at h
      exact .cons (fun a' ha' => lt_of_mem_records key (h ▸ ha')) (ih h)
  · rintro ⟨hb, hpair⟩
    induction l generalizing b with
    | nil => rfl
    | cons a l ih =>
      obtain ⟨hlt, hpair⟩ := List.pairwise_cons.mp hpair
      rw [records_cons_of_lt key (hb a List.mem_cons_self), ih hlt hpair]

/-! ## Elements that come again -/

/-- The second list is the first one, with elements that come again: each has come before, or is in
`seen`. -/
inductive Again : List α → List α → List α → Prop
  | nil (seen : List α) : Again seen [] []
  | next (a : α) {seen l d : List α} (h : Again (a :: seen) l d) : Again seen (a :: l) (a :: d)
  | again {a : α} {seen l d : List α} (ha : a ∈ seen) (h : Again seen l d) : Again seen l (a :: d)

/-- A list is itself, with nothing that comes again. -/
theorem Again.of_eq {seen l d : List α} (h : l = d) : Again seen l d := by
  subst h
  induction l generalizing seen with
  | nil => exact .nil seen
  | cons a l ih => exact .next a ih

/-- A part of the elements comes again likewise. -/
theorem Again.filter {seen l d : List α} (h : Again seen l d) (p : α → Bool) :
    Again (seen.filter p) (l.filter p) (d.filter p) := by
  induction h with
  | nil seen => exact .nil _
  | next a h ih =>
    by_cases hp : p a
    · rw [List.filter_cons_of_pos hp, List.filter_cons_of_pos hp]
      rw [List.filter_cons_of_pos hp] at ih
      exact .next a ih
    · rw [List.filter_cons_of_neg hp, List.filter_cons_of_neg hp]
      rwa [List.filter_cons_of_neg hp] at ih
  | @again a seen l d ha h ih =>
    by_cases hp : p a
    · rw [List.filter_cons_of_pos hp]
      exact .again (List.mem_filter.mpr ⟨ha, hp⟩) ih
    · rwa [List.filter_cons_of_neg hp]

/-- What comes again is among the elements, or has been seen. -/
theorem Again.mem {seen l d : List α} (h : Again seen l d) {a : α} (ha : a ∈ d) :
    a ∈ seen ∨ a ∈ l := by
  induction h with
  | nil => exact .inr ha
  | next b _ ih =>
    rcases List.mem_cons.mp ha with rfl | ha
    · exact .inr List.mem_cons_self
    · rcases ih ha with hb | hl
      · rcases List.mem_cons.mp hb with rfl | hseen
        · exact .inr List.mem_cons_self
        · exact .inl hseen
      · exact .inr (List.mem_cons_of_mem _ hl)
  | again hb _ ih =>
    rcases List.mem_cons.mp ha with rfl | ha
    · exact .inl hb
    · exact ih ha

/-- The elements come again likewise up to the first that does not pass. -/
theorem Again.takeWhile {seen l d : List α} (h : Again seen l d) {p : α → Bool}
    (hseen : ∀ a ∈ seen, p a = true) : Again seen (l.takeWhile p) (d.takeWhile p) := by
  induction h with
  | nil seen => exact .nil seen
  | next a h ih =>
    by_cases hp : p a = true
    · rw [List.takeWhile_cons_of_pos hp, List.takeWhile_cons_of_pos hp]
      exact .next a (ih (List.forall_mem_cons.mpr ⟨hp, hseen⟩))
    · rw [List.takeWhile_cons_of_neg hp, List.takeWhile_cons_of_neg hp]
      exact .nil _
  | again ha h ih =>
    rw [List.takeWhile_cons_of_pos (hseen _ ha)]
    exact .again ha (ih hseen)

/-- An element that comes again is not a record. -/
theorem records_of_again {seen l d : List α} (h : Again seen l d) {b : β}
    (hb : ∀ a ∈ seen, key a ≤ b) : records key b d = records key b l := by
  induction h generalizing b with
  | nil seen => rfl
  | next a h ih =>
    unfold records
    split_ifs with hle
    · exact ih (List.forall_mem_cons.mpr ⟨hle, hb⟩)
    -- A record, which is the bound for what comes again.
    · have hlt := not_le.mp hle
      rw [ih (List.forall_mem_cons.mpr ⟨le_rfl, fun a' ha' => (hb a' ha').trans hlt.le⟩)]
  | again ha h ih =>
    rw [records, if_pos (hb _ ha)]
    exact ih hb

/-- The records of two parts without a common element are the first part if and only if its keys
increase and the second part has no greater ones. -/
theorem records_append_eq_left_iff {b : β} {l m : List α} (hb : ∀ a ∈ l ++ m, b < key a)
    (hd : l.Disjoint m) :
    records key b (l ++ m) = l ↔
      l.Pairwise (key · < key ·) ∧ ∀ a ∈ m, ∃ a' ∈ l, key a ≤ key a' := by
  obtain ⟨hl, hm⟩ := List.forall_mem_append.mp hb
  have htop : records key (top key b l) m = [] ↔ ∀ a ∈ m, ∃ a' ∈ l, key a ≤ key a' := by
    rw [records_eq_nil_iff]
    refine forall₂_congr fun a ha => ?_
    rw [le_top_iff, or_iff_right (not_le.mpr (hm a ha))]
  rw [records_append, ← htop]
  constructor
  · intro h
    -- A record of the second part would be an element of the first.
    have hnil : records key (top key b l) m = [] := by
      rw [List.eq_nil_iff_forall_not_mem]
      intro a ha
      exact hd (h ▸ List.mem_append_right _ ha) ((records_sublist key _ m).subset ha)
    rw [hnil, List.append_nil] at h
    exact ⟨((records_eq_self_iff key).mp h).2, hnil⟩
  · rintro ⟨hpair, hnil⟩
    rw [hnil, List.append_nil, (records_eq_self_iff key).mpr ⟨hl, hpair⟩]

/-! ## Slices -/

/-- The elements from position `w.1` up to position `w.2`. -/
def slice (l : List α) (w : ℕ × ℕ) : List α := (l.take w.2).drop w.1

section Slice

variable (l : List α) {i j k : ℕ}

theorem slice_eq_nil (h : j ≤ i) : slice l (i, j) = [] := by
  unfold slice
  rw [List.drop_eq_nil_iff, List.length_take]
  omega

theorem drop_slice (n : ℕ) : (slice l (i, j)).drop n = slice l (i + n, j) := by
  unfold slice
  rw [List.drop_drop]

theorem take_slice (n : ℕ) (h : i + n ≤ j) : (slice l (i, j)).take n = slice l (i, i + n) := by
  unfold slice
  rw [List.take_drop, List.take_take, min_eq_left h]

/-- A slice is made of two that meet. -/
theorem slice_append (h : i ≤ j) (h' : j ≤ k) :
    slice l (i, j) ++ slice l (j, k) = slice l (i, k) := by
  have hij : i + (j - i) = j := by omega
  have htake := take_slice l (i := i) (j := k) (j - i) (by omega)
  have hdrop := drop_slice l (i := i) (j := k) (j - i)
  rw [hij] at htake hdrop
  rw [← htake, ← hdrop, List.take_append_drop]

theorem head?_slice (h : i < j) : (slice l (i, j)).head? = l[i]? := by
  unfold slice
  rw [List.head?_drop, List.getElem?_take_of_lt h]

theorem length_slice (h : j ≤ l.length) : (slice l (i, j)).length = j - i := by
  unfold slice
  rw [List.length_drop, List.length_take, min_eq_left h]

/-- How many elements before a position pass. -/
def position (p : α → Bool) (i : ℕ) : ℕ := (l.take i).countP p

theorem position_mono (p : α → Bool) (h : i ≤ j) : position l p i ≤ position l p j := by
  unfold position
  exact ((List.take_prefix_take_left h).sublist).countP_le

theorem position_le (p : α → Bool) (i : ℕ) : position l p i ≤ (l.filter p).length := by
  rw [← List.countP_eq_length_filter]
  exact (List.take_sublist i l).countP_le

/-- What passes of a slice is a slice of what passes. -/
theorem filter_slice (p : α → Bool) :
    (slice l (i, j)).filter p = slice (l.filter p) (position l p i, position l p j) := by
  rcases Nat.lt_or_ge j i with hlt | hle
  · rw [slice_eq_nil l hlt.le, slice_eq_nil _ (position_mono l p hlt.le), List.filter_nil]
  have hprefix : (l.take j).filter p = (l.filter p).take (position l p j) := by
    rw [position, List.countP_eq_length_filter]
    exact List.prefix_iff_eq_take.mp ((List.take_prefix j l).filter p)
  have hparts : (l.take j).filter p = (l.take i).filter p ++ (slice l (i, j)).filter p := by
    rw [← List.filter_append]
    congr 1
    exact (slice_append l (Nat.zero_le i) hle).symm
  unfold slice at hparts ⊢
  rw [← hprefix, hparts, position, List.countP_eq_length_filter, List.drop_left]

theorem length_slice_le (w : ℕ × ℕ) : (slice l w).length ≤ w.2 - w.1 := by
  unfold slice
  rw [List.length_drop, List.length_take]
  omega

/-- The position of the first element of a slice that does not pass, or the slice's end. -/
def reach (p : α → Bool) (w : ℕ × ℕ) : ℕ :=
  if (slice l w).all p then w.2 else w.1 + ((slice l w).takeWhile p).length

/-- The elements of a slice before the first that does not pass are a slice up to what is
reached. -/
theorem takeWhile_slice (p : α → Bool) (w : ℕ × ℕ) :
    (slice l w).takeWhile p = slice l (w.1, reach l p w) := by
  unfold reach
  split_ifs with hall
  · exact List.takeWhile_eq_self_iff.mpr (List.all_eq_true.mp hall)
  · have htake : (slice l w).takeWhile p = (slice l w).take ((slice l w).takeWhile p).length :=
      List.prefix_iff_eq_take.mp (List.takeWhile_prefix p)
    have hle := (List.takeWhile_sublist p (l := slice l w)).length_le
    have hlen := length_slice_le l w
    rcases Nat.lt_or_ge w.1 w.2 with hlt | hge
    · rw [htake, List.length_take_of_le hle]
      exact take_slice l _ (by omega)
    · exact absurd (by rw [slice_eq_nil l hge]; rfl) hall

/-- What is reached is within the slice. -/
theorem reach_le (p : α → Bool) (w : ℕ × ℕ) : reach l p w ≤ w.2 := by
  unfold reach
  split_ifs with hall
  · exact le_rfl
  · have hlen := length_slice_le l w
    have hle := (List.takeWhile_sublist p (l := slice l w)).length_le
    rcases Nat.lt_or_ge w.1 w.2 with hlt | hge
    · omega
    · exact absurd (by rw [slice_eq_nil l hge]; rfl) hall

end Slice

/-- Slices that meet have no common element. -/
theorem disjoint_slice {l : List α} (hl : l.Nodup) {i j k : ℕ} (h : i ≤ j) (h' : j ≤ k) :
    (slice l (i, j)).Disjoint (slice l (j, k)) := by
  have hnodup : (slice l (i, k)).Nodup := hl.sublist
    ((List.drop_sublist _ _).trans (List.take_sublist _ _))
  rw [← slice_append l h h'] at hnodup
  exact List.disjoint_of_nodup_append hnodup

/-- A list cut in two where the second part begins with the element at position `n`. -/
theorem eq_slice_of_append {l : List α} (hl : l.Nodup) {i n e : ℕ} (hi : i ≤ e) (he : e ≤ l.length)
    {out rest : List α} (h : out ++ rest = slice l (i, e))
    (hrest : rest = [] ∧ n = e ∨ n < l.length ∧ rest.head? = l[n]?) :
    n = i + out.length ∧ out = slice l (i, n) ∧ rest = slice l (n, e) := by
  have hlen := congrArg List.length h
  rw [List.length_append, length_slice l he] at hlen
  have hdrop : rest = slice l (i + out.length, e) := by
    rw [← drop_slice, ← h, List.drop_left]
  have htake : out = slice l (i, i + out.length) := by
    rw [← take_slice l (j := e) out.length (by omega), ← h, List.take_left]
  have hn : n = i + out.length := by
    rcases hrest with ⟨rfl, rfl⟩ | ⟨hn, hhead⟩
    · rw [List.length_nil] at hlen
      omega
    · by_cases hlt : i + out.length < e
      · rw [hdrop, head?_slice l hlt] at hhead
        exact (List.getElem?_inj hn hl).mp hhead.symm
      · -- Then there is nothing after the first part.
        rw [hdrop, slice_eq_nil l (by omega), List.getElem?_eq_getElem hn] at hhead
        cases hhead
  rw [hn]
  exact ⟨rfl, htake, hdrop⟩

/-! ## Slices one after the other -/

/-- Each slice begins where the last one has ended or before, and ends there or later, and the last
one ends at `e`. -/
def Covers (e : ℕ) : List (ℕ × ℕ) → Prop
  | [] => True
  | [w] => w.2 = e
  | w :: w' :: ws => w'.1 ≤ w.2 ∧ w.2 ≤ w'.2 ∧ Covers e (w' :: ws)

/-- Where the first slice that is not empty begins, and the end if there is none. -/
def resume (e : ℕ) : List (ℕ × ℕ) → ℕ
  | [] => e
  | w :: ws => if w.1 < w.2 then w.1 else resume e ws

theorem Covers.tail {e : ℕ} {w : ℕ × ℕ} {ws : List (ℕ × ℕ)} (h : Covers e (w :: ws)) :
    Covers e ws := by
  cases ws with
  | nil => trivial
  | cons w' ws => exact h.2.2

theorem Covers.of_append {e : ℕ} {vs ws : List (ℕ × ℕ)} (h : Covers e (vs ++ ws)) :
    Covers e ws := by
  induction vs with
  | nil => exact h
  | cons v vs ih => exact ih h.tail

theorem Covers.le {e : ℕ} {w : ℕ × ℕ} {ws : List (ℕ × ℕ)} (h : Covers e (w :: ws)) : w.2 ≤ e := by
  induction ws generalizing w with
  | nil => exact le_of_eq h
  | cons w' ws ih => exact h.2.1.trans (ih h.2.2)

/-- The next slice that is not empty begins where a slice has ended or before. -/
theorem Covers.resume_le {e : ℕ} {w : ℕ × ℕ} {ws : List (ℕ × ℕ)} (h : Covers e (w :: ws)) :
    resume e ws ≤ w.2 := by
  induction ws generalizing w with
  | nil => exact ge_of_eq h
  | cons w' ws ih =>
    unfold resume
    split_ifs with hlt
    · exact h.1
    · have hle := ih h.2.2
      have hstart := h.1
      omega

/-- The first slice that is not empty begins before the end. -/
theorem Covers.resume_le_end {e : ℕ} {ws : List (ℕ × ℕ)} (h : Covers e ws) : resume e ws ≤ e := by
  induction ws with
  | nil => exact le_rfl
  | cons w ws ih =>
    have hle := h.le
    unfold resume
    split_ifs
    · omega
    · exact ih h.tail

/-- What a slice and the place where the next one begins have to be: that place is after the slice's
begin and not after its end, the keys increase up to there, and from there on there are no greater
keys. -/
structure Hands (l : List α) (w : ℕ × ℕ) (n : ℕ) : Prop where
  later : w.1 < n
  reached : n ≤ w.2
  increasing : (slice l (w.1, n)).Pairwise (key · < key ·)
  again : ∀ a ∈ slice l (n, w.2), ∃ a' ∈ slice l (w.1, n), key a ≤ key a'

/-- Every slice that is not empty is handed over to the next one so. -/
def Steady (l : List α) (e : ℕ) : List (ℕ × ℕ) → Prop
  | [] => True
  | w :: ws => (w.1 < w.2 → Hands key l w (resume e ws)) ∧ Steady l e ws

/-- The records of a slice begin with its first element. -/
theorem exists_records_slice {l : List α} {b : β} (hb : ∀ a ∈ l, b < key a) {w : ℕ × ℕ}
    (hlt : w.1 < w.2) (hle : w.2 ≤ l.length) :
    ∃ a rest, records key b (slice l w) = a :: rest ∧ l[w.1]? = some a := by
  have hget : l[w.1]? = some l[w.1] := List.getElem?_eq_getElem (by omega)
  have hhead : (slice l w).head? = some l[w.1] := (head?_slice l hlt).trans hget
  obtain ⟨rest, hrest⟩ := List.head?_eq_some_iff.mp hhead
  refine ⟨l[w.1], records key (key l[w.1]) rest, ?_, hget⟩
  rw [hrest, records_cons_of_lt key (hb _ (List.getElem_mem _))]

/-- The records of the slices begin with the first element of the first one. -/
theorem head?_flatMap_records {l : List α} {b : β} (hb : ∀ a ∈ l, b < key a) {e : ℕ}
    {ws : List (ℕ × ℕ)} (hws : ∀ w ∈ ws, w.2 ≤ l.length) :
    (ws.flatMap fun w => records key b (slice l w)) = [] ∧ resume e ws = e ∨
      resume e ws < l.length ∧
        (ws.flatMap fun w => records key b (slice l w)).head? = l[resume e ws]? := by
  induction ws with
  | nil => exact .inl ⟨rfl, rfl⟩
  | cons w ws ih =>
    obtain ⟨hle, hws⟩ := List.forall_mem_cons.mp hws
    rw [List.flatMap_cons, resume]
    split_ifs with hlt
    · obtain ⟨a, rest, hrecords, hget⟩ := exists_records_slice key hb hlt hle
      exact .inr ⟨by omega, by rw [hrecords, hget]; rfl⟩
    · have hnil : slice l w = [] := slice_eq_nil l (not_lt.mp hlt)
      rw [hnil]
      exact ih hws

/-- The records of a slice are its elements up to some place, if and only if the keys increase up to
there and there are no greater ones from there on. -/
theorem records_slice_eq_iff {l : List α} (hl : l.Nodup) {b : β} (hb : ∀ a ∈ l, b < key a)
    {w : ℕ × ℕ} {n : ℕ} (hn : w.1 ≤ n) (hle : n ≤ w.2) :
    records key b (slice l w) = slice l (w.1, n) ↔
      (slice l (w.1, n)).Pairwise (key · < key ·) ∧
        ∀ a ∈ slice l (n, w.2), ∃ a' ∈ slice l (w.1, n), key a ≤ key a' := by
  -- The two parts have no element in common, since the list has none twice.
  have hsplit : slice l w = slice l (w.1, n) ++ slice l (n, w.2) := (slice_append l hn hle).symm
  rw [hsplit]
  refine records_append_eq_left_iff key (fun a ha => hb a ?_) (disjoint_slice hl hn hle)
  rw [← hsplit] at ha
  exact List.mem_of_mem_take (List.mem_of_mem_drop ha)

/-- The records of the slices are the elements of the list from where the first slice begins, each
once and in order, if and only if every slice is handed over as it has to be. -/
theorem flatMap_records_resume_iff {l : List α} (hl : l.Nodup) {b : β} (hb : ∀ a ∈ l, b < key a)
    {e : ℕ} (he : e ≤ l.length) {ws : List (ℕ × ℕ)} (hws : ∀ w ∈ ws, w.2 ≤ e) :
    (ws.flatMap fun w => records key b (slice l w)) = slice l (resume e ws, e) ↔
      Steady key l e ws := by
  induction ws with
  | nil => exact iff_of_true (slice_eq_nil l le_rfl).symm trivial
  | cons w ws ih =>
    obtain ⟨hend, hws⟩ := List.forall_mem_cons.mp hws
    have ih := ih hws
    rw [List.flatMap_cons, Steady, resume]
    by_cases hlt : w.1 < w.2
    · rw [if_pos hlt, imp_iff_right hlt]
      constructor
      · intro h
        -- The slice has a record, so that the next one begins after it.
        obtain ⟨a, rest, hcons, -⟩ := exists_records_slice key hb hlt (hend.trans he)
        have hhead := head?_flatMap_records key hb (e := e) fun w hw => (hws w hw).trans he
        obtain ⟨hn, hout, hrest⟩ := eq_slice_of_append hl (hlt.le.trans hend) he h hhead
        -- It has no more records than elements.
        have hle := (records_sublist key b (slice l w)).length_le
        have hlen := length_slice_le l w
        have hpos : 0 < (records key b (slice l w)).length := by
          rw [hcons]
          exact Nat.succ_pos _
        obtain ⟨hpair, hagain⟩ :=
          (records_slice_eq_iff key hl hb (by omega) (by omega)).mp hout
        exact ⟨⟨by omega, by omega, hpair, hagain⟩, ih.mp hrest⟩
      · rintro ⟨hhands, hsteady⟩
        rw [(records_slice_eq_iff key hl hb hhands.later.le hhands.reached).mpr
          ⟨hhands.increasing, hhands.again⟩, ih.mpr hsteady]
        exact slice_append l hhands.later.le (hhands.reached.trans hend)
    · have hnil : slice l w = [] := slice_eq_nil l (not_lt.mp hlt)
      rw [if_neg hlt, hnil]
      exact ih.trans (and_iff_right fun h => absurd h hlt).symm

/-- The records of the slices are the elements from some place on, if and only if the first slice
begins there and every slice is handed over as it has to be. -/
theorem flatMap_records_iff {l : List α} (hl : l.Nodup) {b : β} (hb : ∀ a ∈ l, b < key a) {e : ℕ}
    (he : e ≤ l.length) {ws : List (ℕ × ℕ)} (hws : ∀ w ∈ ws, w.2 ≤ e) {n : ℕ} (hn : n ≤ e) :
    (ws.flatMap fun w => records key b (slice l w)) = slice l (n, e) ↔
      resume e ws = n ∧ Steady key l e ws := by
  constructor
  · intro h
    have hhead := head?_flatMap_records key hb (e := e) fun w hw => (hws w hw).trans he
    rw [h] at hhead
    have hbegin : resume e ws = n := by
      rcases Nat.lt_or_ge n e with hlt | hge
      · have hget : l[n]? = some l[n] := List.getElem?_eq_getElem (by omega)
        have hfirst := (head?_slice l hlt).trans hget
        rcases hhead with ⟨hnil, -⟩ | ⟨hlen, hsame⟩
        · rw [hnil] at hfirst
          cases hfirst
        · exact (List.getElem?_inj hlen hl).mp (hsame.symm.trans (head?_slice l hlt))
      · -- There is no record.
        rw [slice_eq_nil l hge] at hhead
        rcases hhead with ⟨-, hend⟩ | ⟨hlen, hsame⟩
        · omega
        · rw [List.getElem?_eq_getElem hlen] at hsame
          cases hsame
    exact ⟨hbegin, (flatMap_records_resume_iff key hl hb he hws).mp (hbegin ▸ h)⟩
  · rintro ⟨rfl, hsteady⟩
    exact (flatMap_records_resume_iff key hl hb he hws).mpr hsteady

end Records
