import Mathlib.Data.List.Perm.Basic
import Mathlib.Data.List.Sort
import Vigil.Logs.Store

/-!
# The tail of the log store

`tail` of `logs/store.rs` copies the buffers of some services one after another, sorts the entries
by their timestamps, and keeps the last ones. Between the copies the store goes on, so each copy has
what had been pushed for its service at a point of its own.

`exists_seam` compares what the tail shows with the order in which the entries were pushed: where
the timestamps agree with that order and the buffers are at least as long as the tail, everything
that was copied is either shown or was pushed before the first entry that is shown. Entries may be
equal, and are told apart in the proof by their places among the pushed ones.
-/

namespace Vigil

/-- The relation of `sort_by_key(|e| e.timestamp)`, which is a stable sort. -/
def LogEntry.le (a b : LogEntry) : Prop := a.timestamp ≤ b.timestamp

instance : DecidableRel LogEntry.le := fun a b =>
  inferInstanceAs (Decidable (a.timestamp ≤ b.timestamp))

instance : Std.Total LogEntry.le := ⟨fun a b => Nat.le_total a.timestamp b.timestamp⟩

instance : IsTrans LogEntry LogEntry.le := ⟨fun _ _ _ h h' => Nat.le_trans h h'⟩

/-- The end of `tail`: the last `n` of the copied entries in the order of their timestamps. -/
def tailOf (n : ℕ) (all : List LogEntry) : List LogEntry :=
  let all := all.insertionSort LogEntry.le
  let len := all.length
  if len > n then all.drop (len - n) else all

/-- A stable sort keeps the order of elements of which none comes before another. -/
theorem filter_insertionSort_of_forall {α : Type*} (r : α → α → Prop) [DecidableRel r]
    [Std.Total r] [IsTrans α r] {p : α → Bool} (h : ∀ x, p x = true → ∀ y, p y = true → r x y)
    (l : List α) : (l.insertionSort r).filter p = l.filter p := by
  have hsorted : (l.filter p).Pairwise r := by
    rw [List.pairwise_iff_forall_sublist]
    intro x y hxy
    have hx := hxy.subset List.mem_cons_self
    have hy := hxy.subset (List.mem_cons_of_mem _ (List.mem_singleton_self y))
    exact h x (List.mem_filter.mp hx).2 y (List.mem_filter.mp hy).2
  have hsub := (List.sublist_insertionSort hsorted List.filter_sublist).filter p
  rw [List.filter_filter] at hsub
  simp only [Bool.and_self] at hsub
  exact (hsub.eq_of_length ((List.perm_insertionSort r l).filter _).length_eq.symm).symm

/-- The tail of some entries is what is latest when they are sorted by their timestamps. -/
theorem tailOf_eq (n : ℕ) (all : List LogEntry) :
    tailOf n all = Ring.recent n (all.insertionSort LogEntry.le) := by
  simp only [tailOf, Ring.recent]
  split_ifs with h
  · rfl
  · rw [show (all.insertionSort LogEntry.le).length - n = 0 by omega, List.drop_zero]

/-- A tail of no entries is empty. -/
@[simp] theorem tailOf_zero (all : List LogEntry) : tailOf 0 all = [] := by
  rw [tailOf_eq, Ring.recent, Nat.sub_zero, List.drop_length]

/-- What had been pushed for each service when its buffer was copied. A copy is the service and the
number of entries that had been pushed. -/
def copied (pushed : List LogEntry) (copies : List (String × ℕ)) : List LogEntry :=
  copies.flatMap fun p => (pushed.take p.2).filter fun e => decide (e.service = p.1)

/-- What the copies are made of if every buffer has the latest `c` entries. -/
def buffered (c : ℕ) (pushed : List LogEntry) (copies : List (String × ℕ)) : List LogEntry :=
  copies.flatMap fun p =>
    Ring.recent c ((pushed.take p.2).filter fun e => decide (e.service = p.1))

/-- What is pushed later is not in the copies. -/
theorem copied_append {pushed : List LogEntry} {copies : List (String × ℕ)}
    (h : ∀ p ∈ copies, p.2 ≤ pushed.length) (later : List LogEntry) :
    copied (pushed ++ later) copies = copied pushed copies :=
  List.flatMap_congr fun p hp => by rw [List.take_append_of_le_length (h p hp)]

/-- What is pushed later is not in the latest of the copies. -/
theorem buffered_append {c : ℕ} {pushed : List LogEntry} {copies : List (String × ℕ)}
    (h : ∀ p ∈ copies, p.2 ≤ pushed.length) (later : List LogEntry) :
    buffered c (pushed ++ later) copies = buffered c pushed copies :=
  List.flatMap_congr fun p hp => by rw [List.take_append_of_le_length (h p hp)]

/-- The timestamps of the selected entries agree with the order in which they were pushed. Only
entries of one service may have the same. -/
def InOrder (selected : LogEntry → Bool) (pushed : List LogEntry) : Prop :=
  pushed.Pairwise fun x y => selected x = true → selected y = true →
    x.timestamp < y.timestamp ∨ (x.timestamp = y.timestamp ∧ x.service = y.service)

/-! ## Entries with their places -/

/-- The entries that had been pushed for a service, with their places. -/
def placedOf (pushed : List LogEntry) (p : String × ℕ) : List (LogEntry × ℕ) :=
  (pushed.take p.2).zipIdx.filter fun x => decide (x.1.service = p.1)

/-- The entries that are copied, with their places. -/
def placed (pushed : List LogEntry) (copies : List (String × ℕ)) : List (LogEntry × ℕ) :=
  copies.flatMap (placedOf pushed)

/-- The entries that are in the copies, with their places. -/
def placedRecent (c : ℕ) (pushed : List LogEntry) (copies : List (String × ℕ)) :
    List (LogEntry × ℕ) :=
  copies.flatMap fun p => Ring.recent c (placedOf pushed p)

/-- A function may be applied to the latest entries, or the latest taken of what it gives. -/
theorem map_recent {α β : Type*} (f : α → β) (c : ℕ) (l : List α) :
    (Ring.recent c l).map f = Ring.recent c (l.map f) := by
  rw [Ring.recent, Ring.recent, List.map_drop, List.length_map]

/-- Without their places, the entries of a service are those that had been pushed for it. -/
theorem map_fst_placedOf (pushed : List LogEntry) (p : String × ℕ) :
    (placedOf pushed p).map Prod.fst =
      (pushed.take p.2).filter fun e => decide (e.service = p.1) := by
  have hfst : (pushed.take p.2).zipIdx.map Prod.fst = pushed.take p.2 := List.zipIdx_map_fst _ _
  rw [placedOf]
  conv_rhs => rw [← hfst, List.filter_map]
  rfl

variable {c n : ℕ} {pushed : List LogEntry} {copies : List (String × ℕ)}

/-- Without their places, the copied entries are what had been pushed for each service. -/
theorem map_fst_placed : (placed pushed copies).map Prod.fst = copied pushed copies := by
  rw [placed, copied, List.map_flatMap]
  exact List.flatMap_congr fun p _ => map_fst_placedOf pushed p

/-- Without their places, the entries in the copies are the latest of each service. -/
theorem map_fst_placedRecent :
    (placedRecent c pushed copies).map Prod.fst = buffered c pushed copies := by
  rw [placedRecent, buffered, List.map_flatMap]
  exact List.flatMap_congr fun p _ => by rw [map_recent, map_fst_placedOf]

/-- A copied entry is at its place among the pushed ones. -/
theorem mem_placedOf_iff {p : String × ℕ} {x : LogEntry × ℕ} :
    x ∈ placedOf pushed p ↔ pushed[x.2]? = some x.1 ∧ x.2 < p.2 ∧ x.1.service = p.1 := by
  rw [placedOf, List.mem_filter, List.mem_zipIdx_iff_getElem?, decide_eq_true_eq]
  rw [List.getElem?_take]
  split_ifs with h
  · simp [h]
  · simp [h]

/-- The places of a list increase. -/
theorem pairwise_zipIdx (l : List LogEntry) : l.zipIdx.Pairwise fun x y => x.2 < y.2 := by
  refine List.Pairwise.of_map Prod.snd (S := (· < ·)) (fun _ _ h => h) ?_
  rw [List.zipIdx_map_snd]
  exact List.pairwise_lt_range'

/-- The places of a copy increase. -/
theorem pairwise_placedOf (pushed : List LogEntry) (p : String × ℕ) :
    (placedOf pushed p).Pairwise fun x y => x.2 < y.2 :=
  (pairwise_zipIdx _).sublist List.filter_sublist

/-- Entries whose places increase are distinct. -/
theorem nodup_of_pairwise {l : List (LogEntry × ℕ)} (h : l.Pairwise fun x y => x.2 < y.2) :
    l.Nodup :=
  h.imp fun hlt heq => absurd (congrArg Prod.snd heq) (Nat.ne_of_lt hlt)

/-- What is in a copy is copied. -/
theorem recent_sublist {α : Type*} (c : ℕ) (l : List α) : (Ring.recent c l).Sublist l :=
  List.drop_sublist _ _

/-- The entries of one service are in the order of their places, in the copies of different
services. -/
theorem pairwise_flatMap_service {f : String × ℕ → List (LogEntry × ℕ)}
    (hcopies : (copies.map Prod.fst).Nodup) (hf : ∀ p, (f p).Sublist (placedOf pushed p)) :
    (copies.flatMap f).Pairwise fun x y => x.1.service = y.1.service → x.2 < y.2 := by
  rw [List.pairwise_flatMap]
  refine ⟨fun p _ => ((pairwise_placedOf pushed p).sublist (hf p)).imp ?_, ?_⟩
  · exact fun hlt _ => hlt
  refine (List.Pairwise.of_map Prod.fst (S := (· ≠ ·)) (fun _ _ h => h) hcopies).imp ?_
  intro p q hne x hx y hy heq
  rw [(mem_placedOf_iff.mp ((hf p).subset hx)).2.2,
    (mem_placedOf_iff.mp ((hf q).subset hy)).2.2] at heq
  exact absurd heq hne

/-- The entries in the copies have different places. -/
theorem nodup_flatMap {f : String × ℕ → List (LogEntry × ℕ)}
    (hcopies : (copies.map Prod.fst).Nodup) (hf : ∀ p, (f p).Sublist (placedOf pushed p)) :
    (copies.flatMap f).Nodup :=
  (pairwise_flatMap_service hcopies hf).imp fun h heq =>
    absurd (congrArg Prod.snd heq) (Nat.ne_of_lt (h (congrArg (LogEntry.service ∘ Prod.fst) heq)))

section Seam

variable {selected : LogEntry → Bool} (hn : n ≤ c) (horder : InOrder selected pushed)
  (hcopies : (copies.map Prod.fst).Nodup)
  (hselected : ∀ p ∈ copies, ∀ e : LogEntry, e.service = p.1 → selected e = true)

/-- The selected entries with their places. -/
def selectedPlaces (selected : LogEntry → Bool) (pushed : List LogEntry) : List (LogEntry × ℕ) :=
  pushed.zipIdx.filter fun x => selected x.1

include hselected in
/-- A copied entry is selected. -/
theorem mem_selectedPlaces {x : LogEntry × ℕ} (hx : x ∈ placed pushed copies) :
    x ∈ selectedPlaces selected pushed := by
  obtain ⟨p, hp, hx⟩ := List.mem_flatMap.mp hx
  obtain ⟨hget, -, hservice⟩ := mem_placedOf_iff.mp hx
  exact List.mem_filter.mpr
    ⟨List.mem_zipIdx_iff_getElem?.mpr hget, hselected p hp x.1 hservice⟩

/-- What is in the copies is copied. -/
theorem mem_placed_of_recent {x : LogEntry × ℕ} (hx : x ∈ placedRecent c pushed copies) :
    x ∈ placed pushed copies := by
  obtain ⟨p, hp, hx⟩ := List.mem_flatMap.mp hx
  exact List.mem_flatMap.mpr ⟨p, hp, (recent_sublist c _).subset hx⟩

include horder in
/-- Selected entries at increasing places have increasing timestamps. -/
theorem timestamp_of_lt {x y : LogEntry × ℕ} (hx : x ∈ selectedPlaces selected pushed)
    (hy : y ∈ selectedPlaces selected pushed) (hlt : x.2 < y.2) :
    x.1.timestamp < y.1.timestamp ∨
      (x.1.timestamp = y.1.timestamp ∧ x.1.service = y.1.service) := by
  obtain ⟨hx, hselx⟩ := List.mem_filter.mp hx
  obtain ⟨hy, hsely⟩ := List.mem_filter.mp hy
  obtain ⟨hxlt, hxget⟩ := List.getElem?_eq_some_iff.mp (List.mem_zipIdx_iff_getElem?.mp hx)
  obtain ⟨hylt, hyget⟩ := List.getElem?_eq_some_iff.mp (List.mem_zipIdx_iff_getElem?.mp hy)
  have h := List.pairwise_iff_getElem.mp horder x.2 y.2 hxlt hylt hlt
  rw [hxget, hyget] at h
  exact h hselx hsely

/-- The relation of the sort on entries with their places. -/
def placeLe (x y : LogEntry × ℕ) : Prop := x.1.le y.1

instance : DecidableRel placeLe := fun x y => inferInstanceAs (Decidable (x.1.le y.1))

instance : Std.Total placeLe := ⟨fun x y => Nat.le_total x.1.timestamp y.1.timestamp⟩

instance : IsTrans (LogEntry × ℕ) placeLe := ⟨fun _ _ _ h h' => Nat.le_trans h h'⟩

/-- The sort keeps the order of entries with the same timestamp. -/
theorem filter_insertionSort (l : List (LogEntry × ℕ)) (t : ℕ) :
    (l.insertionSort placeLe).filter (fun x => decide (x.1.timestamp = t)) =
      l.filter fun x => decide (x.1.timestamp = t) := by
  refine filter_insertionSort_of_forall placeLe (fun x hx y hy => ?_) l
  rw [decide_eq_true_eq] at hx hy
  exact Nat.le_of_eq (hx.trans hy.symm)

include horder hcopies hselected in
/-- The sort puts the entries in the order of their places. -/
theorem pairwise_insertionSort_placedRecent :
    ((placedRecent c pushed copies).insertionSort placeLe).Pairwise fun x y => x.2 < y.2 := by
  rw [List.pairwise_iff_forall_sublist]
  intro x y hxy
  have hsub : ∀ p, (Ring.recent c (placedOf pushed p)).Sublist (placedOf pushed p) := fun p =>
    recent_sublist c _
  have hmem : ∀ z ∈ [x, y], z ∈ selectedPlaces selected pushed := fun z hz =>
    mem_selectedPlaces hselected (mem_placed_of_recent
      ((List.mem_insertionSort placeLe).mp (hxy.subset hz)))
  have hx := hmem x List.mem_cons_self
  have hy := hmem y (List.mem_cons_of_mem _ (List.mem_singleton_self y))
  have hle : x.1.timestamp ≤ y.1.timestamp :=
    List.pairwise_iff_forall_sublist.mp (List.pairwise_insertionSort placeLe _) hxy
  have hsame : x.1.timestamp = y.1.timestamp → x.1.service = y.1.service → x.2 < y.2 := by
    intro ht hs
    -- The sort is stable, and the entries of one service are in order before it.
    have hpair := hxy.filter fun z => decide (z.1.timestamp = y.1.timestamp)
    rw [filter_insertionSort] at hpair
    simp only [List.filter_cons, ht, decide_true, if_true, List.filter_nil] at hpair
    exact List.pairwise_iff_forall_sublist.mp (pairwise_flatMap_service hcopies hsub)
      (hpair.trans List.filter_sublist) hs
  rcases Nat.lt_trichotomy x.2 y.2 with hlt | heq | hgt
  · exact hlt
  · -- At one place there is one entry.
    have hgetx := List.mem_zipIdx_iff_getElem?.mp (List.mem_filter.mp hx).1
    have hgety := List.mem_zipIdx_iff_getElem?.mp (List.mem_filter.mp hy).1
    rw [heq, hgety] at hgetx
    have hentry := Option.some.inj hgetx
    exact hsame (by rw [hentry]) (by rw [hentry])
  · rcases timestamp_of_lt horder hy hx hgt with hlt | ⟨ht, hs⟩
    · omega
    · exact hsame ht.symm hs.symm

include hn horder hcopies hselected in
/-- Of the copied entries, those from the first one on that is shown are shown. -/
theorem mem_shown_of_le {first : LogEntry × ℕ} {shown : List (LogEntry × ℕ)}
    (hshown : Ring.recent n ((placedRecent c pushed copies).insertionSort placeLe) = first :: shown)
    {x : LogEntry × ℕ} (hx : x ∈ placed pushed copies) (hle : first.2 ≤ x.2) :
    x ∈ first :: shown := by
  have hsplit : (placedRecent c pushed copies).insertionSort placeLe =
      ((placedRecent c pushed copies).insertionSort placeLe).take
        (((placedRecent c pushed copies).insertionSort placeLe).length - n) ++ first :: shown := by
    rw [← hshown, Ring.recent, List.take_append_drop]
  have hsorted := pairwise_insertionSort_placedRecent (c := c) horder hcopies hselected
  rw [hsplit, List.pairwise_append] at hsorted
  have hrecent : ∀ y ∈ placedRecent c pushed copies, first.2 ≤ y.2 → y ∈ first :: shown := by
    intro y hy hle
    rw [← List.mem_insertionSort placeLe, hsplit, List.mem_append] at hy
    rcases hy with hy | hy
    · have hlt := hsorted.2.2 y hy first List.mem_cons_self
      omega
    · exact hy
  by_contra hnot
  obtain ⟨p, hp, hx⟩ := List.mem_flatMap.mp hx
  have hold : x ∉ Ring.recent c (placedOf pushed p) := fun hmem =>
    hnot (hrecent x (List.mem_flatMap.mpr ⟨p, hp, hmem⟩) hle)
  -- The entry has been dropped from a full buffer, and everything in the buffer is later.
  have hparts := List.take_append_drop ((placedOf pushed p).length - c) (placedOf pushed p)
  have hpair := pairwise_placedOf pushed p
  rw [← hparts] at hx hpair
  rcases List.mem_append.mp hx with hx | hx
  swap
  · exact hold hx
  have hfull : (Ring.recent c (placedOf pushed p)).length = c := by
    have hpos := List.length_pos_of_mem hx
    rw [List.length_take] at hpos
    rw [Ring.recent, List.length_drop]
    omega
  have hsub : Ring.recent c (placedOf pushed p) ⊆ shown := by
    intro y hy
    have hlt := (List.pairwise_append.mp hpair).2.2 x hx y hy
    have hmem := hrecent y (List.mem_flatMap.mpr ⟨p, hp, hy⟩) (by omega)
    rcases List.mem_cons.mp hmem with rfl | hmem
    · omega
    · exact hmem
  have hnodup : (Ring.recent c (placedOf pushed p)).Nodup :=
    (nodup_of_pairwise (pairwise_placedOf pushed p)).sublist (recent_sublist c _)
  have hlen := (List.subperm_of_subset hnodup hsub).length_le
  have htotal := congrArg List.length hshown
  rw [Ring.recent, List.length_drop, List.length_cons] at htotal
  omega

/-- Selecting entries with their places selects the same entries as without. -/
theorem map_fst_filter (selected : LogEntry → Bool) (l : List LogEntry) (k : ℕ) :
    ((l.zipIdx k).filter fun x => selected x.1).map Prod.fst = l.filter selected := by
  have hfst : (l.zipIdx k).map Prod.fst = l := List.zipIdx_map_fst _ _
  conv_rhs => rw [← hfst, List.filter_map]
  rfl

/-- The selected entries before a place are those of the beginning, and the others are those of the
rest. -/
theorem selectedPlaces_eq {k : ℕ} (hk : k ≤ pushed.length) :
    (selectedPlaces selected pushed).filter (fun x => decide (x.2 < k)) =
        (pushed.take k).zipIdx.filter (fun x => selected x.1) ∧
      (selectedPlaces selected pushed).filter (fun x => decide (k ≤ x.2)) =
        ((pushed.drop k).zipIdx k).filter fun x => selected x.1 := by
  have hsplit : pushed.zipIdx = (pushed.take k).zipIdx ++ (pushed.drop k).zipIdx k := by
    conv_lhs => rw [← List.take_append_drop k pushed, List.zipIdx_append]
    rw [List.length_take, Nat.min_eq_left hk, Nat.zero_add]
  have hlo : ∀ x ∈ (pushed.take k).zipIdx.filter (fun x => selected x.1), x.2 < k := fun x hx => by
    have hlt := List.snd_lt_of_mem_zipIdx (List.mem_filter.mp hx).1
    rw [List.length_take] at hlt
    omega
  have hhi : ∀ x ∈ ((pushed.drop k).zipIdx k).filter (fun x => selected x.1), k ≤ x.2 :=
    fun x hx => List.le_snd_of_mem_zipIdx (List.mem_filter.mp hx).1
  rw [selectedPlaces, hsplit, List.filter_append]
  constructor
  · rw [List.filter_append, List.filter_eq_self.mpr fun x hx => decide_eq_true (hlo x hx),
      List.filter_eq_nil_iff.mpr fun x hx h => absurd (hhi x hx) (by simpa using h),
      List.append_nil]
  · rw [List.filter_append, List.filter_eq_nil_iff.mpr fun x hx h =>
      absurd (hlo x hx) (by simpa using h), List.nil_append,
      List.filter_eq_self.mpr fun x hx => decide_eq_true (hhi x hx)]

/-- The selected entries that are not copied, with their places. -/
def uncopied (selected : LogEntry → Bool) (pushed : List LogEntry) (copies : List (String × ℕ)) :
    List (LogEntry × ℕ) :=
  (selectedPlaces selected pushed).filter fun x => !decide (x ∈ placed pushed copies)

/-- The entries that are not copied are some of the selected ones, in order. -/
theorem uncopied_sublist :
    (uncopied selected pushed copies).Sublist (selectedPlaces selected pushed) :=
  List.filter_sublist

/-- An entry that is not copied is not among the copied ones. -/
theorem notMem_placed {x : LogEntry × ℕ} (hx : x ∈ uncopied selected pushed copies) :
    x ∉ placed pushed copies := by
  simpa using (List.mem_filter.mp hx).2

/-- The selected entries are at different places. -/
theorem nodup_selectedPlaces : (selectedPlaces selected pushed).Nodup :=
  (nodup_of_pairwise (pairwise_zipIdx _)).sublist List.filter_sublist

include hcopies hselected in
/-- The selected entries are copied or not. -/
theorem perm_uncopied : (placed pushed copies ++ uncopied selected pushed copies).Perm
    (selectedPlaces selected pushed) := by
  have hplaced : (placed pushed copies).Nodup := nodup_flatMap hcopies fun p => .refl _
  refine List.Perm.trans ?_ (List.filter_append_perm
    (fun x => decide (x ∈ placed pushed copies)) (selectedPlaces selected pushed))
  refine List.Perm.append_right _ ((List.perm_ext_iff_of_nodup hplaced
    (nodup_selectedPlaces.sublist List.filter_sublist)).mpr fun x => ?_)
  rw [List.mem_filter, decide_eq_true_eq]
  exact ⟨fun hx => ⟨mem_selectedPlaces hselected hx, hx⟩, fun h => h.2⟩

include hn horder hcopies hselected in
/-- Together with those that are not copied, the entries that are shown are all from the first of
them on, and what is not copied before it. -/
theorem perm_shown {first : LogEntry × ℕ} {shown : List (LogEntry × ℕ)}
    (hshown : Ring.recent n ((placedRecent c pushed copies).insertionSort placeLe) =
      first :: shown) :
    (first :: shown ++ uncopied selected pushed copies).Perm
      (((uncopied selected pushed copies).filter fun x => decide (x.2 < first.2)) ++
        (selectedPlaces selected pushed).filter fun x => decide (first.2 ≤ x.2)) := by
  have hsub : (first :: shown).Sublist ((placedRecent c pushed copies).insertionSort placeLe) := by
    rw [← hshown]
    exact recent_sublist n _
  have hmem : ∀ x ∈ first :: shown, x ∈ placed pushed copies := fun x hx =>
    mem_placed_of_recent ((List.mem_insertionSort placeLe).mp (hsub.subset hx))
  have hsorted :=
    (pairwise_insertionSort_placedRecent (c := c) horder hcopies hselected).sublist hsub
  have hrest := nodup_selectedPlaces.sublist (@uncopied_sublist pushed copies selected)
  have hleft : (first :: shown ++ uncopied selected pushed copies).Nodup :=
    (nodup_of_pairwise hsorted).append hrest fun x hx hx' => notMem_placed hx' (hmem x hx)
  have hright : (((uncopied selected pushed copies).filter fun x => decide (x.2 < first.2)) ++
      (selectedPlaces selected pushed).filter fun x => decide (first.2 ≤ x.2)).Nodup := by
    refine (hrest.sublist List.filter_sublist).append
      (nodup_selectedPlaces.sublist List.filter_sublist) fun x hx hx' => ?_
    have hlo := of_decide_eq_true (List.mem_filter.mp hx).2
    have hhi := of_decide_eq_true (List.mem_filter.mp hx').2
    omega
  refine (List.perm_ext_iff_of_nodup hleft hright).mpr fun x => ?_
  simp only [List.mem_append, List.mem_filter, decide_eq_true_eq]
  constructor
  · rintro (hx | hx)
    · refine .inr ⟨mem_selectedPlaces hselected (hmem x hx), ?_⟩
      rcases List.mem_cons.mp hx with rfl | hx
      · exact Nat.le_refl _
      · exact (List.rel_of_pairwise_cons hsorted hx).le
    · by_cases h : x.2 < first.2
      · exact .inl ⟨hx, h⟩
      · exact .inr ⟨uncopied_sublist.subset hx, Nat.le_of_not_lt h⟩
  · rintro (⟨hx, -⟩ | ⟨hx, hle⟩)
    · exact .inr hx
    · by_cases h : x ∈ placed pushed copies
      · exact .inl (mem_shown_of_le hn horder hcopies hselected hshown h hle)
      · exact .inr (List.mem_filter.mpr ⟨hx, by simpa using h⟩)

include hn horder hcopies hselected in
/-- What is shown of the copied entries, and the selected entries that had not been pushed when
their service was copied: every selected entry from the first one on that is shown, each once, and
maybe some before it. -/
theorem exists_seam {live : List LogEntry}
    (hlive : (pushed.filter selected).Perm (copied pushed copies ++ live)) :
    ∃ before after earlier, pushed = before ++ after ∧
      (∀ e ∈ (tailOf n (buffered c pushed copies)).head?, after.head? = some e) ∧
      earlier.Sublist (before.filter selected) ∧
      (tailOf n (buffered c pushed copies) ++ live).Perm (earlier ++ after.filter selected) := by
  have htail : tailOf n (buffered c pushed copies) =
      (Ring.recent n ((placedRecent c pushed copies).insertionSort placeLe)).map Prod.fst := by
    rw [tailOf_eq, ← map_fst_placedRecent, map_recent,
      List.map_insertionSort placeLe LogEntry.le _ _ fun _ _ _ _ => Iff.rfl]
  have hrest : live.Perm ((uncopied selected pushed copies).map Prod.fst) := by
    have hvalues := (@perm_uncopied pushed copies selected hcopies hselected).map Prod.fst
    rw [List.map_append, map_fst_placed, selectedPlaces, map_fst_filter] at hvalues
    exact (List.perm_append_left_iff _).mp (hlive.symm.trans hvalues.symm)
  rw [htail]
  cases hshown : Ring.recent n ((placedRecent c pushed copies).insertionSort placeLe) with
  | nil =>
    refine ⟨pushed, [], (uncopied selected pushed copies).map Prod.fst, (List.append_nil _).symm,
      nofun, ?_, ?_⟩
    · have hvalues := (@uncopied_sublist pushed copies selected).map Prod.fst
      rw [selectedPlaces, map_fst_filter] at hvalues
      exact hvalues
    · rw [List.filter_nil, List.append_nil]
      exact hrest
  | cons first shown =>
    have hmem : first ∈ placedRecent c pushed copies := by
      refine (List.mem_insertionSort placeLe).mp ((recent_sublist n _).subset ?_)
      rw [hshown]
      exact List.mem_cons_self
    have hfirst := mem_selectedPlaces hselected (mem_placed_of_recent hmem)
    have hget := List.mem_zipIdx_iff_getElem?.mp (List.mem_filter.mp hfirst).1
    have hk : first.2 ≤ pushed.length := (List.getElem?_eq_some_iff.mp hget).1.le
    obtain ⟨hlt, hle⟩ := @selectedPlaces_eq pushed selected first.2 hk
    refine ⟨pushed.take first.2, pushed.drop first.2,
      ((uncopied selected pushed copies).filter fun x => decide (x.2 < first.2)).map Prod.fst,
      (List.take_append_drop _ _).symm, ?_, ?_, ?_⟩
    · intro e he
      rw [List.head?_drop, hget]
      exact he
    · have hvalues := ((@uncopied_sublist pushed copies selected).filter
        fun x => decide (x.2 < first.2)).map Prod.fst
      rw [hlt, map_fst_filter] at hvalues
      exact hvalues
    · have hvalues := (perm_shown hn horder hcopies hselected hshown).map Prod.fst
      rw [List.map_append, List.map_append, hle, map_fst_filter] at hvalues
      exact (hrest.append_left _).trans hvalues

end Seam

end Vigil
