import Vigil.Lib.IndexMap

/-!
# Laying maps over one another

Every entry of the upper map is put on what the lower map has at its key: `put` takes the lower
value, if there is one, and the upper value. The keys of the lower map keep their places, and the
new keys of the upper map follow in their order.

Where `put` is lawful, the maps are a monoid in which every element is idempotent: maps laid over
one another one at a time are the same as a stack of them laid on at once (`overlay_assoc`), and a
map laid over itself changes nothing (`overlay_overlay_self`). The two lemmas by which this is
proved, the keys and the lookups, determine a map (`ext_get?`).
-/

namespace IndexMap

variable {κ ν : Type*} [DecidableEq κ]

/-- Two maps with the same keys in the same order and the same lookups are equal. -/
theorem ext_get? {m n : IndexMap κ ν} (hk : m.keys = n.keys) (hv : ∀ k, m.get? k = n.get? k) :
    m = n := by
  obtain ⟨es, hes⟩ := m
  obtain ⟨fs, hfs⟩ := n
  congr 1
  refine List.ext_getElem (by simpa [keys] using congrArg List.length hk) fun i hi hi' => ?_
  have hfst : (es[i]).1 = (fs[i]).1 := by
    have := congrArg (·[i]?) hk
    simpa [keys, hi, hi'] using this
  have hmem : get? ⟨fs, hfs⟩ (es[i]).1 = some (es[i]).2 := by
    rw [← hv]
    exact get?_eq_some_iff.mpr (List.getElem_mem hi)
  have hmem' : get? ⟨fs, hfs⟩ (es[i]).1 = some (fs[i]).2 := by
    rw [hfst]
    exact get?_eq_some_iff.mpr (List.getElem_mem hi')
  exact Prod.ext hfst (Option.some.inj (hmem.symm.trans hmem'))

/-- `insert` puts a new key behind the others, and leaves the order of known ones. -/
theorem keys_insert (m : IndexMap κ ν) (k : κ) (v : ν) :
    (m.insert k v).keys = if k ∈ m.keys then m.keys else m.keys ++ [k] := by
  unfold insert
  split_ifs with h
  · exact m.keys_modify k _
  · simp [keys]

/-- In a map with a first entry its key has that value, and the other keys have theirs in the
rest. -/
theorem get?_cons {e : κ × ν} {es : List (κ × ν)} (h : ((e :: es).map Prod.fst).Nodup) (k : κ) :
    (⟨e :: es, h⟩ : IndexMap κ ν).get? k =
      if k = e.1 then some e.2 else (⟨es, (List.nodup_cons.mp h).2⟩ : IndexMap κ ν).get? k := by
  split_ifs with hk
  · exact hk ▸ get?_eq_some_iff.mpr List.mem_cons_self
  · unfold get?
    rw [List.find?_cons_of_neg (by simpa using Ne.symm hk)]

variable (put : Option ν → ν → ν)

/-- Put entries on a map, one after another. -/
def putAll (m : IndexMap κ ν) (es : List (κ × ν)) : IndexMap κ ν :=
  es.foldl (fun m e => m.insert e.1 (put (m.get? e.1) e.2)) m

/-- Lay a map over another. -/
def overlay (lower upper : IndexMap κ ν) : IndexMap κ ν := putAll put lower upper.entries

/-- After entries have been put on a map, its keys are those of the map, and then the new ones. -/
theorem keys_putAll {es : List (κ × ν)} (h : (es.map Prod.fst).Nodup) (m : IndexMap κ ν) :
    (putAll put m es).keys = m.keys ++ (es.map Prod.fst).filter fun k => decide (k ∉ m.keys) := by
  induction es generalizing m with
  | nil => simp [putAll]
  | cons e es ih =>
    obtain ⟨hnot, hnodup⟩ := List.nodup_cons.mp h
    have hstep : putAll put m (e :: es) =
        putAll put (m.insert e.1 (put (m.get? e.1) e.2)) es := rfl
    rw [hstep, ih hnodup, keys_insert, List.map_cons, List.filter_cons]
    by_cases hk : e.1 ∈ m.keys
    · simp [hk]
    · simp only [hk, if_false, not_false_eq_true, decide_true, if_true, List.append_assoc,
        List.singleton_append]
      congr 2
      refine List.filter_congr fun k hmem => ?_
      have hne : k ≠ e.1 := fun heq => hnot (heq ▸ hmem)
      simp [hne]

/-- After entries have been put on a map, their keys have their values put on the map's, and the
others are as they were. -/
theorem get?_putAll {es : List (κ × ν)} (h : (es.map Prod.fst).Nodup) (m : IndexMap κ ν) (k : κ) :
    (putAll put m es).get? k =
      (((⟨es, h⟩ : IndexMap κ ν).get? k).map (put (m.get? k))).or (m.get? k) := by
  induction es generalizing m with
  | nil => rfl
  | cons e es ih =>
    obtain ⟨hnot, hnodup⟩ := List.nodup_cons.mp h
    have hstep : putAll put m (e :: es) =
        putAll put (m.insert e.1 (put (m.get? e.1) e.2)) es := rfl
    rw [hstep, ih hnodup, get?_insert, get?_cons h]
    by_cases hk : k = e.1
    · subst hk
      have hnone : (⟨es, hnodup⟩ : IndexMap κ ν).get? e.1 = none := get?_eq_none_iff.mpr hnot
      simp [hnone]
    · simp [hk]

/-- The keys of two maps laid over one another are those of the lower one, and then the new ones. -/
theorem keys_overlay (m n : IndexMap κ ν) :
    (overlay put m n).keys = m.keys ++ n.keys.filter fun k => decide (k ∉ m.keys) :=
  keys_putAll put n.nodup m

/-- In two maps laid over one another a key has the upper value put on the lower one, or the one
that there is. -/
theorem get?_overlay (m n : IndexMap κ ν) (k : κ) :
    (overlay put m n).get? k = ((n.get? k).map (put (m.get? k))).or (m.get? k) :=
  get?_putAll put n.nodup m k

/-- Putting values on one another is associative, does nothing to the first, and does nothing more
with a value that has just been put. -/
structure LawfulPut : Prop where
  put_none : ∀ v, put none v = v
  put_put : ∀ x v w, put (some (put x v)) w = put x (put (some v) w)
  put_self : ∀ v, put (some v) v = v

variable {put}

/-- Laying a map over nothing gives the map. -/
theorem empty_overlay (hput : LawfulPut put) (m : IndexMap κ ν) : overlay put ∅ m = m := by
  refine ext_get? ?_ fun k => ?_
  · rw [keys_overlay]
    simp [keys, show (∅ : IndexMap κ ν).entries = [] from rfl]
  · rw [get?_overlay, get?_empty]
    cases m.get? k <;> simp [hput.put_none]

/-- Laying nothing over a map gives the map. -/
theorem overlay_empty (m : IndexMap κ ν) : overlay put m ∅ = m := rfl

/-- Laying maps over one another is associative. -/
theorem overlay_assoc (hput : LawfulPut put) (m n p : IndexMap κ ν) :
    overlay put (overlay put m n) p = overlay put m (overlay put n p) := by
  refine ext_get? ?_ fun k => ?_
  · simp only [keys_overlay, List.append_assoc, List.filter_append, List.filter_filter]
    congr 2
    refine List.filter_congr fun k _ => ?_
    by_cases hm : k ∈ m.keys <;> by_cases hn : k ∈ n.keys <;> simp [hm, hn]
  · simp only [get?_overlay]
    cases p.get? k <;> cases n.get? k <;> cases m.get? k <;>
      simp [hput.put_none, hput.put_put]

/-- Laying a map over itself gives the map. -/
theorem overlay_self (hput : LawfulPut put) (m : IndexMap κ ν) : overlay put m m = m := by
  refine ext_get? ?_ fun k => ?_
  · rw [keys_overlay, List.filter_eq_nil_iff.mpr (by simp), List.append_nil]
  · rw [get?_overlay]
    cases m.get? k <;> simp [hput.put_self]

/-- Laying a map on twice changes nothing. -/
theorem overlay_overlay_self (hput : LawfulPut put) (m n : IndexMap κ ν) :
    overlay put (overlay put m n) n = overlay put m n := by
  rw [overlay_assoc hput, overlay_self hput]

/-- Putting the later value in the place of the earlier one is lawful. -/
theorem lawfulPut_snd : LawfulPut (fun (_ : Option ν) v => v) where
  put_none _ := rfl
  put_put _ _ _ := rfl
  put_self _ := rfl

end IndexMap
