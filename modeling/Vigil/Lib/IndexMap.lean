import Mathlib.Data.List.Basic
import Mathlib.Data.List.Nodup

/-!
# Insertion-ordered maps

A map that keeps its entries in the order in which their keys were first inserted: inserting a key
that is present replaces its value and keeps its place, and removing a key shifts the later entries
down. The keys are distinct by construction, so a lookup finds the one entry of its key
(`get?_eq_some_iff`). Every operation has its lookup lemma and its key lemma, and later proofs use
only those.
-/

/-- A map with its entries in insertion order. -/
structure IndexMap (κ ν : Type*) where
  /-- The entries, in insertion order. -/
  entries : List (κ × ν)
  /-- No key occurs twice. -/
  nodup : (entries.map Prod.fst).Nodup

namespace IndexMap

variable {κ ν : Type*}

/-- The empty map. -/
def empty : IndexMap κ ν := ⟨[], List.nodup_nil⟩

instance : EmptyCollection (IndexMap κ ν) := ⟨empty⟩

instance : Inhabited (IndexMap κ ν) := ⟨empty⟩

instance [DecidableEq κ] [DecidableEq ν] : DecidableEq (IndexMap κ ν) := fun m n =>
  decidable_of_iff (m.entries = n.entries)
    ⟨fun h => by cases m; cases n; simp_all, fun h => h ▸ rfl⟩

/-- The keys, in insertion order. -/
def keys (m : IndexMap κ ν) : List κ := m.entries.map Prod.fst

/-- The keys of a map are distinct. -/
theorem nodup_keys (m : IndexMap κ ν) : m.keys.Nodup := m.nodup

/-- Two entries with one key are the same entry. -/
theorem eq_of_mem_entries {m : IndexMap κ ν} {k : κ} {v w : ν} (hv : (k, v) ∈ m.entries)
    (hw : (k, w) ∈ m.entries) : v = w :=
  congrArg Prod.snd (List.inj_on_of_nodup_map m.nodup hv hw rfl)

/-- Maps with the same keys have equally many. -/
theorem length_keys_eq {μ : Type*} {m : IndexMap κ ν} {n : IndexMap κ μ}
    (h : ∀ k, k ∈ m.keys ↔ k ∈ n.keys) : m.keys.length = n.keys.length :=
  ((List.perm_ext_iff_of_nodup m.nodup_keys n.nodup_keys).mpr h).length_eq

/-- Keep the entries that pass a test. -/
def filter (m : IndexMap κ ν) (p : κ × ν → Bool) : IndexMap κ ν :=
  ⟨m.entries.filter p, m.nodup.sublist (List.filter_sublist.map _)⟩

/-- The entries kept by a filter. -/
@[simp] theorem entries_filter (m : IndexMap κ ν) (p : κ × ν → Bool) :
    (m.filter p).entries = m.entries.filter p := rfl

/-- Change every value. -/
def mapValues {μ : Type*} (f : ν → μ) (m : IndexMap κ ν) : IndexMap κ μ :=
  ⟨m.entries.map fun e => (e.1, f e.2), by
    rw [List.map_map]
    exact m.nodup⟩

/-- The entries with their values changed. -/
@[simp] theorem entries_mapValues {μ : Type*} (f : ν → μ) (m : IndexMap κ ν) :
    (m.mapValues f).entries = m.entries.map fun e => (e.1, f e.2) := rfl

/-- Changing every value into itself. -/
@[simp] theorem mapValues_id (m : IndexMap κ ν) : m.mapValues id = m := by
  cases m
  simp [mapValues]

variable [DecidableEq κ]

/-- The value of a key. -/
def get? (m : IndexMap κ ν) (k : κ) : Option ν :=
  (m.entries.find? fun e => decide (e.1 = k)).map Prod.snd

/-- Whether a key is present. -/
def contains (m : IndexMap κ ν) (k : κ) : Bool := decide (k ∈ m.keys)

/-- Change the value of a key, if it is present. -/
def modify (m : IndexMap κ ν) (k : κ) (f : ν → ν) : IndexMap κ ν :=
  ⟨m.entries.map fun e => if e.1 = k then (e.1, f e.2) else e, by
    have h : (m.entries.map fun e => if e.1 = k then (e.1, f e.2) else e).map Prod.fst =
        m.entries.map Prod.fst := by
      rw [List.map_map]
      exact List.map_congr_left fun e _ => by simp only [Function.comp]; split_ifs <;> rfl
    rw [h]; exact m.nodup⟩

/-- Set the value of a key: in place if it is present, and at the end otherwise. -/
def insert (m : IndexMap κ ν) (k : κ) (v : ν) : IndexMap κ ν :=
  if h : k ∈ m.keys then m.modify k fun _ => v
  else ⟨m.entries ++ [(k, v)], by
    rw [List.map_append]
    exact m.nodup.append (List.nodup_singleton _)
      (by simpa [List.disjoint_singleton, keys] using h)⟩

/-- Remove a key; the later entries move up. -/
def shiftRemove (m : IndexMap κ ν) (k : κ) : IndexMap κ ν := m.filter fun e => decide (e.1 ≠ k)

/-- A lookup finds the entry of its key. -/
theorem get?_eq_some_iff {m : IndexMap κ ν} {k : κ} {v : ν} :
    m.get? k = some v ↔ (k, v) ∈ m.entries := by
  unfold get?
  constructor
  · intro h
    obtain ⟨⟨k', v'⟩, hf, rfl⟩ := Option.map_eq_some_iff.mp h
    have hk : k' = k := by simpa using List.find?_some hf
    exact hk ▸ List.mem_of_find?_eq_some hf
  · intro h
    cases hf : m.entries.find? fun e => decide (e.1 = k) with
    | none => simpa using List.find?_eq_none.mp hf _ h
    | some e =>
      obtain ⟨k', v'⟩ := e
      have hk : k' = k := by simpa using List.find?_some hf
      subst hk
      rw [eq_of_mem_entries (List.mem_of_find?_eq_some hf) h]
      rfl

/-- A key is present when a lookup finds it. -/
theorem mem_keys_iff {m : IndexMap κ ν} {k : κ} : k ∈ m.keys ↔ ∃ v, m.get? k = some v := by
  simp [keys, get?_eq_some_iff]

/-- A key that a lookup finds is present. -/
theorem mem_keys_of_get? {m : IndexMap κ ν} {k : κ} {v : ν} (h : m.get? k = some v) :
    k ∈ m.keys :=
  mem_keys_iff.mpr ⟨v, h⟩

/-- A lookup fails on the keys that are absent. -/
theorem get?_eq_none_iff {m : IndexMap κ ν} {k : κ} : m.get? k = none ↔ k ∉ m.keys := by
  rw [mem_keys_iff, Option.eq_none_iff_forall_ne_some, not_exists]

/-- `contains` decides membership among the keys. -/
@[simp] theorem contains_iff {m : IndexMap κ ν} {k : κ} : m.contains k = true ↔ k ∈ m.keys := by
  simp [contains]

/-- Nothing is found in the empty map. -/
@[simp] theorem get?_empty (k : κ) : (∅ : IndexMap κ ν).get? k = none := rfl

/-- After a filter a key has its value if the entry passes, and none otherwise. -/
theorem get?_filter (m : IndexMap κ ν) (p : κ × ν → Bool) (k : κ) :
    (m.filter p).get? k = (m.get? k).filter fun v => p (k, v) := by
  ext v
  simp [get?_eq_some_iff, Option.filter_eq_some_iff]

/-- After `modify` the key's value is the changed one, and the others are as they were. -/
theorem get?_modify (m : IndexMap κ ν) (k k' : κ) (f : ν → ν) :
    (m.modify k f).get? k' = if k' = k then (m.get? k').map f else m.get? k' := by
  ext v
  rw [get?_eq_some_iff]
  simp only [modify, List.mem_map, Prod.exists]
  constructor
  · rintro ⟨a, w, ha, h⟩
    by_cases hk : a = k
    · rw [if_pos hk] at h
      obtain ⟨rfl, rfl⟩ := Prod.mk.inj h
      rw [if_pos hk, get?_eq_some_iff.mpr ha]; rfl
    · rw [if_neg hk] at h
      obtain ⟨rfl, rfl⟩ := Prod.mk.inj h
      rw [if_neg hk]
      exact get?_eq_some_iff.mpr ha
  · intro h
    split_ifs at h with hk
    · obtain ⟨w, hw, rfl⟩ := Option.map_eq_some_iff.mp h
      exact ⟨k', w, get?_eq_some_iff.mp hw, by simp [hk]⟩
    · exact ⟨k', v, get?_eq_some_iff.mp h, by simp [hk]⟩

/-- `modify` keeps the keys. -/
@[simp] theorem keys_modify (m : IndexMap κ ν) (k : κ) (f : ν → ν) :
    (m.modify k f).keys = m.keys := by
  simp only [keys, modify, List.map_map]
  exact List.map_congr_left fun e _ => by simp only [Function.comp]; split_ifs <;> rfl

/-- After `insert` the key's value is the new one, and the others are as they were. -/
theorem get?_insert (m : IndexMap κ ν) (k k' : κ) (v : ν) :
    (m.insert k v).get? k' = if k' = k then some v else m.get? k' := by
  unfold insert
  split_ifs with hm hk hk
  · obtain ⟨w, hw⟩ := mem_keys_iff.mp hm
    rw [get?_modify, if_pos hk, hk, hw]; rfl
  · rw [get?_modify, if_neg hk]
  · rw [get?_eq_some_iff, hk]; simp
  · ext w
    simp [get?_eq_some_iff, hk]

/-- The keys after `insert` are the new one and those before. -/
theorem mem_keys_insert (m : IndexMap κ ν) (k k' : κ) (v : ν) :
    k' ∈ (m.insert k v).keys ↔ k' = k ∨ k' ∈ m.keys := by
  rw [mem_keys_iff, mem_keys_iff]
  simp only [get?_insert]
  split_ifs with h <;> simp [h]

/-- After `shiftRemove` the key has no value, and the others are as they were. -/
theorem get?_shiftRemove (m : IndexMap κ ν) (k k' : κ) :
    (m.shiftRemove k).get? k' = if k' = k then none else m.get? k' := by
  rw [shiftRemove, get?_filter]
  split_ifs with h
  · cases m.get? k' <;> simp [h]
  · cases m.get? k' <;> simp [h]

end IndexMap
