import Mathlib.Tactic.Choose
import Vigil.Lib.Overlay

/-!
# Derived deserialization

What a derived deserializer does with a mapping: a field takes the value of its key, if the mapping
has it, and its default otherwise; a field without a default is missing then, which is an error;
keys that are no field's are ignored. A struct is given by its fields (`Schema`), and
`decode_eq_some_iff` says that decoding is what happens at each field.

The mappings have no key twice. How a value is read from a node is the schema's.
-/

namespace Serde

/-- `rename_all = "kebab-case"` on the name of a field. -/
def kebabCase (name : String) : String :=
  String.ofList (name.toList.map fun c => if c = '_' then '-' else c)

/-- A struct `α` with named fields, whose values are read from nodes `ν`. -/
structure Schema (ν α : Type) where
  Field : Type
  fields : List Field
  mem_fields : ∀ f, f ∈ fields
  /-- The key of a field in a mapping. -/
  key : Field → String
  /-- The type of a field. -/
  Ty : Field → Type
  /-- The value of a field in a struct. -/
  get : (f : Field) → α → Ty f
  /-- The struct with the values. -/
  make : ((f : Field) → Ty f) → α
  get_make : ∀ v f, get f (make v) = v f
  make_get : ∀ a, make (fun f => get f a) = a
  /-- How a field's value is read from a node, which may fail. -/
  read : (f : Field) → ν → Option (Ty f)
  /-- What a field has if its key is absent, which may be an error. -/
  default : (f : Field) → Option (Ty f)

namespace Schema

variable {ν α : Type} (s : Schema ν α)

/-- A field's value from a mapping. -/
def field (m : IndexMap String ν) (f : s.Field) : Option (s.Ty f) :=
  match m.get? (s.key f) with
  | some v => s.read f v
  | none => s.default f

/-- The mapping has the key of the field. -/
def Mentions (m : IndexMap String ν) (f : s.Field) : Prop := m.get? (s.key f) ≠ none

/-- Decode a struct from a mapping. -/
def decode (m : IndexMap String ν) : Option α :=
  if h : ∀ f ∈ s.fields, (s.field m f).isSome = true then
    some (s.make fun f => (s.field m f).get (h f (s.mem_fields f)))
  else none

/-- A mapping decodes to the struct that has the value of each field. -/
theorem decode_eq_some_iff {m : IndexMap String ν} {a : α} :
    s.decode m = some a ↔ ∀ f, s.field m f = some (s.get f a) := by
  unfold decode
  constructor
  · intro h f
    split_ifs at h with hall
    obtain rfl := Option.some.inj h
    rw [s.get_make, Option.some_get]
  · intro h
    have hall : ∀ f ∈ s.fields, (s.field m f).isSome = true := fun f _ => by rw [h f]; rfl
    rw [dif_pos hall, Option.some.injEq]
    have hval : (fun f => (s.field m f).get (hall f (s.mem_fields f))) = fun f => s.get f a := by
      funext f
      exact Option.get_of_eq_some _ (h f)
    rw [hval, s.make_get]

/-- A mapping decodes to something when every field has a value. -/
theorem exists_decode_iff {m : IndexMap String ν} :
    (∃ a, s.decode m = some a) ↔ ∀ f, ∃ t, s.field m f = some t := by
  constructor
  · rintro ⟨a, ha⟩ f
    exact ⟨_, s.decode_eq_some_iff.mp ha f⟩
  · intro h
    choose t ht using h
    exact ⟨s.make t, s.decode_eq_some_iff.mpr fun f => by rw [s.get_make, ht]⟩

variable {s} {m : IndexMap String ν} {a : α}

/-- A field that is not mentioned has its default. -/
theorem default_of_decode (h : s.decode m = some a) {f : s.Field} (hf : ¬s.Mentions m f) :
    s.default f = some (s.get f a) := by
  have hfield := s.decode_eq_some_iff.mp h f
  rwa [field, not_not.mp hf] at hfield

/-- A field that is mentioned has the value of its key. -/
theorem read_of_decode (h : s.decode m = some a) {f : s.Field} {v : ν}
    (hf : m.get? (s.key f) = some v) : s.read f v = some (s.get f a) := by
  have hfield := s.decode_eq_some_iff.mp h f
  rwa [field, hf] at hfield

end Schema

/-! ## Maps of values -/

section

variable {ν β : Type} (read : ν → Option β)

/-- Read the values of a mapping: every value is read and inserted. -/
def readMap (m : IndexMap String ν) : Option (IndexMap String β) :=
  m.entries.foldlM (fun r e => (read e.2).map (r.insert e.1)) ∅

/-- If a mapping is read entry by entry into a map, every entry can be read, and its key has what
has been read. -/
theorem get?_of_foldlM {es : List (String × ν)} (hes : (es.map Prod.fst).Nodup)
    {r r' : IndexMap String β}
    (h : es.foldlM (fun r e => (read e.2).map (r.insert e.1)) r = some r') (k : String) :
    (∀ e ∈ es, (read e.2).isSome = true) ∧
      r'.get? k = (((⟨es, hes⟩ : IndexMap String ν).get? k).bind read).or (r.get? k) := by
  induction es generalizing r with
  | nil =>
    obtain rfl := Option.some.inj h
    exact ⟨by simp, rfl⟩
  | cons e es ih =>
    obtain ⟨hnot, hnodup⟩ := List.nodup_cons.mp hes
    obtain ⟨t, ht, hrest⟩ := Option.bind_eq_some_iff.mp h
    obtain ⟨x, hx, rfl⟩ := Option.map_eq_some_iff.mp ht
    obtain ⟨hall, hget⟩ := ih hnodup hrest
    refine ⟨List.forall_mem_cons.mpr ⟨by rw [hx]; rfl, hall⟩, ?_⟩
    rw [hget, IndexMap.get?_insert, IndexMap.get?_cons hes]
    by_cases hk : k = e.1
    · subst hk
      have hnone : (⟨es, hnodup⟩ : IndexMap String ν).get? e.1 = none :=
        IndexMap.get?_eq_none_iff.mpr hnot
      simp [hnone, hx]
    · simp [hk]

/-- A lookup in a mapping that has been read. -/
theorem get?_readMap {m : IndexMap String ν} {r : IndexMap String β} (h : readMap read m = some r)
    (k : String) : r.get? k = (m.get? k).bind read := by
  have := (get?_of_foldlM read m.nodup h k).2
  rwa [IndexMap.get?_empty, Option.or_none] at this

/-- A mapping is read when all its values are. -/
theorem exists_readMap_iff {m : IndexMap String ν} :
    (∃ r, readMap read m = some r) ↔ ∀ k v, m.get? k = some v → ∃ x, read v = some x := by
  constructor
  · rintro ⟨r, hr⟩ k v hv
    obtain ⟨hall, -⟩ := get?_of_foldlM read m.nodup hr k
    exact Option.isSome_iff_exists.mp (hall (k, v) (IndexMap.get?_eq_some_iff.mp hv))
  · intro h
    have hall : ∀ e ∈ m.entries, ∃ x, read e.2 = some x := fun e he =>
      h e.1 e.2 (IndexMap.get?_eq_some_iff.mpr he)
    have hfold : ∀ (es : List (String × ν)) (r : IndexMap String β),
        (∀ e ∈ es, ∃ x, read e.2 = some x) →
        ∃ r', es.foldlM (fun r e => (read e.2).map (r.insert e.1)) r = some r' := by
      intro es
      induction es with
      | nil => exact fun r _ => ⟨r, rfl⟩
      | cons e es ih =>
        intro r hes
        obtain ⟨⟨x, hx⟩, hrest⟩ := List.forall_mem_cons.mp hes
        obtain ⟨r', hr'⟩ := ih (r.insert e.1 x) hrest
        exact ⟨r', Option.bind_eq_some_iff.mpr ⟨_, Option.map_eq_some_iff.mpr ⟨x, hx, rfl⟩, hr'⟩⟩
    exact hfold m.entries ∅ hall

end

end Serde
