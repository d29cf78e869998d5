import Mathlib.Data.List.Basic
import Mathlib.Data.List.Flatten

/-!
# Scanners

A scanner reads a list from left to right with a state, such as whether it is inside quotes. Each
symbol is kept, skipped, or cuts, and the kept symbols between two cuts are a field. The words of a
text are its fields that are not empty.

Two facts carry the proofs about a splitter: at a cut the fields of the two sides are appended
(`fields_append_cut`), and the kept symbols of a text are those of its parts (`kept_append`).
-/

/-- What a scanner does with a symbol. -/
inductive Scanner.Reading
  /-- The symbol is part of the field. -/
  | keep
  /-- The symbol only changes the state. -/
  | skip
  /-- The symbol ends the field. -/
  | cut
  deriving DecidableEq, Repr

/-- A scanner with states in `σ` and symbols in `α`. -/
structure Scanner (σ α : Type*) where
  /-- The state after a symbol. -/
  next : σ → α → σ
  /-- What the symbol is in a state. -/
  reading : σ → α → Scanner.Reading

namespace Scanner

variable {σ α : Type*} (S : Scanner σ α)

/-- The state after a text. -/
def after (q : σ) (s : List α) : σ := s.foldl S.next q

@[simp] theorem after_nil (q : σ) : S.after q [] = q := rfl

@[simp] theorem after_cons (q : σ) (c : α) (s : List α) :
    S.after q (c :: s) = S.after (S.next q c) s := rfl

@[simp] theorem after_append (q : σ) (a b : List α) :
    S.after q (a ++ b) = S.after (S.after q a) b := List.foldl_append

/-- These symbols before the first field. -/
def onHead (w : List α) : List (List α) → List (List α)
  | [] => [w]
  | f :: fs => (w ++ f) :: fs

@[simp] theorem onHead_onHead (v w : List α) (fs : List (List α)) :
    onHead v (onHead w fs) = onHead (v ++ w) fs := by
  cases fs <;> simp [onHead]

theorem onHead_nil {fs : List (List α)} (h : fs ≠ []) : onHead [] fs = fs := by
  obtain ⟨f, fs, rfl⟩ := List.exists_cons_of_ne_nil h
  rfl

/-- More fields at the end do not change the first one. -/
theorem onHead_append (w : List α) {fs : List (List α)} (h : fs ≠ []) (gs : List (List α)) :
    onHead w (fs ++ gs) = onHead w fs ++ gs := by
  obtain ⟨f, fs, rfl⟩ := List.exists_cons_of_ne_nil h
  rfl

@[simp] theorem flatten_onHead (w : List α) (fs : List (List α)) :
    (onHead w fs).flatten = w ++ fs.flatten := by
  cases fs <;> simp [onHead]

/-- The fields of a text. -/
def fields : σ → List α → List (List α)
  | _, [] => [[]]
  | q, c :: cs =>
    match S.reading q c with
    | .keep => onHead [c] (fields (S.next q c) cs)
    | .skip => fields (S.next q c) cs
    | .cut => [] :: fields (S.next q c) cs

@[simp] theorem fields_nil (q : σ) : S.fields q [] = [[]] := rfl

theorem fields_keep {q : σ} {c : α} (h : S.reading q c = .keep) (s : List α) :
    S.fields q (c :: s) = onHead [c] (S.fields (S.next q c) s) := by
  simp only [fields, h]

theorem fields_skip {q : σ} {c : α} (h : S.reading q c = .skip) (s : List α) :
    S.fields q (c :: s) = S.fields (S.next q c) s := by
  simp only [fields, h]

theorem fields_cut {q : σ} {c : α} (h : S.reading q c = .cut) (s : List α) :
    S.fields q (c :: s) = [] :: S.fields (S.next q c) s := by
  simp only [fields, h]

/-- A text has one field or more. -/
theorem fields_ne_nil : ∀ (q : σ) (s : List α), S.fields q s ≠ []
  | _, [] => by simp
  | q, c :: s => by
    cases h : S.reading q c with
    | keep =>
      rw [S.fields_keep h]
      cases S.fields (S.next q c) s <;> simp [onHead]
    | skip =>
      rw [S.fields_skip h]
      exact fields_ne_nil _ s
    | cut =>
      rw [S.fields_cut h]
      exact List.cons_ne_nil _ _

/-- At a cut the fields of the two sides are appended. -/
theorem fields_append_cut {c : α} (b : List α) :
    ∀ (a : List α) (q : σ), S.reading (S.after q a) c = .cut →
      S.fields q (a ++ c :: b) = S.fields q a ++ S.fields (S.next (S.after q a) c) b
  | [], q, h => S.fields_cut (q := q) h b
  | d :: a, q, h => by
    have ih := fields_append_cut b a (S.next q d) h
    rw [List.cons_append]
    cases hd : S.reading q d with
    | keep =>
      rw [S.fields_keep hd, S.fields_keep hd, ih, onHead_append _ (S.fields_ne_nil _ _)]
      rfl
    | skip =>
      rw [S.fields_skip hd, S.fields_skip hd, ih]
      rfl
    | cut =>
      rw [S.fields_cut hd, S.fields_cut hd, ih]
      rfl

/-- The symbols of a text that are kept. -/
def kept (q : σ) (s : List α) : List α := (S.fields q s).flatten

@[simp] theorem kept_nil (q : σ) : S.kept q [] = [] := rfl

theorem kept_keep {q : σ} {c : α} (h : S.reading q c = .keep) (s : List α) :
    S.kept q (c :: s) = c :: S.kept (S.next q c) s := by
  unfold kept
  rw [S.fields_keep h, flatten_onHead, List.singleton_append]

theorem kept_skip {q : σ} {c : α} (h : S.reading q c = .skip) (s : List α) :
    S.kept q (c :: s) = S.kept (S.next q c) s := by
  unfold kept
  rw [S.fields_skip h]

theorem kept_cut {q : σ} {c : α} (h : S.reading q c = .cut) (s : List α) :
    S.kept q (c :: s) = S.kept (S.next q c) s := by
  unfold kept
  rw [S.fields_cut h, List.flatten_cons, List.nil_append]

/-- The kept symbols of a text are those of its parts. -/
theorem kept_append (b : List α) :
    ∀ (a : List α) (q : σ), S.kept q (a ++ b) = S.kept q a ++ S.kept (S.after q a) b
  | [], _ => rfl
  | c :: a, q => by
    have ih := kept_append b a (S.next q c)
    rw [List.cons_append]
    cases h : S.reading q c with
    | keep =>
      rw [S.kept_keep h, S.kept_keep h, ih]
      rfl
    | skip =>
      rw [S.kept_skip h, S.kept_skip h, ih]
      rfl
    | cut =>
      rw [S.kept_cut h, S.kept_cut h, ih]
      rfl

/-! ## Words -/

/-- The lists that are not empty. -/
def nonempty (fs : List (List α)) : List (List α) := fs.filter fun f => !f.isEmpty

@[simp] theorem nonempty_nil_cons (fs : List (List α)) : nonempty ([] :: fs) = nonempty fs := rfl

@[simp] theorem nonempty_cons_cons (c : α) (f : List α) (fs : List (List α)) :
    nonempty ((c :: f) :: fs) = (c :: f) :: nonempty fs := rfl

@[simp] theorem nonempty_append (fs gs : List (List α)) :
    nonempty (fs ++ gs) = nonempty fs ++ nonempty gs := List.filter_append _ _

@[simp] theorem flatten_nonempty (fs : List (List α)) : (nonempty fs).flatten = fs.flatten := by
  induction fs with
  | nil => rfl
  | cons f fs ih =>
    cases f with
    | nil => rw [nonempty_nil_cons, ih, List.flatten_cons, List.nil_append]
    | cons c f => rw [nonempty_cons_cons, List.flatten_cons, List.flatten_cons, ih]

/-- Nothing is lost if and only if no list is empty. -/
theorem nonempty_eq_self {fs : List (List α)} : nonempty fs = fs ↔ [] ∉ fs := by
  unfold nonempty
  rw [List.filter_eq_self]
  constructor
  · intro h hmem
    exact absurd (h [] hmem) (by simp)
  · intro h f hf
    cases f with
    | nil => exact absurd hf h
    | cons c f => rfl

/-- The words of a text: its fields that are not empty. -/
def words (q : σ) (s : List α) : List (List α) := nonempty (S.fields q s)

/-- The words are made of the kept symbols. -/
theorem flatten_words (q : σ) (s : List α) : (S.words q s).flatten = S.kept q s :=
  flatten_nonempty _

/-- At a cut the words of the two sides are appended. -/
theorem words_append_cut {q : σ} {a : List α} {c : α} (h : S.reading (S.after q a) c = .cut)
    (b : List α) :
    S.words q (a ++ c :: b) = S.words q a ++ S.words (S.next (S.after q a) c) b := by
  unfold words
  rw [S.fields_append_cut b a q h, nonempty_append]

/-- A symbol that cuts is not in a word. -/
theorem words_cut {q : σ} {c : α} (h : S.reading q c = .cut) (s : List α) :
    S.words q (c :: s) = S.words (S.next q c) s := by
  unfold words
  rw [S.fields_cut h, nonempty_nil_cons]

/-- A text whose kept symbols are none has no words. -/
theorem words_eq_nil_of_kept {q : σ} {s : List α} (h : S.kept q s = []) : S.words q s = [] := by
  unfold words nonempty
  rw [List.filter_eq_nil_iff]
  intro f hf
  rw [List.flatten_eq_nil_iff.mp h f hf]
  simp

end Scanner
