import Mathlib.Data.List.Basic
import Mathlib.Data.List.DropRight
import Mathlib.Data.List.Infix
import Mathlib.Data.List.TakeWhile

/-!
# Text as a list of characters

The operations on text that programs take from their string library, on lists of characters:
trimming white space, splitting at the first separator, and finding the last occurrence of a text.
A split is characterised by the parts that it is made of (`splitOnce_eq_some_iff`), and an
occurrence by the rest of the text from there (`prefix_of_rfind`). The parts of a split at all
separators are those of `List.splitOn`.
-/

namespace Text

/-- The characters with the Unicode property `White_Space`. -/
def isWhitespace (c : Char) : Bool :=
  (9 ≤ c.toNat && c.toNat ≤ 13) || c.toNat = 0x20 || c.toNat = 0x85 || c.toNat = 0xA0 ||
    c.toNat = 0x1680 || (0x2000 ≤ c.toNat && c.toNat ≤ 0x200A) || c.toNat = 0x2028 ||
    c.toNat = 0x2029 || c.toNat = 0x202F || c.toNat = 0x205F || c.toNat = 0x3000

/-- The text without the white space at its start and its end. -/
def trim (s : List Char) : List Char := (s.dropWhile isWhitespace).rdropWhile isWhitespace

/-- Trimming leaves a part of the text. -/
theorem trim_sublist (s : List Char) : (trim s).Sublist s :=
  (List.rdropWhile_prefix _ _).sublist.trans (List.dropWhile_sublist _)

/-- Trimming a trimmed text changes nothing. -/
theorem trim_trim (s : List Char) : trim (trim s) = trim s := by
  have hstart : (trim s).dropWhile isWhitespace = trim s := by
    have hpre : trim s <+: s.dropWhile isWhitespace := List.rdropWhile_prefix _ _
    have hidem := List.dropWhile_idempotent (p := isWhitespace) s
    cases ht : trim s with
    | nil => rfl
    | cons c t =>
      obtain ⟨u, hu⟩ := ht ▸ hpre
      rw [← hu, List.cons_append] at hidem
      have hc : isWhitespace c = false := by
        by_contra hc
        rw [List.dropWhile_cons_of_pos (by simpa using hc)] at hidem
        have hlen := congrArg List.length hidem
        have hle := (List.dropWhile_sublist (l := t ++ u) isWhitespace).length_le
        rw [List.length_cons] at hlen
        omega
      exact List.dropWhile_cons_of_neg (by simp [hc])
  rw [trim, hstart, trim, List.rdropWhile_idempotent]

/-- The text before the first separator and the text after it. -/
def splitOnce (sep : Char) (s : List Char) : Option (List Char × List Char) :=
  if sep ∈ s then some (s.takeWhile (· ≠ sep), (s.dropWhile (· ≠ sep)).tail) else none

/-- A split gives the parts around a separator, the first of which has none. -/
theorem splitOnce_eq_some_iff {sep : Char} {s a b : List Char} :
    splitOnce sep s = some (a, b) ↔ s = a ++ sep :: b ∧ sep ∉ a := by
  unfold splitOnce
  constructor
  · intro h
    split_ifs at h with hmem
    obtain ⟨rfl, rfl⟩ := Prod.mk.inj (Option.some.inj h)
    refine ⟨?_, fun hm => by simpa using List.mem_takeWhile_imp hm⟩
    have hne : s.dropWhile (fun c => decide (c ≠ sep)) ≠ [] := by
      intro hnil
      simpa using List.dropWhile_eq_nil_iff.mp hnil sep hmem
    have hhead : (s.dropWhile fun c => decide (c ≠ sep)).head hne = sep := by
      simpa using List.head_dropWhile_not (fun c => decide (c ≠ sep)) hne
    calc s = s.takeWhile (fun c => decide (c ≠ sep)) ++ s.dropWhile fun c => decide (c ≠ sep) :=
          (List.takeWhile_append_dropWhile).symm
      _ = _ := by rw [← List.cons_head_tail hne, hhead, List.tail_cons]
  · rintro ⟨rfl, ha⟩
    have hall : ∀ c ∈ a, decide (c ≠ sep) = true := by
      intro c hc
      simpa using fun h : c = sep => ha (h ▸ hc)
    rw [if_pos (by simp), List.takeWhile_append_of_pos hall, List.dropWhile_append_of_pos hall]
    simp

/-- The text before the last separator and the text after it. -/
def rsplitOnce (sep : Char) (s : List Char) : Option (List Char × List Char) :=
  (splitOnce sep s.reverse).map fun parts => (parts.2.reverse, parts.1.reverse)

/-- A split at the last separator gives the parts around it, the second of which has none. -/
theorem rsplitOnce_eq_some_iff {sep : Char} {s a b : List Char} :
    rsplitOnce sep s = some (a, b) ↔ s = a ++ sep :: b ∧ sep ∉ b := by
  unfold rsplitOnce
  rw [Option.map_eq_some_iff]
  constructor
  · rintro ⟨⟨b', a'⟩, hsplit, heq⟩
    obtain ⟨rfl, rfl⟩ := Prod.mk.inj heq
    obtain ⟨hs, hb⟩ := splitOnce_eq_some_iff.mp hsplit
    refine ⟨?_, fun hmem => hb (List.mem_reverse.mp hmem)⟩
    calc s = (b' ++ sep :: a').reverse := by rw [← hs, List.reverse_reverse]
      _ = a'.reverse ++ sep :: b'.reverse := by simp
  · rintro ⟨rfl, hb⟩
    refine ⟨(b.reverse, a.reverse), splitOnce_eq_some_iff.mpr ⟨by simp, ?_⟩, by simp⟩
    exact fun hmem => hb (List.mem_reverse.mp hmem)

/-- The text after this first character. -/
def stripPrefix (c : Char) : List Char → Option (List Char)
  | [] => none
  | d :: s => if d = c then some s else none

theorem stripPrefix_eq_some_iff {c : Char} {s rest : List Char} :
    stripPrefix c s = some rest ↔ s = c :: rest := by
  cases s with
  | nil => simp [stripPrefix]
  | cons d s => simp [stripPrefix]

/-- `to_ascii_lowercase`. -/
def toAsciiLowercase (s : List Char) : List Char := s.map Char.toLower

/-! ## The last occurrence -/

/-- Where `needle` occurs last. -/
def rfind (needle : List Char) : List Char → Option ℕ
  | [] => if needle = [] then some 0 else none
  | c :: s =>
    match rfind needle s with
    | some i => some (i + 1)
    | none => if needle.isPrefixOf (c :: s) then some 0 else none

/-- The needle occurs where it is found. -/
theorem prefix_of_rfind {needle : List Char} :
    ∀ {s : List Char} {i : ℕ}, rfind needle s = some i → i ≤ s.length ∧ needle <+: s.drop i
  | [], i, h => by
    unfold rfind at h
    split_ifs at h with hn
    cases h
    exact ⟨le_rfl, by rw [hn]; exact List.nil_prefix⟩
  | c :: s, i, h => by
    unfold rfind at h
    split at h
    · next j hj =>
      cases h
      obtain ⟨hle, hpre⟩ := prefix_of_rfind hj
      exact ⟨Nat.succ_le_succ hle, hpre⟩
    · split_ifs at h with hpre
      cases h
      exact ⟨Nat.zero_le _, List.isPrefixOf_iff_prefix.mp hpre⟩

/-- An occurrence in the second part is the last one of the whole. -/
theorem rfind_append_of_some {needle b : List Char} {i : ℕ} (h : rfind needle b = some i) :
    ∀ a : List Char, rfind needle (a ++ b) = some (a.length + i)
  | [] => by rw [List.nil_append, h, List.length_nil, Nat.zero_add]
  | c :: a => by
    have ih := rfind_append_of_some h a
    simp only [List.cons_append, rfind, ih, List.length_cons]
    congr 1
    omega

/-- Where the second part has no occurrence, the last one of the whole starts in the first part. -/
theorem lt_of_rfind_append {needle b : List Char} (h : rfind needle b = none) :
    ∀ {a : List Char} {i : ℕ}, rfind needle (a ++ b) = some i → i < a.length
  | [], i, hi => by
    rw [List.nil_append, h] at hi
    cases hi
  | c :: a, i, hi => by
    simp only [List.cons_append, rfind] at hi
    split at hi
    · next j hj =>
      cases hi
      exact Nat.succ_lt_succ (lt_of_rfind_append h hj)
    · split_ifs at hi
      cases hi
      exact Nat.succ_pos _

/-- A text that starts with the needle has a last occurrence of it. -/
theorem exists_rfind {needle s : List Char} (hs : s ≠ []) (h : needle <+: s) :
    ∃ i, rfind needle s = some i := by
  obtain ⟨c, s, rfl⟩ := List.exists_cons_of_ne_nil hs
  unfold rfind
  cases rfind needle s with
  | some i => exact ⟨i + 1, rfl⟩
  | none => exact ⟨0, if_pos (List.isPrefixOf_iff_prefix.mpr h)⟩

/-! ## All parts of a split -/

/-- The parts of a text do not have the separator. -/
theorem notMem_of_mem_splitOn {sep : Char} :
    ∀ {s part : List Char}, part ∈ s.splitOn sep → sep ∉ part
  | [], part, h => by
    have hpart : part = [] := by simpa using h
    rw [hpart]
    exact List.not_mem_nil
  | c :: s, part, h => by
    rw [List.splitOn_cons_eq_if_modifyHead] at h
    obtain ⟨first, more, hs⟩ := List.exists_cons_of_ne_nil (List.splitOn_ne_nil sep s)
    have ih : ∀ part ∈ first :: more, sep ∉ part := fun part hpart =>
      notMem_of_mem_splitOn (hs ▸ hpart)
    rw [hs] at h
    split_ifs at h with hc
    · rcases List.mem_cons.mp h with rfl | h
      · exact List.not_mem_nil
      · exact ih part h
    · rw [List.modifyHead_cons] at h
      rcases List.mem_cons.mp h with rfl | h
      · intro hmem
        rcases List.mem_cons.mp hmem with rfl | hmem
        · exact hc (beq_self_eq_true _)
        · exact ih first List.mem_cons_self hmem
      · exact ih part (List.mem_cons_of_mem _ h)

/-- Parts that are trimmed and left out where nothing remains are part of the text, with the
separators between them. -/
theorem intercalate_sublist (sep : Char) : ∀ parts : List (List Char),
    ([sep].intercalate ((parts.map trim).filter (· ≠ []))).Sublist ([sep].intercalate parts)
  | [] => List.Sublist.refl _
  | [part] => by
    rw [List.map_singleton, List.filter_cons, List.filter_nil]
    split
    · rw [List.intercalate_singleton, List.intercalate_singleton]
      exact trim_sublist part
    · exact List.nil_sublist _
  | part :: next :: parts => by
    have ih := intercalate_sublist sep (next :: parts)
    have hcons : ∀ (a : List Char) {rest : List (List Char)}, rest ≠ [] →
        [sep].intercalate (a :: rest) = a ++ sep :: [sep].intercalate rest := by
      intro a rest hrest
      rw [List.intercalate_cons_of_ne_nil hrest, List.append_assoc, List.singleton_append]
    rw [hcons part (List.cons_ne_nil _ _), List.map_cons, List.filter_cons]
    split
    · generalize (List.map trim (next :: parts)).filter (· ≠ []) = rest at ih ⊢
      cases rest with
      | nil =>
        rw [List.intercalate_singleton]
        exact (trim_sublist part).trans (List.sublist_append_left _ _)
      | cons a rest =>
        rw [hcons (trim part) (List.cons_ne_nil _ _)]
        exact (trim_sublist part).append (ih.cons_cons sep)
    · exact ih.trans ((List.sublist_cons_self _ _).trans (List.sublist_append_right _ _))

end Text
