import Vigil.Lib.Json
import Vigil.Lib.Text

/-!
# Form-encoded queries

The query of a URL in the syntax `application/x-www-form-urlencoded`: pieces that are joined by `&`,
each a name and a value around its first `=`. In a name and in a value `+` stands for a blank, and
`%` with two hexadecimal digits for a byte of UTF-8.

A `Decoder` is a function that reads this syntax, with what may be relied on: a text without `+` and
without escapes stands for itself (`Literal`), any other text stands for another one, and none for a
longer one. `standard` is the decoder that replaces what does not decode to UTF-8.
-/

namespace FormUrlEncoded

open Json (hexValue)
open Utf8 (encode lossy)

/-! ## The syntax -/

/-- The query of a URL: the part from its first `?` up to the `#` of its fragment. -/
def query (url : List Char) : Option (List Char) :=
  (Text.splitOnce '?' (url.takeWhile (· ≠ '#'))).map Prod.snd

/-- The pieces of a query. Empty ones are left out. -/
def pieces (s : List Char) : List (List Char) := (s.splitOn '&').filter (· ≠ [])

/-- The name and the value in a piece, which is all name if it has no `=`. -/
def cut (piece : List Char) : List Char × List Char :=
  (Text.splitOnce '=' piece).getD (piece, [])

/-- The byte of the escape that a text begins with. -/
def escape? : List Char → Option UInt8
  | '%' :: h :: l :: _ => do
    let hi ← hexValue h
    let lo ← hexValue l
    return UInt8.ofNat (hi * 16 + lo)
  | _ => none

/-- There is an escape in a text. -/
def hasEscape : List Char → Bool
  | [] => false
  | c :: s => (escape? (c :: s)).isSome || hasEscape s

/-- A text that stands for itself. -/
def Literal (s : List Char) : Prop := '+' ∉ s ∧ hasEscape s = false

instance (s : List Char) : Decidable (Literal s) := inferInstanceAs (Decidable (_ ∧ _))

/-- A function that reads the syntax. -/
structure Decoder where
  /-- The text that a name or a value stands for. -/
  decode : List Char → List Char
  /-- The names and values of a query. -/
  parse : List Char → List (List Char × List Char)
  parse_eq : ∀ s, parse s = (pieces s).map fun p => (decode (cut p).1, decode (cut p).2)
  decode_of_literal : ∀ s, Literal s → decode s = s
  decode_ne : ∀ s, ¬ Literal s → decode s ≠ s
  length_decode_le : ∀ s, (decode s).length ≤ s.length

/-! ## Pieces and pairs -/

/-- A text before an `&` is the first piece, and what follows has the others. -/
theorem pieces_append {p : List Char} (hne : p ≠ []) (hp : '&' ∉ p) (s : List Char) :
    pieces (p ++ '&' :: s) = p :: pieces s := by
  rw [pieces, List.splitOn_append_cons_self_of_not_mem hp,
    List.filter_cons_of_pos (by simpa using hne), pieces]

/-- A text without an `&` is one piece. -/
theorem pieces_single {p : List Char} (hne : p ≠ []) (hp : '&' ∉ p) : pieces p = [p] := by
  rw [pieces, List.splitOn_eq_singleton hp, List.filter_cons_of_pos (by simpa using hne),
    List.filter_nil]

/-- The first piece is what stands before the first `&`, if it is not empty. -/
theorem exists_pieces {s : List Char} (hne : s.takeWhile (· ≠ '&') ≠ []) :
    ∃ more, pieces s = s.takeWhile (· ≠ '&') :: more := by
  by_cases h : '&' ∈ s
  · obtain ⟨hs, hp⟩ := Text.splitOnce_eq_some_iff.mp (if_pos h : Text.splitOnce '&' s = some _)
    refine ⟨pieces (s.dropWhile (· ≠ '&')).tail, ?_⟩
    conv_lhs => rw [hs]
    exact pieces_append hne hp _
  · have hs : s.takeWhile (· ≠ '&') = s := List.takeWhile_eq_self_iff.mpr fun c hc =>
      decide_eq_true fun heq => h (heq ▸ hc)
    rw [hs] at hne ⊢
    exact ⟨[], pieces_single hne h⟩

/-- The parts around an `=` that the name does not have. -/
theorem cut_append {name : List Char} (h : '=' ∉ name) (value : List Char) :
    cut (name ++ '=' :: value) = (name, value) := by
  rw [cut, Text.splitOnce_eq_some_iff.mpr ⟨rfl, h⟩, Option.getD_some]

/-! ## Literal texts -/

/-- A text without a percent sign has no escape. -/
theorem hasEscape_of_notMem {s : List Char} (h : '%' ∉ s) : hasEscape s = false := by
  induction s with
  | nil => rfl
  | cons c s ih =>
    have hc : c ≠ '%' := fun heq => h (heq ▸ List.mem_cons_self)
    rw [hasEscape, ih fun hs => h (List.mem_cons_of_mem _ hs), Bool.or_false]
    unfold escape?
    split
    · next heq => exact absurd (List.cons.inj heq).1 hc
    · rfl

/-- No escape goes across a character that is neither a percent sign nor a digit. -/
theorem hasEscape_append_cons {c : Char} (hc : c ≠ '%') (hdigit : hexValue c = none)
    (s t : List Char) : hasEscape (s ++ c :: t) = (hasEscape s || hasEscape t) := by
  have hhead : ∀ t, escape? (c :: t) = none := by
    intro t
    unfold escape?
    split
    · next heq => exact absurd (List.cons.inj heq).1 hc
    · rfl
  induction s with
  | nil =>
    change ((escape? (c :: t)).isSome || hasEscape t) = hasEscape t
    rw [hhead t]
    rfl
  | cons d s ih =>
    have hsame : escape? (d :: (s ++ c :: t)) = escape? (d :: s) := by
      by_cases hd : d = '%'
      · subst hd
        match s with
        | [] =>
          match t with
          | [] => rfl
          | e :: t => simp only [List.nil_append, escape?, hdigit, Option.bind_eq_bind,
              Option.bind_none]
        | [e] =>
          simp only [List.cons_append, List.nil_append, escape?, hdigit, Option.bind_eq_bind,
            Option.bind_none, Option.bind_fun_none]
        | e :: f :: s => rfl
      · unfold escape?
        split
        · next heq => exact absurd (List.cons.inj heq).1 hd
        · split
          · next heq => exact absurd (List.cons.inj heq).1 hd
          · rfl
    rw [List.cons_append, hasEscape, hsame, ih, hasEscape, Bool.or_assoc]

/-- A text without a plus sign and a percent sign stands for itself. -/
theorem literal_of_notMem {s : List Char} (hplus : '+' ∉ s) (hpercent : '%' ∉ s) : Literal s :=
  ⟨hplus, hasEscape_of_notMem hpercent⟩

/-! ## Queries that are written -/

/-- The query of a URL that is written with one. -/
theorem query_append {base : List Char} (hquestion : '?' ∉ base) (hhash : '#' ∉ base)
    (s : List Char) : query (base ++ '?' :: s) = some (s.takeWhile (· ≠ '#')) := by
  have hbase : ∀ c ∈ base, decide (c ≠ '#') = true := fun c hc =>
    decide_eq_true fun heq => hhash (heq ▸ hc)
  rw [query, List.takeWhile_append_of_pos hbase, List.takeWhile_cons_of_pos (by decide),
    Text.splitOnce_eq_some_iff.mpr ⟨rfl, hquestion⟩, Option.map_some]

/-- The query of a URL without a fragment is all that follows the first `?`. -/
theorem query_append_of_notMem {base : List Char} (hquestion : '?' ∉ base) (hhash : '#' ∉ base)
    {s : List Char} (hs : '#' ∉ s) : query (base ++ '?' :: s) = some s := by
  rw [query_append hquestion hhash]
  refine congrArg some (List.takeWhile_eq_self_iff.mpr fun c hc => decide_eq_true ?_)
  rintro rfl
  exact hs hc

/-- A URL without a question mark has no query. -/
theorem query_of_notMem {url : List Char} (h : '?' ∉ url) : query url = none := by
  have hmem : '?' ∉ url.takeWhile (· ≠ '#') := fun hc => h ((List.takeWhile_sublist _).subset hc)
  rw [query, Text.splitOnce, if_neg hmem, Option.map_none]

/-- A name in which nothing is syntax. -/
structure IsName (name : List Char) : Prop where
  ampersand : '&' ∉ name
  hash : '#' ∉ name
  equals : '=' ∉ name
  literal : Literal name

/-- Neither a `#` nor an `&`. -/
def isPlain (c : Char) : Bool := c ≠ '#' && c ≠ '&'

/-- The part up to the first `#`, up to the first `&`, is the part up to the first of either. -/
theorem takeWhile_takeWhile_isPlain (s : List Char) :
    (s.takeWhile (· ≠ '#')).takeWhile (· ≠ '&') = s.takeWhile isPlain := by
  rw [List.takeWhile_takeWhile]
  congr 1
  funext c
  simp [isPlain, and_comm]

namespace Decoder

variable (D : Decoder) {name value : List Char}

/-- A pair before an `&` is the first one, and what follows has the others. -/
theorem parse_append (hname : IsName name) (hvalue : '&' ∉ value) (s : List Char) :
    D.parse (name ++ '=' :: value ++ '&' :: s) = (name, D.decode value) :: D.parse s := by
  have hmem : '&' ∉ name ++ '=' :: value := by simp [hname.ampersand, hvalue]
  rw [D.parse_eq, pieces_append (by simp) hmem, List.map_cons, cut_append hname.equals,
    D.decode_of_literal name hname.literal, D.parse_eq]

/-- A pair without an `&` after it is the only one. -/
theorem parse_single (hname : IsName name) (hvalue : '&' ∉ value) :
    D.parse (name ++ '=' :: value) = [(name, D.decode value)] := by
  have hmem : '&' ∉ name ++ '=' :: value := by simp [hname.ampersand, hvalue]
  rw [D.parse_eq, pieces_single (by simp) hmem, List.map_singleton, cut_append hname.equals,
    D.decode_of_literal name hname.literal]

/-- An empty query has no pairs. -/
theorem parse_nil : D.parse [] = [] := by
  rw [D.parse_eq]
  rfl

/-- Whatever is in a value, the first pair that is read has the name, and the part of the value up
to its first `#` or `&`. -/
theorem exists_parse (hname : IsName name) (value : List Char) {tail : List Char}
    (htail : tail = [] ∨ ∃ s, tail = '&' :: s) :
    ∃ more, D.parse ((name ++ '=' :: value ++ tail).takeWhile (· ≠ '#')) =
      (name, D.decode (value.takeWhile isPlain)) :: more := by
  have hplain : ∀ c ∈ name, isPlain c = true := by
    intro c hc
    simp only [isPlain, Bool.and_eq_true, decide_eq_true_eq]
    exact ⟨fun heq => hname.hash (heq ▸ hc), fun heq => hname.ampersand (heq ▸ hc)⟩
  have hcut : tail.takeWhile isPlain = [] := by
    rcases htail with rfl | ⟨s, rfl⟩
    · rfl
    · exact List.takeWhile_cons_of_neg (by decide)
  have hvalue : (value ++ tail).takeWhile isPlain = value.takeWhile isPlain := by
    rw [List.takeWhile_append]
    split_ifs with hlen
    · rw [hcut, List.append_nil, (List.takeWhile_prefix isPlain).eq_of_length hlen]
    · rfl
  have hfirst : ((name ++ '=' :: value ++ tail).takeWhile (· ≠ '#')).takeWhile (· ≠ '&') =
      name ++ '=' :: value.takeWhile isPlain := by
    rw [takeWhile_takeWhile_isPlain, List.append_assoc, List.cons_append,
      List.takeWhile_append_of_pos hplain, List.takeWhile_cons_of_pos (by decide), hvalue]
  obtain ⟨more, hmore⟩ := exists_pieces (by rw [hfirst]; simp)
  rw [D.parse_eq, hmore, hfirst, List.map_cons, cut_append hname.equals,
    D.decode_of_literal name hname.literal]
  exact ⟨_, rfl⟩

end Decoder

/-! ## The standard decoder -/

/-- The bytes that a text stands for, after the characters that are left of an escape. -/
def unescapeFrom : (left : ℕ) → List Char → List UInt8
  | _, [] => []
  | left + 1, _ :: s => unescapeFrom left s
  | 0, c :: s =>
    match escape? (c :: s) with
    | some b => b :: unescapeFrom 2 s
    | none => encode [if c = '+' then ' ' else c] ++ unescapeFrom 0 s

/-- The bytes that a text stands for. -/
def unescape (s : List Char) : List UInt8 := unescapeFrom 0 s

/-- A text is nothing, or begins with an escape, or with another character. -/
inductive Unescaped : List Char → List UInt8 → Prop
  | nil : Unescaped [] []
  | escape {d e : Char} {rest : List Char} {b : UInt8}
    (h : escape? ('%' :: d :: e :: rest) = some b) :
    Unescaped ('%' :: d :: e :: rest) (b :: unescape rest)
  | char {c : Char} {s : List Char} (h : escape? (c :: s) = none) :
    Unescaped (c :: s) (encode [if c = '+' then ' ' else c] ++ unescape s)

/-- The bytes that a text stands for, by what it begins with. -/
theorem unescaped (s : List Char) : Unescaped s (unescape s) := by
  cases s with
  | nil => exact .nil
  | cons c s =>
    rw [unescape, unescapeFrom]
    cases h : escape? (c :: s) with
    | none => exact .char h
    | some b =>
      have hshape : ∃ d e rest, c = '%' ∧ s = d :: e :: rest := by
        unfold escape? at h
        split at h
        · next d e rest heq => exact ⟨d, e, rest, List.cons.inj heq⟩
        · cases h
      obtain ⟨d, e, rest, rfl, rfl⟩ := hshape
      exact .escape h

/-- The text that the standard decoder gives. -/
def standardDecode (s : List Char) : List Char := lossy (unescape s)

/-- The first byte of a character is no later one. -/
theorem exists_encode_singleton (c : Char) :
    ∃ b bs, encode [c] = b :: bs ∧ Utf8.isTail b = false := by
  obtain ⟨b, bs, oks, henc, hfollow, -⟩ := Utf8.exists_follow c
  refine ⟨b, bs, (List.flatMap_singleton _ _).trans henc, ?_⟩
  by_contra htail
  rw [Utf8.follow_of_isTail (by simpa using htail)] at hfollow
  cases hfollow

/-- What is decoded after other bytes is not longer than the text and these bytes, and shorter if
there is an escape. -/
theorem length_lossy_append_unescape (p : List UInt8) (s : List Char) :
    (lossy (p ++ unescape s)).length + (if hasEscape s then 1 else 0) ≤ p.length + s.length := by
  induction hn : s.length using Nat.strongRecOn generalizing p s with
  | ind n ih =>
    have hu := unescaped s
    generalize unescape s = bytes at hu
    subst hn
    cases hu with
    | nil =>
      have hle := Utf8.length_lossy_le p
      simpa [hasEscape] using hle
    | @escape d e rest b h =>
      -- The byte joins those before it, and two characters are gained.
      have hrec := ih rest.length (by simp only [List.length_cons]; omega) (p ++ [b]) rest rfl
      rw [List.append_assoc, List.singleton_append, List.length_append] at hrec
      simp only [List.length_cons, List.length_nil] at hrec ⊢
      split_ifs at hrec ⊢ <;> omega
    | @char c s h =>
      -- A character that stands for itself is decoded apart from what is before it.
      obtain ⟨b, bs, henc, hb⟩ := exists_encode_singleton (if c = '+' then ' ' else c)
      have hrec := ih s.length (by simp only [List.length_cons]; omega) [] s rfl
      rw [List.nil_append, List.length_nil] at hrec
      have hp := Utf8.length_lossy_le p
      have hesc : hasEscape (c :: s) = hasEscape s := by rw [hasEscape, h]; rfl
      rw [hesc, henc, List.cons_append, Utf8.lossy_append_of_not_tail hb, ← List.cons_append,
        ← henc, Utf8.lossy_encode_append, List.length_append, List.length_append,
        List.length_singleton, List.length_cons]
      omega

/-- A text without an escape has its plus signs replaced. -/
theorem unescape_of_hasEscape {s : List Char} (h : hasEscape s = false) :
    unescape s = encode (s.map fun c => if c = '+' then ' ' else c) := by
  induction s with
  | nil => rfl
  | cons c s ih =>
    rw [hasEscape, Bool.or_eq_false_iff] at h
    have hu := unescaped (c :: s)
    generalize unescape (c :: s) = bytes at hu
    cases hu with
    | escape hescape =>
      rw [hescape] at h
      cases h.1
    | char => rw [ih h.2, ← Utf8.encode_append, List.map_cons, List.singleton_append]

/-- A literal text is decoded to itself. -/
theorem standardDecode_of_literal {s : List Char} (h : Literal s) : standardDecode s = s := by
  have hmap : (s.map fun c => if c = '+' then ' ' else c) = s.map id := by
    refine List.map_congr_left fun c hc => if_neg ?_
    rintro rfl
    exact h.1 hc
  rw [standardDecode, unescape_of_hasEscape h.2, hmap, List.map_id, Utf8.lossy_encode]

/-- No text stands for a longer one. -/
theorem length_standardDecode_le (s : List Char) : (standardDecode s).length ≤ s.length := by
  have hle := length_lossy_append_unescape [] s
  rw [List.nil_append, List.length_nil] at hle
  exact (Nat.le_add_right _ _).trans (hle.trans (by omega))

/-- Any other text stands for another one. -/
theorem standardDecode_ne {s : List Char} (h : ¬ Literal s) : standardDecode s ≠ s := by
  intro heq
  cases hesc : hasEscape s with
  | true =>
    have hlt := length_lossy_append_unescape [] s
    rw [List.nil_append, if_pos hesc, ← standardDecode, heq, List.length_nil] at hlt
    omega
  | false =>
    -- Without an escape it is a plus sign that is replaced.
    have hplus : '+' ∈ s := by_contra fun hplus => h ⟨hplus, hesc⟩
    rw [standardDecode, unescape_of_hasEscape hesc, Utf8.lossy_encode] at heq
    rw [← heq] at hplus
    obtain ⟨c, -, hc⟩ := List.mem_map.mp hplus
    split_ifs at hc with hc'
    · exact absurd hc (by decide)
    · exact hc' hc

/-- The decoder that replaces what does not decode to UTF-8. -/
def standard : Decoder where
  decode := standardDecode
  parse s := (pieces s).map fun p => (standardDecode (cut p).1, standardDecode (cut p).2)
  parse_eq _ := rfl
  decode_of_literal _ := standardDecode_of_literal
  decode_ne _ := standardDecode_ne
  length_decode_le := length_standardDecode_le

end FormUrlEncoded
