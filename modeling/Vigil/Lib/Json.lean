import Vigil.Lib.Utf8

/-!
# JSON strings

The contents of JSON string literals: `escape` writes a text as a serializer does, with escapes for
quotation marks, backslashes, and control characters only, and `unescape` reads contents back
(`unescape_escape`). Characters outside of ASCII stand for themselves, so a text whose literal is
stretched (`Utf8.Stretched`) is stretched by as much (`exists_of_stretched_escape`).
-/

namespace Json

open Utf8 (Stretched replacement)

/-- A hexadecimal digit. -/
def hexDigit (n : ℕ) : Char := Char.ofNat (if n < 10 then 0x30 + n else 0x57 + n)

/-- The value of a hexadecimal digit. -/
def hexValue (c : Char) : Option ℕ :=
  if 0x30 ≤ c.toNat ∧ c.toNat ≤ 0x39 then some (c.toNat - 0x30)
  else if 0x61 ≤ c.toNat ∧ c.toNat ≤ 0x66 then some (c.toNat - 0x57)
  else if 0x41 ≤ c.toNat ∧ c.toNat ≤ 0x46 then some (c.toNat - 0x37)
  else none

/-- A character in a literal. -/
def escapeChar (c : Char) : List Char :=
  if c = '"' then ['\\', '"']
  else if c = '\\' then ['\\', '\\']
  else if c = '\n' then ['\\', 'n']
  else if c = '\r' then ['\\', 'r']
  else if c = '\t' then ['\\', 't']
  else if c.toNat = 0x08 then ['\\', 'b']
  else if c.toNat = 0x0C then ['\\', 'f']
  else if c.toNat < 0x20 then
    ['\\', 'u', '0', '0', hexDigit (c.toNat / 16), hexDigit (c.toNat % 16)]
  else [c]

/-- A text in a literal. -/
def escape (s : List Char) : List Char := s.flatMap escapeChar

/-- The character of four hexadecimal digits, unless it is half of a surrogate pair. -/
def hexChar (d₁ d₂ d₃ d₄ : Char) : Option Char := do
  let n₁ ← hexValue d₁
  let n₂ ← hexValue d₂
  let n₃ ← hexValue d₃
  let n₄ ← hexValue d₄
  let n := ((n₁ * 16 + n₂) * 16 + n₃) * 16 + n₄
  if 0xD800 ≤ n ∧ n ≤ 0xDFFF then none else some (Char.ofNat n)

/-- The text of a literal. Surrogate pairs are left out. -/
def unescape : List Char → Option (List Char)
  | [] => some []
  | '\\' :: 'u' :: d₁ :: d₂ :: d₃ :: d₄ :: rest => do
    let c ← hexChar d₁ d₂ d₃ d₄
    let s ← unescape rest
    return c :: s
  | '\\' :: c :: rest => do
    let c ← match c with
      | '"' => some '"'
      | '\\' => some '\\'
      | '/' => some '/'
      | 'b' => some (Char.ofNat 0x08)
      | 'f' => some (Char.ofNat 0x0C)
      | 'n' => some '\n'
      | 'r' => some '\r'
      | 't' => some '\t'
      | _ => none
    let s ← unescape rest
    return c :: s
  | ['\\'] => none
  | c :: rest =>
    if c = '"' ∨ c.toNat < 0x20 then none
    else do
      let s ← unescape rest
      return c :: s

/-- The contents of a literal whose opening quotation mark has been read, and what follows it. -/
def takeLiteral : List Char → Option (List Char × List Char)
  | [] => none
  | '"' :: rest => some ([], rest)
  | '\\' :: c :: rest => (takeLiteral rest).map fun p => ('\\' :: c :: p.1, p.2)
  | c :: rest => (takeLiteral rest).map fun p => (c :: p.1, p.2)

/-- A character with the number of an ASCII one is that one. -/
theorem eq_ofNat {c : Char} {n : ℕ} (h : c.toNat = n) : c = Char.ofNat n := by
  rw [← h, Char.ofNat_toNat]

/-- The digits of a control character are its own. -/
theorem hexChar_hexDigit {n : ℕ} (h : n < 0x20) :
    hexChar '0' '0' (hexDigit (n / 16)) (hexDigit (n % 16)) = some (Char.ofNat n) := by
  revert n
  decide

/-- The digits of a control character are printable. -/
theorem le_toNat_hexDigit {n : ℕ} (h : n < 0x20) :
    0x20 ≤ (hexDigit (n / 16)).toNat ∧ 0x20 ≤ (hexDigit (n % 16)).toNat := by
  revert n
  decide

/-- How a character is written: as two characters that are read back, with the digits of a control
character, or as itself. -/
theorem escapeChar_cases (c : Char) :
    (∃ d, escapeChar c = ['\\', d] ∧ 0x20 ≤ d.toNat ∧ d.toNat < 0x80 ∧
      ∀ rest, unescape ('\\' :: d :: rest) = (unescape rest).bind fun s => some (c :: s)) ∨
    (escapeChar c = ['\\', 'u', '0', '0', hexDigit (c.toNat / 16), hexDigit (c.toNat % 16)] ∧
      c.toNat < 0x20) ∨
    (escapeChar c = [c] ∧ c ≠ '"' ∧ c ≠ '\\' ∧ 0x20 ≤ c.toNat) := by
  unfold escapeChar
  by_cases h1 : c = '"'
  · subst h1
    exact .inl ⟨'"', rfl, by decide, by decide, fun rest => rfl⟩
  by_cases h2 : c = '\\'
  · subst h2
    exact .inl ⟨'\\', rfl, by decide, by decide, fun rest => rfl⟩
  by_cases h3 : c = '\n'
  · subst h3
    exact .inl ⟨'n', rfl, by decide, by decide, fun rest => rfl⟩
  by_cases h4 : c = '\r'
  · subst h4
    exact .inl ⟨'r', rfl, by decide, by decide, fun rest => rfl⟩
  by_cases h5 : c = '\t'
  · subst h5
    exact .inl ⟨'t', rfl, by decide, by decide, fun rest => rfl⟩
  by_cases h6 : c.toNat = 0x08
  · obtain rfl := eq_ofNat h6
    exact .inl ⟨'b', rfl, by decide, by decide, fun rest => rfl⟩
  by_cases h7 : c.toNat = 0x0C
  · obtain rfl := eq_ofNat h7
    exact .inl ⟨'f', rfl, by decide, by decide, fun rest => rfl⟩
  rw [if_neg h1, if_neg h2, if_neg h3, if_neg h4, if_neg h5, if_neg h6, if_neg h7]
  by_cases h8 : c.toNat < 0x20
  · exact .inr (.inl ⟨if_pos h8, h8⟩)
  · exact .inr (.inr ⟨if_neg h8, h1, h2, Nat.le_of_not_lt h8⟩)

/-- Every character of a literal is printable. -/
theorem le_toNat_of_mem_escapeChar {c d : Char} (hd : d ∈ escapeChar c) : 0x20 ≤ d.toNat := by
  obtain ⟨e, heq, hle, -⟩ | ⟨heq, hlt⟩ | ⟨heq, -, -, hle⟩ := escapeChar_cases c <;> rw [heq] at hd
  · simp only [List.mem_cons, List.not_mem_nil, or_false] at hd
    obtain rfl | rfl := hd
    · decide
    · exact hle
  · obtain ⟨hhi, hlo⟩ := le_toNat_hexDigit hlt
    simp only [List.mem_cons, List.not_mem_nil, or_false] at hd
    rcases hd with rfl | rfl | rfl | rfl | rfl | rfl
    iterate 4 decide
    · exact hhi
    · exact hlo
  · obtain rfl := List.mem_singleton.mp hd
    exact hle

/-- A character of a literal is read back. -/
theorem unescape_escapeChar_append (c : Char) (rest : List Char) :
    unescape (escapeChar c ++ rest) = (unescape rest).map (c :: ·) := by
  rw [Option.map_eq_bind]
  obtain ⟨d, heq, -, -, hread⟩ | ⟨heq, hlt⟩ | ⟨heq, hquote, hback, hle⟩ := escapeChar_cases c <;>
    rw [heq]
  · exact hread rest
  · rw [List.cons_append, List.cons_append, List.cons_append, List.cons_append, List.cons_append,
      List.cons_append, List.nil_append, unescape, hexChar_hexDigit hlt, Char.ofNat_toNat]
    rfl
  · rw [List.singleton_append, unescape, if_neg]
    · rfl
    · rintro (hc | hc)
      · exact hquote hc
      · omega
    · rintro _ _ _ _ _ rfl
      exact absurd rfl hback
    · rintro _ _ rfl
      exact absurd rfl hback
    · rintro rfl
      exact absurd rfl hback

/-- A literal is read back. -/
@[simp] theorem unescape_escape (s : List Char) : unescape (escape s) = some s := by
  induction s with
  | nil => rfl
  | cons c s ih =>
    rw [escape, List.flatMap_cons, unescape_escapeChar_append, ← escape, ih]
    rfl

/-- A character that is neither a quotation mark nor a backslash is part of the contents. -/
theorem takeLiteral_cons {c : Char} (h : c ≠ '"' ∧ c ≠ '\\') (rest : List Char) :
    takeLiteral (c :: rest) = (takeLiteral rest).map fun p => (c :: p.1, p.2) := by
  rw [takeLiteral]
  · exact h.1
  · exact fun _ _ hc => absurd hc h.2

/-- Contents without quotation marks and backslashes are read up to the closing mark. -/
theorem takeLiteral_append {s : List Char} (h : ∀ c ∈ s, c ≠ '"' ∧ c ≠ '\\') (rest : List Char) :
    takeLiteral (s ++ '"' :: rest) = some (s, rest) := by
  induction s with
  | nil => rfl
  | cons c s ih =>
    rw [List.cons_append, takeLiteral_cons (h c List.mem_cons_self),
      ih fun d hd => h d (List.mem_cons_of_mem _ hd)]
    rfl

/-- The digits of a control character are neither quotation marks nor backslashes. -/
theorem hexDigit_plain {n : ℕ} (h : n < 0x20) :
    (hexDigit (n / 16) ≠ '"' ∧ hexDigit (n / 16) ≠ '\\') ∧
      hexDigit (n % 16) ≠ '"' ∧ hexDigit (n % 16) ≠ '\\' := by
  revert n
  decide

/-- A character of a literal does not close it. -/
theorem takeLiteral_escapeChar_append (c : Char) (rest : List Char) :
    takeLiteral (escapeChar c ++ rest) =
      (takeLiteral rest).map fun p => (escapeChar c ++ p.1, p.2) := by
  obtain ⟨d, heq, -⟩ | ⟨heq, hlt⟩ | ⟨heq, hquote, hback, -⟩ := escapeChar_cases c <;> rw [heq]
  · rfl
  · obtain ⟨hhi, hlo⟩ := hexDigit_plain hlt
    simp only [List.cons_append, List.nil_append, takeLiteral, takeLiteral_cons hhi,
      takeLiteral_cons hlo, takeLiteral_cons (show '0' ≠ '"' ∧ '0' ≠ '\\' by decide),
      Option.map_map]
    rfl
  · rw [List.singleton_append, takeLiteral_cons ⟨hquote, hback⟩]
    rfl

/-- The literal of a text is read up to its closing mark. -/
theorem takeLiteral_escape_append (s rest : List Char) :
    takeLiteral (escape s ++ '"' :: rest) = some (escape s, rest) := by
  induction s with
  | nil => rfl
  | cons c s ih =>
    rw [escape, List.flatMap_cons, List.append_assoc, takeLiteral_escapeChar_append, ← escape, ih]
    rfl

/-- A character outside of ASCII stands for itself. -/
theorem escapeChar_of_not_ascii {c : Char} (hc : 0x80 ≤ c.toNat) : escapeChar c = [c] := by
  have hne : ∀ d : Char, d.toNat < 0x80 → c ≠ d := fun d hd h => by
    subst h
    omega
  unfold escapeChar
  rw [if_neg (hne _ (by decide)), if_neg (hne _ (by decide)), if_neg (hne _ (by decide)),
    if_neg (hne _ (by decide)), if_neg (hne _ (by decide)), if_neg (by omega), if_neg (by omega),
    if_neg (by omega)]

/-- The digits of a control character are in ASCII. -/
theorem toNat_hexDigit_lt {n : ℕ} (h : n < 0x20) :
    (hexDigit (n / 16)).toNat < 0x80 ∧ (hexDigit (n % 16)).toNat < 0x80 := by
  revert n
  decide

/-- An ASCII character is written in ASCII. -/
theorem toNat_lt_of_mem_escapeChar {c d : Char} (hc : c.toNat < 0x80) (hd : d ∈ escapeChar c) :
    d.toNat < 0x80 := by
  obtain ⟨e, heq, -, hlt, -⟩ | ⟨heq, hlt⟩ | ⟨heq, -⟩ := escapeChar_cases c <;> rw [heq] at hd
  · simp only [List.mem_cons, List.not_mem_nil, or_false] at hd
    obtain rfl | rfl := hd
    · decide
    · exact hlt
  · obtain ⟨hhi, hlo⟩ := toNat_hexDigit_lt hlt
    simp only [List.mem_cons, List.not_mem_nil, or_false] at hd
    rcases hd with rfl | rfl | rfl | rfl | rfl | rfl
    iterate 4 decide
    · exact hhi
    · exact hlo
  · obtain rfl := List.mem_singleton.mp hd
    exact hc

/-- Replacement characters are not escaped. -/
theorem escape_replicate (k : ℕ) :
    escape (List.replicate k replacement) = List.replicate k replacement := by
  induction k with
  | zero => rfl
  | succ k ih =>
    rw [List.replicate_succ, escape, List.flatMap_cons, ← escape, ih,
      escapeChar_of_not_ascii (by decide)]
    rfl

/-- Two texts are escaped one after the other. -/
theorem escape_append (as bs : List Char) : escape (as ++ bs) = escape as ++ escape bs :=
  List.flatMap_append

/-- A literal that is stretched is the one of a text that is stretched by as much. -/
theorem exists_of_stretched_escape {n : ℕ} {s ts : List Char} (h : Stretched n (escape s) ts) :
    ∃ s', ts = escape s' ∧ Stretched n s s' := by
  induction s generalizing n ts with
  | nil =>
    obtain ⟨rfl, rfl⟩ := h.of_ascii (List.forall_mem_nil _)
    exact ⟨[], rfl, .nil⟩
  | cons c s ih =>
    rw [escape, List.flatMap_cons, ← escape] at h
    by_cases hc : c.toNat < 0x80
    · obtain ⟨n₁, n₂, ts₁, ts₂, h₁, h₂, rfl, rfl⟩ := h.of_append
      obtain ⟨rfl, rfl⟩ := h₁.of_ascii fun d hd => toNat_lt_of_mem_escapeChar hc hd
      obtain ⟨s', rfl, hs⟩ := ih h₂
      rw [Nat.zero_add]
      exact ⟨c :: s', by rw [escape, escape, List.flatMap_cons], hs.keep c⟩
    · rw [escapeChar_of_not_ascii (by omega), List.singleton_append] at h
      cases h with
      | keep _ h =>
        obtain ⟨s', rfl, hs⟩ := ih h
        refine ⟨c :: s', ?_, hs.keep c⟩
        rw [escape, escape, List.flatMap_cons, escapeChar_of_not_ascii (by omega)]
        rfl
      | cut hc' k h =>
        obtain ⟨s', rfl, hs⟩ := ih h
        exact ⟨_, by rw [escape_append, escape_replicate], hs.cut hc' k⟩

end Json
