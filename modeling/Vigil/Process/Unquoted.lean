import Vigil.Lib.Utf8
import Vigil.Process.Parse

/-!
# The scanner of bytes

`process_util/parse.rs`: `find_unquoted` goes through the bytes of a command, `shell_words` through
its characters. A byte of a character outside of ASCII is neither a quote nor a backslash for the
one, and the character is neither for the other, so that the flags are the same at each character.

`findUnquotedBytes_eq` says that `find_unquoted` finds on bytes what it finds on characters, at the
byte where the character begins. `findUnquotedLoop_cons` and the lemmas after it say what that is:
the first place where `shell_words` is outside quotes and not after a backslash.
-/

namespace Vigil.Process

open Text Scanner Utf8

variable {needle : List Char}

/-! ## The function of the source -/

/-- `sb[i] as char`: the character with the number of the byte. -/
def byteChar (b : UInt8) : Char := Char.ofNat b.toNat

/-- The loop of `find_unquoted` at the byte `i`, with the rest of the bytes from there. -/
def findUnquotedBytesLoop (nb : List UInt8) : Quoting → ℕ → List UInt8 → Option ℕ
  | _, _, [] => none
  | q, i, b :: sb =>
    let c := byteChar b
    if q.escaped then findUnquotedBytesLoop nb { q with escaped := false } (i + 1) sb
    else if c = '\\' ∧ ¬ q.inSingle then
      findUnquotedBytesLoop nb { q with escaped := true } (i + 1) sb
    else if c = '\'' ∧ ¬ q.inDouble then
      findUnquotedBytesLoop nb { q with inSingle := !q.inSingle } (i + 1) sb
    else if c = '"' ∧ ¬ q.inSingle then
      findUnquotedBytesLoop nb { q with inDouble := !q.inDouble } (i + 1) sb
    else if ¬ q.inSingle ∧ ¬ q.inDouble ∧ nb.isPrefixOf (b :: sb) then some i
    else findUnquotedBytesLoop nb q (i + 1) sb

/-- `find_unquoted`, on the bytes of the two texts. -/
def findUnquotedBytes (s needle : List Char) : Option ℕ :=
  findUnquotedBytesLoop (encode needle) unquoted 0 (encode s)

/-! ## Where a needle stands -/

/-- A quote or a backslash. -/
def isMark (c : Char) : Bool := c = '\\' || c = '\'' || c = '"'

/-- The flags of `shell_words` after a text. -/
def shellQuoting (s : List Char) : Quoting := (s.foldl shellWordsStep ⟨[], [], unquoted⟩).quoting

/-- The needle stands in `s` after `base`, and `shell_words` is outside quotes there and not after a
backslash. -/
def StandsAfter (s needle base : List Char) : Prop :=
  base ++ needle <+: s ∧ shellQuoting base = unquoted

/-- `is_char_boundary`: the byte at `i` is the first one of a character, or the bytes end there. -/
def isCharBoundary (bytes : List UInt8) (i : ℕ) : Bool :=
  i = bytes.length || bytes[i]?.any fun b => !isTail b

/-- The flags of `shell_words` are those of the scanner. -/
theorem shellQuoting_eq (s : List Char) : shellQuoting s = shell.after unquoted s :=
  (foldl_shellWordsStep s ⟨[], [], unquoted⟩).1

/-- The needle stands after `base`, for a scanner that begins with the flags `q`. -/
def Quoting.Stands (q : Quoting) (s needle base : List Char) : Prop :=
  base ++ needle <+: s ∧ shell.after q base = unquoted

/-- The needle stands for `shell_words` where it does for a scanner that begins outside quotes. -/
theorem standsAfter_iff {s base : List Char} :
    StandsAfter s needle base ↔ unquoted.Stands s needle base := by
  rw [StandsAfter, shellQuoting_eq, Quoting.Stands]

/-- The text before the first place where the needle stands. -/
def textBefore (needle : List Char) : Quoting → List Char → Option (List Char)
  | _, [] => none
  | q, c :: s =>
    if q = unquoted ∧ needle.isPrefixOf (c :: s) then some []
    else (textBefore needle (q.next c) s).map (c :: ·)

/-- The needle stands at the beginning if the scanner is outside quotes and the text begins with
it. -/
theorem Quoting.stands_nil {q : Quoting} {s : List Char} :
    q.Stands s needle [] ↔ q = unquoted ∧ needle.isPrefixOf s := by
  rw [Quoting.Stands, List.nil_append, shell.after_nil, List.isPrefixOf_iff_prefix, and_comm]

/-- The needle stands after a first character. -/
theorem Quoting.stands_cons {q : Quoting} {c d : Char} {s base : List Char} :
    q.Stands (c :: s) needle (d :: base) ↔ d = c ∧ (q.next c).Stands s needle base := by
  rw [Quoting.Stands, List.cons_append, List.cons_prefix_cons, shell.after_cons]
  constructor
  · rintro ⟨⟨rfl, hpre⟩, hq⟩
    exact ⟨rfl, hpre, hq⟩
  · rintro ⟨rfl, hpre, hq⟩
    exact ⟨⟨rfl, hpre⟩, hq⟩

/-- The needle stands after the text that is found, and nowhere before. -/
theorem of_textBefore : ∀ {s : List Char} {q : Quoting} {base : List Char},
    textBefore needle q s = some base →
      q.Stands s needle base ∧ ∀ base', q.Stands s needle base' → base <+: base'
  | [], _, _, h => by cases h
  | c :: s, q, base, h => by
    rw [textBefore] at h
    split_ifs at h with hhit
    · cases h
      exact ⟨Quoting.stands_nil.mpr hhit, fun base' _ => List.nil_prefix⟩
    · obtain ⟨base, hbase, rfl⟩ := Option.map_eq_some_iff.mp h
      obtain ⟨hstands, hfirst⟩ := of_textBefore hbase
      refine ⟨Quoting.stands_cons.mpr ⟨rfl, hstands⟩, ?_⟩
      intro base' h'
      cases base' with
      | nil => exact absurd (Quoting.stands_nil.mp h') hhit
      | cons d base' =>
        obtain ⟨rfl, h'⟩ := Quoting.stands_cons.mp h'
        exact List.cons_prefix_cons.mpr ⟨rfl, hfirst base' h'⟩

/-- If nothing is found, the needle stands nowhere. -/
theorem of_textBefore_eq_none (hne : needle ≠ []) : ∀ {s : List Char} {q : Quoting},
    textBefore needle q s = none → ∀ base, ¬ q.Stands s needle base
  | [], _, _, base, h => by
    have hnil := List.prefix_nil.mp h.1
    exact hne (List.append_eq_nil_iff.mp hnil).2
  | c :: s, q, hnone, base, h => by
    rw [textBefore] at hnone
    split_ifs at hnone with hhit
    rw [Option.map_eq_none_iff] at hnone
    cases base with
    | nil => exact hhit (Quoting.stands_nil.mp h)
    | cons d base => exact of_textBefore_eq_none hne hnone base (Quoting.stands_cons.mp h).2

/-- The text before the first place where the needle stands is found. -/
theorem textBefore_eq_some (hne : needle ≠ []) {s base : List Char} {q : Quoting}
    (hstands : q.Stands s needle base)
    (hfirst : ∀ base', q.Stands s needle base' → base.length ≤ base'.length) :
    textBefore needle q s = some base := by
  cases h : textBefore needle q s with
  | none => exact absurd hstands (of_textBefore_eq_none hne h base)
  | some found =>
    obtain ⟨hfound, hle⟩ := of_textBefore h
    rw [(hle base hstands).eq_of_length_le (hfirst found hfound)]

/-! ## The loop on characters -/

/-- A character that is no mark changes nothing, but that a backslash before it has had its
effect. -/
theorem Quoting.next_of_not_mark {c : Char} (hc : isMark c = false) (q : Quoting) :
    q.next c = { q with escaped := false } := by
  simp only [isMark, Bool.or_eq_false_iff, decide_eq_false_iff_not] at hc
  obtain ⟨inSingle, inDouble, escaped⟩ := q
  cases escaped <;> simp [Quoting.next, hc]

/-- The first character of a needle, if it is no mark. -/
theorem head?_cons_not_mark {d : Char} (hd : isMark d = false) (rest : List Char) :
    ∀ c ∈ (d :: rest).head?, isMark c = false := by
  intro c hc
  rw [← Option.some.inj hc]
  exact hd

/-- A list does not begin with one that has another first element. -/
theorem not_isPrefixOf_cons {α : Type*} [BEq α] [LawfulBEq α] {l : List α} (hne : l ≠ []) {a : α}
    (ha : ∀ d ∈ l.head?, d ≠ a) (s : List α) : l.isPrefixOf (a :: s) = false := by
  obtain ⟨d, rest, rfl⟩ := List.exists_cons_of_ne_nil hne
  rw [List.isPrefixOf_cons_cons, beq_false_of_ne (ha d rfl), Bool.false_and]

/-- Outside quotes the loop of `find_unquoted` looks for the needle, and it goes on otherwise. -/
theorem findUnquotedLoop_cons (hne : needle ≠ []) (hhead : ∀ c ∈ needle.head?, isMark c = false)
    (q : Quoting) (i : ℕ) (c : Char) (s : List Char) :
    findUnquotedLoop needle q i (c :: s) =
      if q = unquoted ∧ needle.isPrefixOf (c :: s) then some i
      else findUnquotedLoop needle (q.next c) (i + 1) s := by
  obtain ⟨inSingle, inDouble, escaped⟩ := q
  cases hc : isMark c with
  | true =>
    have hpre := not_isPrefixOf_cons hne (a := c)
      (fun d hd heq => Bool.false_ne_true ((heq ▸ hhead d hd).symm.trans hc)) s
    simp only [findUnquotedLoop, Quoting.next, hpre]
    split_ifs <;> simp_all
  | false =>
    rw [Quoting.next_of_not_mark hc]
    simp only [isMark, Bool.or_eq_false_iff, decide_eq_false_iff_not] at hc
    cases inSingle <;> cases inDouble <;> cases escaped <;>
      simp [findUnquotedLoop, unquoted, hc]

/-- The loop on characters finds the length of the text before the needle. -/
theorem findUnquotedLoop_eq (hne : needle ≠ []) (hhead : ∀ c ∈ needle.head?, isMark c = false) :
    ∀ (s : List Char) (q : Quoting) (i : ℕ), findUnquotedLoop needle q i s =
      (textBefore needle q s).map fun base => i + base.length
  | [], _, _ => rfl
  | c :: s, q, i => by
    rw [findUnquotedLoop_cons hne hhead, textBefore]
    split_ifs with hhit
    · rfl
    · rw [findUnquotedLoop_eq hne hhead s (q.next c) (i + 1), Option.map_map]
      congr 1
      funext base
      rw [Function.comp_apply, List.length_cons]
      omega

/-! ## The loop on bytes -/

/-- An ASCII character is the character of its byte. -/
theorem byteChar_ofNat {c : Char} (hc : c.toNat < 0x80) : byteChar (UInt8.ofNat c.toNat) = c := by
  rw [byteChar, toNat_ofNat (by omega), Char.ofNat_toNat]

/-- A character outside of ASCII is no mark. -/
theorem isMark_of_le {c : Char} (hc : 0x80 ≤ c.toNat) : isMark c = false := by
  simp only [isMark, Bool.or_eq_false_iff, decide_eq_false_iff_not]
  refine ⟨⟨?_, ?_⟩, ?_⟩ <;> rintro rfl <;> exact absurd hc (by decide)

/-- The numbers from `0x80` on are not those of marks. -/
theorem isMark_ofNat : ∀ n < 256, 0x80 ≤ n → isMark (Char.ofNat n) = false := by decide +kernel

/-- A byte from `0x80` on is no mark. -/
theorem isMark_byteChar {b : UInt8} (hb : 0x80 ≤ b.toNat) : isMark (byteChar b) = false :=
  isMark_ofNat b.toNat b.toNat_lt hb

/-- The loop on bytes does at a byte what the loop on characters does at a character. -/
theorem findUnquotedBytesLoop_cons {nb : List UInt8} (hne : nb ≠ [])
    (hhead : ∀ b ∈ nb.head?, isMark (byteChar b) = false) (q : Quoting) (i : ℕ) (b : UInt8)
    (sb : List UInt8) : findUnquotedBytesLoop nb q i (b :: sb) =
      if q = unquoted ∧ nb.isPrefixOf (b :: sb) then some i
      else findUnquotedBytesLoop nb (q.next (byteChar b)) (i + 1) sb := by
  obtain ⟨inSingle, inDouble, escaped⟩ := q
  cases hb : isMark (byteChar b) with
  | true =>
    have hpre := not_isPrefixOf_cons hne (a := b)
      (fun d hd heq => Bool.false_ne_true ((heq ▸ hhead d hd).symm.trans hb)) sb
    simp only [findUnquotedBytesLoop, Quoting.next, hpre]
    split_ifs <;> simp_all
  | false =>
    rw [Quoting.next_of_not_mark hb]
    simp only [isMark, Bool.or_eq_false_iff, decide_eq_false_iff_not] at hb
    cases inSingle <;> cases inDouble <;> cases escaped <;>
      simp [findUnquotedBytesLoop, unquoted, hb]

/-- A needle in ASCII does not begin with a byte of another character. -/
theorem not_isPrefixOf_of_le {nb : List UInt8} (hne : nb ≠ []) (hascii : ∀ b ∈ nb, b.toNat < 0x80)
    {b : UInt8} (hb : 0x80 ≤ b.toNat) (sb : List UInt8) : nb.isPrefixOf (b :: sb) = false := by
  refine not_isPrefixOf_cons hne (fun d hd heq => ?_) sb
  have hlt := hascii d (List.mem_of_mem_head? hd)
  rw [heq] at hlt
  omega

/-- The bytes of a character after its first one change no flag, and the needle does not begin
there. -/
theorem findUnquotedBytesLoop_tail {nb : List UInt8} (hne : nb ≠ [])
    (hhead : ∀ b ∈ nb.head?, isMark (byteChar b) = false) (hascii : ∀ b ∈ nb, b.toNat < 0x80)
    (sb : List UInt8) {q : Quoting} (hq : q.escaped = false) :
    ∀ {bs : List UInt8}, (∀ b ∈ bs, isTail b = true) → ∀ i,
      findUnquotedBytesLoop nb q i (bs ++ sb) = findUnquotedBytesLoop nb q (i + bs.length) sb
  | [], _, i => rfl
  | b :: bs, htail, i => by
    have hb : 0x80 ≤ b.toNat := by
      have hb' := htail b List.mem_cons_self
      simp only [isTail, Bool.and_eq_true, decide_eq_true_eq] at hb'
      exact hb'.1
    have hpre := not_isPrefixOf_of_le hne hascii hb (bs ++ sb)
    have hnext : q.next (byteChar b) = q := by
      rw [Quoting.next_of_not_mark (isMark_byteChar hb), ← hq]
    rw [List.cons_append, findUnquotedBytesLoop_cons hne hhead, hpre, if_neg (by simp), hnext,
      findUnquotedBytesLoop_tail hne hhead hascii sb hq
        (fun b' hb' => htail b' (List.mem_cons_of_mem _ hb')), List.length_cons]
    congr 1
    omega

/-- The bytes of an ASCII text are below `0x80`. -/
theorem lt_of_mem_encode (hascii : ∀ c ∈ needle, c.toNat < 0x80) :
    ∀ b ∈ encode needle, b.toNat < 0x80 := by
  intro b hb
  obtain ⟨c, hc, hbc⟩ := List.mem_flatMap.mp hb
  rw [utf8EncodeChar_ascii (hascii c hc), List.mem_singleton] at hbc
  rw [hbc, toNat_ofNat (by have := hascii c hc; omega)]
  exact hascii c hc

/-- An ASCII text is at the beginning of another if its bytes are. -/
theorem encode_isPrefixOf (hascii : ∀ c ∈ needle, c.toNat < 0x80) (s : List Char) :
    (encode needle).isPrefixOf (encode s) = needle.isPrefixOf s := by
  rw [Bool.eq_iff_iff, List.isPrefixOf_iff_prefix, List.isPrefixOf_iff_prefix]
  constructor
  · rintro ⟨rest, hrest⟩
    rcases split_encode hrest with ⟨as, bs, rfl, henc, -⟩ |
      ⟨as, c, bs, p, r, rfl, henc, hp, hr, h, -⟩
    · rw [encode_injective henc]
      exact List.prefix_append _ _
    · -- The cut is inside a character, so that the needle would end in a replacement character.
      have hlossy := lossy_encode needle
      rw [h, lossy_encode_append, lossy_of_prefix henc hp hr] at hlossy
      have hmem : replacement ∈ needle := hlossy ▸ List.mem_append_right _ List.mem_cons_self
      exact absurd (hascii _ hmem) (by decide)
  · rintro ⟨rest, rfl⟩
    rw [encode_append]
    exact List.prefix_append _ _

/-- On the bytes of a character the loop does what it does on the character. -/
theorem findUnquotedBytesLoop_encode_cons (hne : needle ≠ [])
    (hhead : ∀ c ∈ needle.head?, isMark c = false) (hascii : ∀ c ∈ needle, c.toNat < 0x80)
    (q : Quoting) (i : ℕ) (c : Char) (s : List Char) :
    findUnquotedBytesLoop (encode needle) q i (encode (c :: s)) =
      if q = unquoted ∧ needle.isPrefixOf (c :: s) then some i
      else findUnquotedBytesLoop (encode needle) (q.next c) (i + (String.utf8EncodeChar c).length)
        (encode s) := by
  have hbytes := lt_of_mem_encode hascii
  have hne' : encode needle ≠ [] := fun h => hne (encode_injective h)
  have hhead' : ∀ b ∈ (encode needle).head?, isMark (byteChar b) = false := by
    obtain ⟨d, rest, rfl⟩ := List.exists_cons_of_ne_nil hne
    have hd := hascii d List.mem_cons_self
    intro b hb
    rw [encode, List.flatMap_cons, utf8EncodeChar_ascii hd, List.singleton_append,
      List.head?_cons, Option.mem_some_iff] at hb
    rw [← hb, byteChar_ofNat hd]
    exact hhead d rfl
  have hpre := encode_isPrefixOf hascii (c :: s)
  have hcons : encode (c :: s) = String.utf8EncodeChar c ++ encode s := List.flatMap_cons
  by_cases hc : c.toNat < 0x80
  · rw [hcons, utf8EncodeChar_ascii hc, List.singleton_append] at hpre ⊢
    rw [findUnquotedBytesLoop_cons hne' hhead', hpre, byteChar_ofNat hc]
    rfl
  · obtain ⟨b, bs, -, henc, -, -, -, htail⟩ := exists_follow c
    have hb : 0x80 ≤ b.toNat := by
      by_contra hlt
      have hsame := (eq_of_mem_utf8EncodeChar (henc ▸ List.mem_cons_self) (not_le.mp hlt)).2
      omega
    -- The first byte has the effect of the character, the others have none.
    have hnext : q.next (byteChar b) = q.next c := by
      rw [Quoting.next_of_not_mark (isMark_byteChar hb),
        Quoting.next_of_not_mark (isMark_of_le (not_lt.mp hc))]
    rw [hcons, henc, List.cons_append] at hpre ⊢
    rw [findUnquotedBytesLoop_cons hne' hhead', hpre, hnext, findUnquotedBytesLoop_tail hne' hhead'
      hbytes (encode s) ?_ htail, List.length_cons, Nat.add_assoc, Nat.add_comm 1]
    rw [← hnext, Quoting.next_of_not_mark (isMark_byteChar hb)]

/-- The loop on bytes finds the number of bytes of the text before the needle. -/
theorem findUnquotedBytesLoop_eq (hne : needle ≠ [])
    (hhead : ∀ c ∈ needle.head?, isMark c = false) (hascii : ∀ c ∈ needle, c.toNat < 0x80) :
    ∀ (s : List Char) (q : Quoting) (i : ℕ),
      findUnquotedBytesLoop (encode needle) q i (encode s) =
        (textBefore needle q s).map fun base => i + (encode base).length
  | [], _, _ => rfl
  | c :: s, q, i => by
    rw [findUnquotedBytesLoop_encode_cons hne hhead hascii, textBefore]
    split_ifs with hhit
    · rfl
    · rw [findUnquotedBytesLoop_eq hne hhead hascii s (q.next c), Option.map_map]
      congr 1
      funext base
      rw [Function.comp_apply, encode, encode, List.flatMap_cons, List.length_append]
      omega

/-- The beginning of a character is a boundary. -/
theorem isCharBoundary_encode (base : List Char) (c : Char) (s : List Char) :
    isCharBoundary (encode (base ++ c :: s)) (encode base).length = true := by
  obtain ⟨b, bs, oks, henc, hfollow, -, -, -⟩ := exists_follow c
  have hcons : encode (c :: s) = b :: (bs ++ encode s) := by
    rw [encode, List.flatMap_cons, henc, List.cons_append]
    rfl
  have hget : (encode (base ++ c :: s))[(encode base).length]? = some b := by
    rw [encode_append, hcons, List.getElem?_append_right le_rfl, Nat.sub_self,
      List.getElem?_cons_zero]
  have htail : isTail b = false := by
    by_contra htail
    rw [follow_of_isTail (by simpa using htail)] at hfollow
    cases hfollow
  rw [isCharBoundary, hget, Option.any_some, htail]
  exact Bool.or_true _

/-! ## What the two scanners agree on -/

/-- `find_unquoted` finds on bytes what it finds on characters, at the byte where the character
begins. -/
theorem findUnquotedBytes_eq (hne : needle ≠ []) (hhead : ∀ c ∈ needle.head?, isMark c = false)
    (hascii : ∀ c ∈ needle, c.toNat < 0x80) (s : List Char) :
    findUnquotedBytes s needle =
      (findUnquoted s needle).map fun n => (encode (s.take n)).length := by
  rw [findUnquotedBytes, findUnquoted, findUnquotedBytesLoop_eq hne hhead hascii,
    findUnquotedLoop_eq hne hhead, Option.map_map]
  cases h : textBefore needle unquoted s with
  | none => rfl
  | some base =>
    obtain ⟨rest, rfl⟩ := (of_textBefore h).1.1
    simp only [Option.map_some, Function.comp_apply, Nat.zero_add, List.append_assoc,
      List.take_left]

/-- `find_unquoted` gives the number of bytes before the first place where the needle stands outside
of what `shell_words` takes as quoted or escaped, which is the boundary of a character, and nothing
if there is no such place. -/
theorem findUnquotedBytes_spec (s needle : List Char) (hne : needle ≠ [])
    (hhead : ∀ c ∈ needle.head?, isMark c = false) (hascii : ∀ c ∈ needle, c.toNat < 0x80) :
    match findUnquotedBytes s needle with
    | some i => isCharBoundary (encode s) i ∧ ∃ base, StandsAfter s needle base ∧
        i = (encode base).length ∧
        ∀ base', StandsAfter s needle base' → i ≤ (encode base').length
    | none => ∀ base, ¬ StandsAfter s needle base := by
  simp only [standsAfter_iff]
  rw [findUnquotedBytes, findUnquotedBytesLoop_eq hne hhead hascii]
  cases h : textBefore needle unquoted s with
  | none => exact of_textBefore_eq_none hne h
  | some base =>
    obtain ⟨hstands, hfirst⟩ := of_textBefore h
    simp only [Option.map_some, Nat.zero_add]
    refine ⟨?_, base, hstands, rfl, ?_⟩
    · obtain ⟨rest, rfl⟩ := hstands.1
      obtain ⟨c, needle, rfl⟩ := List.exists_cons_of_ne_nil hne
      rw [List.append_assoc, List.cons_append]
      exact isCharBoundary_encode base c (needle ++ rest)
    · intro base' h'
      obtain ⟨more, rfl⟩ := hfirst base' h'
      rw [encode_append, List.length_append]
      exact Nat.le_add_right _ _

/-- The needle is found behind a character of two bytes, outside quotes and not inside. -/
theorem findUnquotedBytes_spec_umlaut :
    match findUnquotedBytes "'ä [ ' [ x".toList openNeedle with
    | some i => isCharBoundary (encode "'ä [ ' [ x".toList) i ∧
        ∃ base, StandsAfter "'ä [ ' [ x".toList openNeedle base ∧ i = (encode base).length ∧
          ∀ base', StandsAfter "'ä [ ' [ x".toList openNeedle base' → i ≤ (encode base').length
    | none => ∀ base, ¬ StandsAfter "'ä [ ' [ x".toList openNeedle base :=
  findUnquotedBytes_spec "'ä [ ' [ x".toList openNeedle (List.cons_ne_nil _ _)
    (head?_cons_not_mark (by decide) _) (by simp [openNeedle])

/-- There it is found after the closing quote. -/
example : findUnquotedBytes "'ä [ ' [ x".toList openNeedle = some 7 := by decide +kernel

end Vigil.Process
