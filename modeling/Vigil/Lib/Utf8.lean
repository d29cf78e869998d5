import Mathlib.Data.List.Basic
import Mathlib.Data.List.Flatten
import Mathlib.Data.List.Forall2
import Mathlib.Tactic.Common

/-!
# Lossy UTF-8 decoding, chunk by chunk

A decoder that puts a replacement character where the bytes are not UTF-8: one for each byte that
starts nothing, and one for each beginning of a character that is broken off (`next`, `lossy`).
Bytes that are UTF-8 are decoded as they are (`lossy_encode`).

A stream of UTF-8 that is decoded a chunk at a time is decoded differently where a cut between two
chunks falls inside a character. `Stretched` says what becomes of the text: such a character turns
into two replacement characters or more. `exists_stretched` shows that this is all that happens, and
that nothing happens only if every chunk is UTF-8 by itself.
-/

namespace Utf8

/-- The bytes of a text. -/
def encode (cs : List Char) : List UInt8 := cs.flatMap String.utf8EncodeChar

/-- U+FFFD. -/
def replacement : Char := Char.ofNat 0xFFFD

/-- A byte of a character after its first one. -/
def isTail (b : UInt8) : Bool := 0x80 ≤ b.toNat && b.toNat ≤ 0xBF

/-- The second byte of a character of three bytes, after the first. -/
def isSecondOfThree (b₀ b₁ : UInt8) : Bool :=
  if b₀.toNat = 0xE0 then 0xA0 ≤ b₁.toNat && b₁.toNat ≤ 0xBF
  else if b₀.toNat = 0xED then 0x80 ≤ b₁.toNat && b₁.toNat ≤ 0x9F
  else isTail b₁

/-- The second byte of a character of four bytes, after the first. -/
def isSecondOfFour (b₀ b₁ : UInt8) : Bool :=
  if b₀.toNat = 0xF0 then 0x90 ≤ b₁.toNat && b₁.toNat ≤ 0xBF
  else if b₀.toNat = 0xF4 then 0x80 ≤ b₁.toNat && b₁.toNat ≤ 0x8F
  else isTail b₁

/-- The low bits of a byte after the first one. -/
def low (b : UInt8) : ℕ := b.toNat - 0x80

/-- What the bytes after a first byte have to be, if the byte may be a first one. -/
def follow (b₀ : UInt8) : Option (List (UInt8 → Bool)) :=
  if b₀.toNat < 0x80 then some []
  else if 0xC2 ≤ b₀.toNat ∧ b₀.toNat ≤ 0xDF then some [isTail]
  else if 0xE0 ≤ b₀.toNat ∧ b₀.toNat ≤ 0xEF then some [isSecondOfThree b₀, isTail]
  else if 0xF0 ≤ b₀.toNat ∧ b₀.toNat ≤ 0xF4 then some [isSecondOfFour b₀, isTail, isTail]
  else none

/-- How many bytes are what they have to be, up to the first one that is not. -/
def matched : List (UInt8 → Bool) → List UInt8 → ℕ
  | ok :: oks, b :: bs => if ok b then matched oks bs + 1 else 0
  | _, _ => 0

/-- The code point of a character's bytes. -/
def codePoint : List UInt8 → ℕ
  | [b₀] => b₀.toNat
  | [b₀, b₁] => (b₀.toNat - 0xC0) * 64 + low b₁
  | [b₀, b₁, b₂] => (b₀.toNat - 0xE0) * 4096 + low b₁ * 64 + low b₂
  | [b₀, b₁, b₂, b₃] => (b₀.toNat - 0xF0) * 262144 + low b₁ * 4096 + low b₂ * 64 + low b₃
  | _ => 0

/-- The first character of the bytes and the bytes after it, or a replacement character and the
bytes after what it replaces. -/
def next (b₀ : UInt8) (rest : List UInt8) : Char × List UInt8 :=
  match follow b₀ with
  | none => (replacement, rest)
  | some oks =>
    let k := matched oks rest
    (if k = oks.length then Char.ofNat (codePoint (b₀ :: rest.take k)) else replacement,
      rest.drop k)

/-- What `next` leaves is not longer. -/
theorem length_next_le (b₀ : UInt8) (rest : List UInt8) :
    (next b₀ rest).2.length ≤ rest.length := by
  unfold next
  split
  · exact Nat.le_refl _
  · simp

/-- The characters of some bytes, with `fuel` at least their number. -/
def lossyLoop : ℕ → List UInt8 → List Char
  | _, [] => []
  | 0, _ :: _ => []
  | fuel + 1, b :: rest => (next b rest).1 :: lossyLoop fuel (next b rest).2

/-- The characters of some bytes. -/
def lossy (bytes : List UInt8) : List Char := lossyLoop bytes.length bytes

/-- With fuel for all bytes the loop gives the lossy text. -/
theorem lossyLoop_eq {fuel : ℕ} {bytes : List UInt8} (h : bytes.length ≤ fuel) :
    lossyLoop fuel bytes = lossy bytes := by
  induction hn : bytes.length using Nat.strongRecOn generalizing fuel bytes with
  | ind n ih =>
    cases bytes with
    | nil => cases fuel <;> rfl
    | cons b rest =>
      have hle := length_next_le b rest
      rw [List.length_cons] at h hn
      obtain ⟨m, rfl⟩ : ∃ m, fuel = m + 1 := ⟨fuel - 1, by omega⟩
      rw [lossy, List.length_cons, lossyLoop, lossyLoop, ih _ (by omega) (by omega) rfl,
        ih _ (by omega) hle rfl]

/-- No bytes have no characters. -/
@[simp] theorem lossy_nil : lossy [] = [] := rfl

/-- The lossy text begins with the first character, and goes on with what `next` leaves. -/
theorem lossy_cons (b : UInt8) (rest : List UInt8) :
    lossy (b :: rest) = (next b rest).1 :: lossy (next b rest).2 := by
  rw [lossy, List.length_cons, lossyLoop, lossyLoop_eq (length_next_le b rest)]

/-! ## The bytes of a character -/

/-- The bytes that a first byte asks for are the ones that match. -/
theorem matched_of_forall₂ {oks : List (UInt8 → Bool)} {bs : List UInt8}
    (h : List.Forall₂ (fun ok b => ok b = true) oks bs) (rest : List UInt8) :
    matched oks (bs ++ rest) = bs.length := by
  induction h with
  | nil => simp [matched]
  | cons hok _ ih => rw [List.cons_append, matched, if_pos hok, ih, List.length_cons]

/-- A beginning of the bytes that a first byte asks for matches as far as it goes. -/
theorem matched_of_prefix {oks : List (UInt8 → Bool)} {bs cs : List UInt8}
    (h : List.Forall₂ (fun ok b => ok b = true) oks (bs ++ cs)) : matched oks bs = bs.length := by
  induction bs generalizing oks with
  | nil => cases oks <;> rfl
  | cons b bs ih =>
    cases h with
    | cons hok hrest => rw [matched, if_pos hok, ih hrest, List.length_cons]

/-- A byte below `256` is the number that it is made from. -/
theorem toNat_ofNat {n : ℕ} (h : n < 256) : (UInt8.ofNat n).toNat = n := by
  simpa using Nat.mod_eq_of_lt h

/-- A number in the range of the bytes after a first one makes a tail byte. -/
theorem isTail_ofNat {n : ℕ} (h : (UInt8.ofNat n).toNat = n) (hn : 0x80 ≤ n ∧ n ≤ 0xBF) :
    isTail (UInt8.ofNat n) = true := by
  rw [isTail, h, decide_eq_true hn.1, decide_eq_true hn.2]
  rfl

/-- The code point of two bytes has five bits of the first one and six of the second one. -/
theorem codePoint_two (b₀ b₁ : UInt8) :
    codePoint [b₀, b₁] = (b₀.toNat - 0xC0) * 64 + (b₁.toNat - 0x80) := rfl

/-- The code point of three bytes has four bits of the first one and six of each other one. -/
theorem codePoint_three (b₀ b₁ b₂ : UInt8) : codePoint [b₀, b₁, b₂] =
    (b₀.toNat - 0xE0) * 4096 + (b₁.toNat - 0x80) * 64 + (b₂.toNat - 0x80) := rfl

/-- The code point of four bytes has three bits of the first one and six of each other one. -/
theorem codePoint_four (b₀ b₁ b₂ b₃ : UInt8) : codePoint [b₀, b₁, b₂, b₃] =
    (b₀.toNat - 0xF0) * 262144 + (b₁.toNat - 0x80) * 4096 + (b₂.toNat - 0x80) * 64 +
      (b₃.toNat - 0x80) := rfl

/-- A character's bytes: the first one, what it asks for, and the code point that they have. -/
theorem exists_follow (c : Char) : ∃ b₀ bs oks, String.utf8EncodeChar c = b₀ :: bs ∧
    follow b₀ = some oks ∧ List.Forall₂ (fun ok b => ok b = true) oks bs ∧
    codePoint (b₀ :: bs) = c.toNat ∧ (∀ b ∈ bs, isTail b = true) := by
  have hv : c.val.toNat = c.toNat := rfl
  have hvalid := c.valid
  simp only [UInt32.isValidChar, Nat.isValidChar, hv] at hvalid
  unfold String.utf8EncodeChar
  simp only [hv]
  generalize c.toNat = v at hvalid
  split_ifs with h1 h2 h3
  · -- The character is its own byte.
    have e0 := toNat_ofNat (show v < 256 by omega)
    refine ⟨_, [], [], rfl, ?_, .nil, e0, List.forall_mem_nil _⟩
    unfold follow
    rw [e0, if_pos (by omega)]
  · have e0 := toNat_ofNat (show v / 64 % 0x20 + 0xc0 < 256 by omega)
    have e1 := toNat_ofNat (show v % 0x40 + 0x80 < 256 by omega)
    have t1 := isTail_ofNat e1 (by omega)
    refine ⟨_, _, [isTail], rfl, ?_, .cons t1 .nil, ?_, List.forall_mem_singleton.mpr t1⟩
    · unfold follow
      rw [e0, if_neg (by omega), if_pos (by omega)]
    · rw [codePoint_two, e0, e1]
      omega
  · have e0 := toNat_ofNat (show v / 4096 % 0x10 + 0xe0 < 256 by omega)
    have e1 := toNat_ofNat (show v / 64 % 0x40 + 0x80 < 256 by omega)
    have e2 := toNat_ofNat (show v % 0x40 + 0x80 < 256 by omega)
    have t1 := isTail_ofNat e1 (by omega)
    have t2 := isTail_ofNat e2 (by omega)
    refine ⟨_, _, [isSecondOfThree (UInt8.ofNat (v / 4096 % 0x10 + 0xe0)), isTail], rfl, ?_,
      .cons ?_ (.cons t2 .nil), ?_,
      List.forall_mem_cons.mpr ⟨t1, List.forall_mem_singleton.mpr t2⟩⟩
    · unfold follow
      rw [e0, if_neg (by omega), if_neg (by omega), if_pos (by omega)]
    · -- The second byte is in the range that keeps out long forms and surrogates.
      unfold isSecondOfThree
      rw [t1, e0, e1]
      split_ifs <;> simp only [Bool.and_eq_true, decide_eq_true_eq] <;> omega
    · rw [codePoint_three, e0, e1, e2]
      omega
  · have e0 := toNat_ofNat (show v / 262144 % 0x08 + 0xf0 < 256 by omega)
    have e1 := toNat_ofNat (show v / 4096 % 0x40 + 0x80 < 256 by omega)
    have e2 := toNat_ofNat (show v / 64 % 0x40 + 0x80 < 256 by omega)
    have e3 := toNat_ofNat (show v % 0x40 + 0x80 < 256 by omega)
    have t1 := isTail_ofNat e1 (by omega)
    have t2 := isTail_ofNat e2 (by omega)
    have t3 := isTail_ofNat e3 (by omega)
    refine ⟨_, _, [isSecondOfFour (UInt8.ofNat (v / 262144 % 0x08 + 0xf0)), isTail, isTail], rfl,
      ?_, .cons ?_ (.cons t2 (.cons t3 .nil)), ?_,
      List.forall_mem_cons.mpr ⟨t1,
        List.forall_mem_cons.mpr ⟨t2, List.forall_mem_singleton.mpr t3⟩⟩⟩
    · unfold follow
      rw [e0, if_neg (by omega), if_neg (by omega), if_neg (by omega), if_pos (by omega)]
    · -- It keeps out long forms and what is above the last character.
      unfold isSecondOfFour
      rw [t1, e0, e1]
      split_ifs <;> simp only [Bool.and_eq_true, decide_eq_true_eq] <;> omega
    · rw [codePoint_four, e0, e1, e2, e3]
      omega

/-- `next` gives a character back from its bytes, and leaves what follows them. -/
theorem next_utf8EncodeChar (c : Char) (rest : List UInt8) : ∃ b bs,
    String.utf8EncodeChar c ++ rest = b :: bs ∧ next b bs = (c, rest) := by
  obtain ⟨b, bs, oks, henc, hfollow, hmatch, hcode, -⟩ := exists_follow c
  refine ⟨b, bs ++ rest, by rw [henc, List.cons_append], ?_⟩
  have hk := matched_of_forall₂ hmatch rest
  simp only [next, hfollow, hk, hmatch.length_eq, if_true, List.take_left, List.drop_left, hcode]
  rw [Char.ofNat_toNat]

/-- The beginning of a text is decoded as it is. -/
theorem lossy_encode_append (cs : List Char) (rest : List UInt8) :
    lossy (encode cs ++ rest) = cs ++ lossy rest := by
  induction cs with
  | nil => rfl
  | cons c cs ih =>
    obtain ⟨b, bs, heq, hnext⟩ := next_utf8EncodeChar c (encode cs ++ rest)
    rw [encode, List.flatMap_cons, List.append_assoc]
    rw [encode] at heq hnext
    rw [heq, lossy_cons, hnext]
    exact congrArg (c :: ·) ih

/-- A text is decoded as it is. -/
@[simp] theorem lossy_encode (cs : List Char) : lossy (encode cs) = cs := by
  simpa using lossy_encode_append cs []

/-- Texts with the same bytes are the same. -/
theorem encode_injective : Function.Injective encode := fun a b h => by
  rw [← lossy_encode a, h, lossy_encode]

/-- Two texts are encoded one after the other. -/
theorem encode_append (as bs : List Char) : encode (as ++ bs) = encode as ++ encode bs :=
  List.flatMap_append

/-- The beginning of a character is replaced by one character. -/
theorem lossy_of_prefix {c : Char} {p q : List UInt8} (h : String.utf8EncodeChar c = p ++ q)
    (hp : p ≠ []) (hq : q ≠ []) : lossy p = [replacement] := by
  obtain ⟨b, bs, oks, henc, hfollow, hmatch, -, -⟩ := exists_follow c
  obtain ⟨b', bs', rfl⟩ := List.exists_cons_of_ne_nil hp
  rw [henc, List.cons_append] at h
  obtain ⟨rfl, rfl⟩ := List.cons.inj h
  have hk := matched_of_prefix hmatch
  have hlt : bs'.length ≠ oks.length := by
    have hq' := List.length_pos_iff.mpr hq
    rw [hmatch.length_eq, List.length_append]
    omega
  rw [lossy_cons]
  simp only [next, hfollow, hk, if_neg hlt, List.drop_length, lossy_nil]

/-- A byte that only continues a character is no first one. -/
theorem follow_of_isTail {b : UInt8} (hb : isTail b = true) : follow b = none := by
  simp only [isTail, Bool.and_eq_true, decide_eq_true_eq] at hb
  unfold follow
  rw [if_neg (by omega), if_neg (by omega), if_neg (by omega), if_neg (by omega)]

/-- Each byte that only continues a character is replaced by a character of its own. -/
theorem lossy_tail_append {q : List UInt8} (hq : ∀ b ∈ q, isTail b = true) (rest : List UInt8) :
    lossy (q ++ rest) = List.replicate q.length replacement ++ lossy rest := by
  induction q with
  | nil => rfl
  | cons b q ih =>
    have hfollow := follow_of_isTail (hq b List.mem_cons_self)
    rw [List.cons_append, lossy_cons]
    simp only [next, hfollow]
    rw [ih fun b' hb' => hq b' (List.mem_cons_of_mem _ hb'), List.length_cons, List.replicate_succ,
      List.cons_append]

/-- There are at most as many characters as bytes. -/
theorem length_lossy_le (bytes : List UInt8) : (lossy bytes).length ≤ bytes.length := by
  induction hn : bytes.length using Nat.strongRecOn generalizing bytes with
  | ind n ih =>
    cases bytes with
    | nil => exact Nat.zero_le _
    | cons b rest =>
      have hle := length_next_le b rest
      rw [List.length_cons] at hn
      have hrec := ih _ (by omega) (next b rest).2 rfl
      rw [lossy_cons, List.length_cons]
      omega

/-- All bytes that may follow a first byte are tail bytes. -/
theorem isTail_of_mem_follow {b₀ : UInt8} {oks : List (UInt8 → Bool)} (h : follow b₀ = some oks)
    {ok : UInt8 → Bool} (hok : ok ∈ oks) {b : UInt8} (hb : ok b = true) : isTail b = true := by
  have hthree : ∀ b₁, isSecondOfThree b₀ b₁ = true → isTail b₁ = true := by
    intro b₁ h₁
    unfold isSecondOfThree at h₁
    unfold isTail at h₁ ⊢
    simp only [Bool.and_eq_true, decide_eq_true_eq] at h₁ ⊢
    split_ifs at h₁ <;> simp only [Bool.and_eq_true, decide_eq_true_eq] at h₁ <;> omega
  have hfour : ∀ b₁, isSecondOfFour b₀ b₁ = true → isTail b₁ = true := by
    intro b₁ h₁
    unfold isSecondOfFour at h₁
    unfold isTail at h₁ ⊢
    simp only [Bool.and_eq_true, decide_eq_true_eq] at h₁ ⊢
    split_ifs at h₁ <;> simp only [Bool.and_eq_true, decide_eq_true_eq] at h₁ <;> omega
  unfold follow at h
  split_ifs at h <;> obtain rfl := Option.some.inj h
  · exact absurd hok List.not_mem_nil
  · rw [List.mem_singleton.mp hok] at hb
    exact hb
  · rcases List.mem_cons.mp hok with rfl | hok
    · exact hthree b hb
    · rw [List.mem_singleton.mp hok] at hb
      exact hb
  · rcases List.mem_cons.mp hok with rfl | hok
    · exact hfour b hb
    · rcases List.mem_cons.mp hok with rfl | hok
      · exact hb
      · rw [List.mem_singleton.mp hok] at hb
        exact hb

/-- A byte that is no later one ends what matches. -/
theorem matched_append {oks : List (UInt8 → Bool)} (h : ∀ ok ∈ oks, ∀ b, ok b = true →
    isTail b = true) {b : UInt8} (hb : isTail b = false) (bs rest : List UInt8) :
    matched oks (bs ++ b :: rest) = matched oks bs := by
  induction bs generalizing oks with
  | nil =>
    cases oks with
    | nil => rfl
    | cons ok oks =>
      have hok : ok b ≠ true := fun h' => by
        rw [h ok List.mem_cons_self b h'] at hb
        cases hb
      rw [List.nil_append, matched, if_neg hok]
      rfl
  | cons d bs ih =>
    cases oks with
    | nil => rfl
    | cons ok oks =>
      rw [List.cons_append, matched, matched,
        ih fun ok' hok' => h ok' (List.mem_cons_of_mem _ hok')]

/-- The bytes that match are no more than there are. -/
theorem matched_le_length (oks : List (UInt8 → Bool)) (bs : List UInt8) :
    matched oks bs ≤ bs.length := by
  induction bs generalizing oks with
  | nil => cases oks <;> exact Nat.le_refl 0
  | cons b bs ih =>
    cases oks with
    | nil => exact Nat.zero_le _
    | cons ok oks =>
      rw [matched, List.length_cons]
      split_ifs
      · exact Nat.succ_le_succ (ih oks)
      · exact Nat.zero_le _

/-- Bytes are decoded apart from those that follow, if these do not begin inside a character. -/
theorem lossy_append_of_not_tail {b : UInt8} (hb : isTail b = false) (bs rest : List UInt8) :
    lossy (bs ++ b :: rest) = lossy bs ++ lossy (b :: rest) := by
  induction hn : bs.length using Nat.strongRecOn generalizing bs with
  | ind n ih =>
    cases bs with
    | nil => rfl
    | cons d bs =>
      have hnext : next d (bs ++ b :: rest) = ((next d bs).1, (next d bs).2 ++ b :: rest) := by
        unfold next
        cases hf : follow d with
        | none => rfl
        | some oks =>
          have hle := matched_le_length oks bs
          dsimp only
          rw [matched_append (fun ok hok b' hb' => isTail_of_mem_follow hf hok hb') hb,
            List.take_append_of_le_length hle, List.drop_append_of_le_length hle]
      have hle := length_next_le d bs
      rw [List.length_cons] at hn
      rw [List.cons_append, lossy_cons, lossy_cons, hnext, ih _ (by omega) (next d bs).2 rfl,
        List.cons_append]

/-- All bytes of a character but the first one are tail bytes. -/
theorem isTail_of_suffix {c : Char} {p q : List UInt8} (h : String.utf8EncodeChar c = p ++ q)
    (hp : p ≠ []) : ∀ b ∈ q, isTail b = true := by
  obtain ⟨b, bs, oks, henc, -, -, -, htail⟩ := exists_follow c
  obtain ⟨b', bs', rfl⟩ := List.exists_cons_of_ne_nil hp
  rw [henc, List.cons_append] at h
  obtain ⟨rfl, rfl⟩ := List.cons.inj h
  exact fun b' hb' => htail b' (List.mem_append_right _ hb')

/-- A byte below `0x80` is the character with its number. -/
theorem eq_of_mem_utf8EncodeChar {c : Char} {b : UInt8} (hb : b ∈ String.utf8EncodeChar c)
    (hlt : b.toNat < 0x80) : String.utf8EncodeChar c = [b] ∧ c.toNat = b.toNat := by
  obtain ⟨b₀, bs, oks, henc, hfollow, hmatch, hcode, htail⟩ := exists_follow c
  rw [henc] at hb ⊢
  rcases List.mem_cons.mp hb with rfl | hb
  · have hoks : oks = [] := by
      rw [follow, if_pos hlt] at hfollow
      exact (Option.some.inj hfollow).symm
    subst hoks
    obtain rfl := List.forall₂_nil_left_iff.mp hmatch
    exact ⟨rfl, hcode.symm⟩
  · have hge := htail b hb
    simp only [isTail, Bool.and_eq_true, decide_eq_true_eq] at hge
    omega

/-- An ASCII character is one byte, with its number. -/
theorem utf8EncodeChar_ascii {c : Char} (hc : c.toNat < 0x80) :
    String.utf8EncodeChar c = [UInt8.ofNat c.toNat] := by
  have hv : c.val.toNat = c.toNat := rfl
  rw [String.utf8EncodeChar, hv, if_pos (by omega)]

/-! ## Chunks -/

/-- A text in which some characters outside of ASCII have been replaced by two replacement
characters or more, and the number of characters by which it is longer. -/
inductive Stretched : ℕ → List Char → List Char → Prop
  | nil : Stretched 0 [] []
  | keep (c : Char) {n : ℕ} {cs ts : List Char} (h : Stretched n cs ts) :
    Stretched n (c :: cs) (c :: ts)
  | cut {c : Char} (hc : 0x80 ≤ c.toNat) (k : ℕ) {n : ℕ} {cs ts : List Char}
    (h : Stretched n cs ts) :
    Stretched (n + k + 1) (c :: cs) (List.replicate (k + 2) replacement ++ ts)

namespace Stretched

variable {n : ℕ} {as bs cs ts : List Char}

/-- A text is itself, with nothing replaced. -/
theorem refl (cs : List Char) : Stretched 0 cs cs := by
  induction cs with
  | nil => exact nil
  | cons c cs ih => exact ih.keep c

/-- The text is longer by the number. -/
theorem length_eq (h : Stretched n cs ts) : ts.length = cs.length + n := by
  induction h with
  | nil => rfl
  | keep c _ ih => rw [List.length_cons, List.length_cons, ih]; omega
  | cut _ k _ ih => rw [List.length_append, List.length_replicate, List.length_cons, ih]; omega

/-- Two texts with replacements, one after the other, are a text with replacements. -/
theorem append {m : ℕ} {us : List Char} (h : Stretched m as us) (h' : Stretched n bs ts) :
    Stretched (m + n) (as ++ bs) (us ++ ts) := by
  induction h with
  | nil => rw [Nat.zero_add]; exact h'
  | keep c _ ih => exact ih.keep c
  | @cut c hc k m' cs us _ ih =>
    have hcut := ih.cut hc k
    rw [List.append_assoc, show m' + k + 1 + n = m' + n + k + 1 by omega]
    exact hcut

/-- Replacements in a text of two parts are replacements in each of them. -/
theorem of_append (h : Stretched n (as ++ bs) ts) : ∃ n₁ n₂ ts₁ ts₂, Stretched n₁ as ts₁ ∧
    Stretched n₂ bs ts₂ ∧ n = n₁ + n₂ ∧ ts = ts₁ ++ ts₂ := by
  induction as generalizing n ts with
  | nil => exact ⟨0, n, [], ts, nil, h, (Nat.zero_add n).symm, rfl⟩
  | cons a as ih =>
    rw [List.cons_append] at h
    cases h with
    | keep _ h =>
      obtain ⟨n₁, n₂, ts₁, ts₂, h₁, h₂, rfl, rfl⟩ := ih h
      exact ⟨n₁, n₂, a :: ts₁, ts₂, h₁.keep a, h₂, rfl, rfl⟩
    | cut ha k h =>
      obtain ⟨n₁, n₂, ts₁, ts₂, h₁, h₂, rfl, rfl⟩ := ih h
      exact ⟨n₁ + k + 1, n₂, _, ts₂, h₁.cut ha k, h₂, by omega, (List.append_assoc _ _ _).symm⟩

/-- Nothing is replaced in an ASCII text. -/
theorem of_ascii (h : Stretched n cs ts) (hcs : ∀ c ∈ cs, c.toNat < 0x80) : n = 0 ∧ ts = cs := by
  induction h with
  | nil => exact ⟨rfl, rfl⟩
  | keep c _ ih =>
    obtain ⟨hn, rfl⟩ := ih fun c' hc' => hcs c' (List.mem_cons_of_mem _ hc')
    exact ⟨hn, rfl⟩
  | cut hc _ _ _ => exact absurd (hcs _ List.mem_cons_self) (by omega)

/-- A beginning in ASCII stays as it is. -/
theorem of_append_ascii (h : Stretched n (as ++ bs) ts) (has : ∀ c ∈ as, c.toNat < 0x80) :
    ∃ us, ts = as ++ us ∧ Stretched n bs us := by
  obtain ⟨n₁, n₂, ts₁, ts₂, h₁, h₂, rfl, rfl⟩ := h.of_append
  obtain ⟨rfl, rfl⟩ := h₁.of_ascii has
  rw [Nat.zero_add]
  exact ⟨ts₂, rfl, h₂⟩

/-- A first character in ASCII stays as it is. -/
theorem of_cons_ascii {c : Char} (h : Stretched n (c :: cs) ts) (hc : c.toNat < 0x80) :
    ∃ us, ts = c :: us ∧ Stretched n cs us := by
  rw [← List.singleton_append] at h
  exact h.of_append_ascii (List.forall_mem_singleton.mpr hc)

end Stretched

/-- Where a cut through the bytes of a text falls: between two characters, or inside one. -/
theorem split_encode {cs : List Char} {r rest : List UInt8} (h : r ++ rest = encode cs) :
    (∃ as bs, cs = as ++ bs ∧ r = encode as ∧ rest = encode bs) ∨
      ∃ as c bs p q, cs = as ++ c :: bs ∧ String.utf8EncodeChar c = p ++ q ∧ p ≠ [] ∧ q ≠ [] ∧
        r = encode as ++ p ∧ rest = q ++ encode bs := by
  induction cs generalizing r with
  | nil =>
    obtain ⟨rfl, rfl⟩ := List.append_eq_nil_iff.mp h
    exact .inl ⟨[], [], rfl, rfl, rfl⟩
  | cons c cs ih =>
    have hcons : encode (c :: cs) = String.utf8EncodeChar c ++ encode cs := List.flatMap_cons
    rw [hcons] at h
    rcases List.append_eq_append_iff.mp h with ⟨q, henc, rfl⟩ | ⟨r', rfl, hrest⟩
    · by_cases hr : r = []
      · subst hr
        exact .inl ⟨[], c :: cs, rfl, rfl, by rw [hcons, henc, List.nil_append]⟩
      · by_cases hq : q = []
        · subst hq
          refine .inl ⟨[c], cs, rfl, ?_, rfl⟩
          rw [encode, List.flatMap_singleton, henc, List.append_nil]
        · exact .inr ⟨[], c, cs, r, q, rfl, henc, hr, hq, rfl, rfl⟩
    · rcases ih hrest.symm with ⟨as, bs, rfl, rfl, rfl⟩ |
        ⟨as, d, bs, p, q, rfl, henc, hp, hq, rfl, rfl⟩
      · exact .inl ⟨c :: as, bs, rfl, by rw [encode, encode, List.flatMap_cons], rfl⟩
      · refine .inr ⟨c :: as, d, bs, p, q, rfl, henc, hp, hq, ?_, rfl⟩
        rw [encode, encode, List.flatMap_cons, List.append_assoc]

/-- A character of several bytes is not in ASCII. -/
theorem not_ascii_of_split {c : Char} {p q : List UInt8} (h : String.utf8EncodeChar c = p ++ q)
    (hp : p ≠ []) (hq : q ≠ []) : 0x80 ≤ c.toNat := by
  by_contra hlt
  have hsize : c.utf8Size = 1 := by
    rw [Char.utf8Size_eq_one_iff]
    exact UInt32.le_iff_toNat_le.mpr (by show c.toNat ≤ 127; omega)
  have hlen := congrArg List.length h
  rw [String.length_utf8EncodeChar, hsize, List.length_append] at hlen
  have hp' := List.length_pos_iff.mpr hp
  have hq' := List.length_pos_iff.mpr hq
  omega

/-- What decoding the chunks of a text makes of it, after the rest `q` of a character that has been
cut: the text is stretched, and if it is not longer, every chunk is a text. -/
theorem exists_stretched {chunks : List (List UInt8)} {q : List UInt8} {cs : List Char}
    (h : chunks.flatten = q ++ encode cs) (hq : ∀ b ∈ q, isTail b = true) :
    ∃ n ts, Stretched n cs ts ∧
      chunks.flatMap lossy = List.replicate q.length replacement ++ ts ∧
      (q = [] → n = 0 → ∀ chunk ∈ chunks, ∃ s, chunk = encode s) := by
  induction chunks generalizing q cs with
  | nil =>
    obtain ⟨rfl, henc⟩ := List.append_eq_nil_iff.mp h.symm
    obtain rfl : cs = [] := by rw [← lossy_encode cs, henc, lossy_nil]
    exact ⟨0, [], .nil, rfl, fun _ _ => List.forall_mem_nil _⟩
  | cons chunk chunks ih =>
    rw [List.flatten_cons] at h
    rcases List.append_eq_append_iff.mp h with ⟨q', rfl, hrest⟩ | ⟨r, rfl, hrest⟩
    · -- The chunk ends before the character does.
      obtain ⟨n, ts, hst, hdec, hall⟩ := ih hrest fun b hb => hq b (List.mem_append_right _ hb)
      refine ⟨n, ts, hst, ?_, fun hnil hn => ?_⟩
      · have htail := lossy_tail_append (fun b hb => hq b (List.mem_append_left q' hb)) []
        rw [List.append_nil, lossy_nil, List.append_nil] at htail
        rw [List.flatMap_cons, hdec, htail, List.length_append, ← List.append_assoc,
          List.replicate_append_replicate]
      · obtain ⟨rfl, rfl⟩ := List.append_eq_nil_iff.mp hnil
        exact List.forall_mem_cons.mpr ⟨⟨[], rfl⟩, hall rfl hn⟩
    · rw [List.flatMap_cons, lossy_tail_append hq]
      rcases split_encode hrest.symm with ⟨as, bs, rfl, rfl, hbs⟩ |
        ⟨as, c, bs, p, q', rfl, henc, hp, hq', rfl, hbs⟩
      · -- The chunk ends between two characters.
        obtain ⟨n, ts, hst, hdec, hall⟩ := ih (q := []) hbs (List.forall_mem_nil _)
        refine ⟨n, as ++ ts, ?_, ?_, fun hnil hn => ?_⟩
        · simpa using (Stretched.refl as).append hst
        · rw [hdec, lossy_encode, List.length_nil, List.replicate_zero, List.nil_append,
            List.append_assoc]
        · subst hnil
          exact List.forall_mem_cons.mpr ⟨⟨as, rfl⟩, hall rfl hn⟩
      · -- The chunk ends inside a character.
        obtain ⟨n, ts, hst, hdec, -⟩ := ih hbs (isTail_of_suffix henc hp)
        obtain ⟨k, hk⟩ : ∃ k, q'.length = k + 1 :=
          ⟨q'.length - 1, by have := List.length_pos_iff.mpr hq'; omega⟩
        have hcut := hst.cut (not_ascii_of_split henc hp hq') k
        refine ⟨0 + (n + k + 1), as ++ (List.replicate (k + 2) replacement ++ ts),
          (Stretched.refl as).append hcut, ?_, fun _ hn => by omega⟩
        rw [hdec, lossy_encode_append, lossy_of_prefix henc hp hq', hk]
        simp [List.replicate_succ]

/-- The chunks of a text that are texts themselves are decoded to the text. -/
theorem flatMap_lossy_eq {chunks : List (List UInt8)} {cs : List Char}
    (h : chunks.flatten = encode cs) (hall : ∀ chunk ∈ chunks, ∃ s, chunk = encode s) :
    chunks.flatMap lossy = cs := by
  have hflat : encode (chunks.flatMap lossy) = chunks.flatten := by
    clear h
    induction chunks with
    | nil => rfl
    | cons chunk chunks ih =>
      obtain ⟨⟨s, rfl⟩, hrest⟩ := List.forall_mem_cons.mp hall
      rw [List.flatMap_cons, encode_append, lossy_encode, ih hrest, List.flatten_cons]
  exact encode_injective (hflat.trans h)

end Utf8
