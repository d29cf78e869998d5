import Mathlib.Data.List.Basic
import Mathlib.Data.List.TakeWhile
import Mathlib.Tactic.Common

/-!
# IP addresses as text

The text of an IPv4 or IPv6 address as standard libraries read it. An IPv4 address is four decimal
octets without a leading zero. An IPv6 address is eight groups of up to four hexadecimal digits, of
which the last two may be written as an IPv4 address, and one run of zero groups as `::`.

A reader takes an address from the start of a text and leaves the rest. `Takes` says of which
characters the part is that it takes, and the text of an address consists of these
(`forall_isAddrChar_of_parse`).
-/

/-- An IP address. -/
inductive IpAddr
  /-- An IPv4 address. -/
  | v4 (bits : BitVec 32)
  /-- An IPv6 address. -/
  | v6 (bits : BitVec 128)
  deriving DecidableEq, Repr

namespace IpAddr

/-- A reader: what it reads from the start of a text, and the rest. -/
abbrev Reader (α : Type) := List Char → Option (α × List Char)

variable {α : Type}

/-! ## The readers -/

/-- The value of a digit in the radix, which is at most 36. -/
def digit (radix : ℕ) (c : Char) : Option ℕ :=
  let d :=
    if '0' ≤ c ∧ c ≤ '9' then c.toNat - '0'.toNat
    else if 'a' ≤ c ∧ c ≤ 'z' then c.toNat - 'a'.toNat + 10
    else if 'A' ≤ c ∧ c ≤ 'Z' then c.toNat - 'A'.toNat + 10
    else radix
  if d < radix then some d else none

/-- The character is a digit in the radix. -/
def isDigit (radix : ℕ) (c : Char) : Bool := (digit radix c).isSome

/-- A number of at most `maxDigits` digits, up to `bound`. More digits are an error, and the digit
`0` before others where `allowZeroPrefix` is `false`. -/
def readNumber (radix maxDigits : ℕ) (allowZeroPrefix : Bool) (bound : ℕ) : Reader ℕ := fun s =>
  let ds := s.takeWhile (isDigit radix)
  if ds = [] ∨ maxDigits < ds.length then none
  else if allowZeroPrefix = false ∧ ds.head? = some '0' ∧ 1 < ds.length then none
  else
    let n := ds.foldl (fun n c => radix * n + (digit radix c).getD 0) 0
    if n ≤ bound then some (n, s.dropWhile (isDigit radix)) else none

/-- A reader that needs a separator before all items but the first. -/
def readSeparator (sep : Char) (first : Bool) (read : Reader α) : Reader α := fun s =>
  if first then read s
  else
    match s with
    | [] => none
    | c :: rest => if c = sep then read rest else none

/-- This many octets, with a dot between two. -/
def readOctets : (left : ℕ) → (first : Bool) → Reader (List ℕ)
  | 0, _ => fun s => some ([], s)
  | left + 1, first => fun s =>
    match readSeparator '.' first (readNumber 10 3 false 255) s with
    | none => none
    | some (octet, rest) =>
      match readOctets left false rest with
      | none => none
      | some (octets, rest') => some (octet :: octets, rest')

/-- The octets of an IPv4 address. -/
def readIpv4 : Reader (List ℕ) := readOctets 4 true

/-- Octets by twos, as groups. -/
def pairUp : List ℕ → List ℕ
  | a :: b :: rest => (256 * a + b) :: pairUp rest
  | _ => []

/-- Up to `left` groups, with a colon between two, and whether the last two are those of an IPv4
address, which needs two groups left and ends the loop. -/
def readGroups : (left : ℕ) → (first : Bool) → List Char → (List ℕ × Bool) × List Char
  | 0, _, s => (([], false), s)
  | left + 1, first, s =>
    match if 1 ≤ left then readSeparator ':' first readIpv4 s else none with
    | some (octets, rest) => ((pairUp octets, true), rest)
    | none =>
      match readSeparator ':' first (readNumber 16 4 true 0xFFFF) s with
      | none => (([], false), s)
      | some (group, rest) =>
        let more := readGroups left false rest
        ((group :: more.1.1, more.1.2), more.2)

/-- The groups of an IPv6 address: the head, and the tail after `::` if the head is not all. -/
def readIpv6 : Reader (List ℕ) := fun s =>
  let head := readGroups 8 true s
  if head.1.1.length = 8 then some (head.1.1, head.2)
  else if head.1.2 then none
  else
    match head.2 with
    | ':' :: ':' :: rest =>
      let tail := readGroups (8 - (head.1.1.length + 1)) true rest
      let zeros := List.replicate (8 - head.1.1.length - tail.1.1.length) 0
      some (head.1.1 ++ zeros ++ tail.1.1, tail.2)
    | _ => none

/-- The bits of some parts, the first part highest. -/
def bitsOf (w radix : ℕ) (parts : List ℕ) : BitVec w :=
  BitVec.ofNat w (parts.foldl (fun n part => radix * n + part) 0)

/-- An address of one of the two kinds. -/
def readIpAddr : Reader IpAddr := fun s =>
  match readIpv4 s with
  | some (octets, rest) => some (v4 (bitsOf 32 256 octets), rest)
  | none =>
    match readIpv6 s with
    | some (groups, rest) => some (v6 (bitsOf 128 65536 groups), rest)
    | none => none

/-- The address that the whole text writes. -/
def parse (s : List Char) : Option IpAddr :=
  match readIpAddr s with
  | some (ip, []) => some ip
  | _ => none

example : parse "10.0.1.5".toList = some (v4 0x0A000105) := by decide +kernel

example : parse "::ffff:1.2.3.4".toList = some (v6 0xFFFF01020304) := by decide +kernel

/-! ## The characters of an address -/

/-- Hexadecimal digits, the dot and the colon. -/
def isAddrChar (c : Char) : Bool := isDigit 16 c || c = '.' || c = ':'

/-- From `s` to `rest` only characters of an address are taken. -/
def Taken (s rest : List Char) : Prop := ∃ taken, s = taken ++ rest ∧ ∀ c ∈ taken, isAddrChar c

/-- The reader takes only characters of an address. -/
def Takes (read : Reader α) : Prop := ∀ ⦃s a rest⦄, read s = some (a, rest) → Taken s rest

theorem Taken.refl (s : List Char) : Taken s s := ⟨[], rfl, List.forall_mem_nil _⟩

theorem Taken.trans {r s t : List Char} (h : Taken r s) (h' : Taken s t) : Taken r t := by
  obtain ⟨a, rfl, ha⟩ := h
  obtain ⟨b, rfl, hb⟩ := h'
  exact ⟨a ++ b, (List.append_assoc a b t).symm, List.forall_mem_append.mpr ⟨ha, hb⟩⟩

theorem Taken.cons {c : Char} (hc : isAddrChar c) (s : List Char) : Taken (c :: s) s :=
  ⟨[c], rfl, List.forall_mem_singleton.mpr hc⟩

/-- A digit in a smaller radix is a hexadecimal digit. -/
theorem isDigit_mono {radix radix' : ℕ} (h : radix ≤ radix') {c : Char} (hc : isDigit radix c) :
    isDigit radix' c := by
  unfold isDigit digit at hc ⊢
  simp only at hc ⊢
  split_ifs at hc ⊢ <;> first | rfl | omega

theorem takes_readNumber {radix : ℕ} (h : radix ≤ 16) (maxDigits : ℕ) (allowZeroPrefix : Bool)
    (bound : ℕ) : Takes (readNumber radix maxDigits allowZeroPrefix bound) := by
  intro s n rest hs
  simp only [readNumber] at hs
  split_ifs at hs
  obtain ⟨-, rfl⟩ := Prod.mk.inj (Option.some.inj hs)
  -- Whatever the bounds on its size and its length are, a number is the digits at the head.
  refine ⟨s.takeWhile (isDigit radix), List.takeWhile_append_dropWhile.symm, fun c hc => ?_⟩
  have hdigit : isDigit 16 c := isDigit_mono h (List.mem_takeWhile_imp hc)
  unfold isAddrChar
  rw [hdigit]
  rfl

theorem Takes.separator {sep : Char} (hsep : isAddrChar sep) (first : Bool) {read : Reader α}
    (h : Takes read) : Takes (readSeparator sep first read) := by
  intro s a rest hs
  unfold readSeparator at hs
  split at hs
  · exact h hs
  · split at hs
    · cases hs
    · next c s =>
      split_ifs at hs with hc
      exact (Taken.cons (hc ▸ hsep) s).trans (h hs)

theorem takes_readOctets (left : ℕ) (first : Bool) : Takes (readOctets left first) := by
  induction left generalizing first with
  | zero =>
    intro s octets rest hs
    obtain ⟨-, rfl⟩ := Prod.mk.inj (Option.some.inj hs)
    exact Taken.refl s
  | succ left ih =>
    intro s octets rest hs
    unfold readOctets at hs
    split at hs
    · cases hs
    · next octet rest' hoctet =>
      split at hs
      · cases hs
      · next octets' rest'' hoctets =>
        obtain ⟨-, rfl⟩ := Prod.mk.inj (Option.some.inj hs)
        have hone := (takes_readNumber (by omega) 3 false 255).separator (by decide) first hoctet
        exact hone.trans (ih false hoctets)

theorem taken_readGroups (left : ℕ) (first : Bool) (s : List Char) :
    Taken s (readGroups left first s).2 := by
  induction left generalizing first s with
  | zero => exact Taken.refl s
  | succ left ih =>
    unfold readGroups
    split
    · next octets rest hv4 =>
      split_ifs at hv4
      exact (takes_readOctets 4 true).separator (by decide) first hv4
    · split
      · exact Taken.refl s
      · next group rest hgroup =>
        have hone := (takes_readNumber le_rfl 4 true 0xFFFF).separator (by decide) first hgroup
        exact hone.trans (ih false rest)

theorem takes_readIpv6 : Takes readIpv6 := by
  intro s groups rest hs
  have hhead := taken_readGroups 8 true s
  simp only [readIpv6] at hs
  split_ifs at hs
  · obtain ⟨-, rfl⟩ := Prod.mk.inj (Option.some.inj hs)
    exact hhead
  · split at hs
    · next rest' heq =>
      obtain ⟨-, rfl⟩ := Prod.mk.inj (Option.some.inj hs)
      rw [heq] at hhead
      -- The two colons stand for the zeros.
      have hcolons : Taken (':' :: ':' :: rest') rest' :=
        (Taken.cons (by decide) _).trans (Taken.cons (by decide) _)
      exact (hhead.trans hcolons).trans (taken_readGroups _ true rest')
    · cases hs

theorem takes_readIpAddr : Takes readIpAddr := by
  intro s ip rest hs
  unfold readIpAddr at hs
  split at hs
  · next octets rest' hv4 =>
    obtain ⟨-, rfl⟩ := Prod.mk.inj (Option.some.inj hs)
    exact takes_readOctets 4 true hv4
  · split at hs
    · next groups rest' hv6 =>
      obtain ⟨-, rfl⟩ := Prod.mk.inj (Option.some.inj hs)
      exact takes_readIpv6 hv6
    · cases hs

/-- The text of an address consists of hexadecimal digits, dots and colons. -/
theorem forall_isAddrChar_of_parse {s : List Char} {ip : IpAddr} (h : parse s = some ip) :
    ∀ c ∈ s, isAddrChar c := by
  unfold parse at h
  split at h
  · next ip' hread =>
    obtain ⟨taken, heq, htaken⟩ := takes_readIpAddr hread
    rw [List.append_nil] at heq
    exact heq ▸ htaken
  · cases h

end IpAddr
