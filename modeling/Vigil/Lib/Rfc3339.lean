import Mathlib.Algebra.Order.Ring.Rat
import Mathlib.Data.List.Range
import Mathlib.Tactic.IntervalCases

/-!
# Timestamps of RFC 3339

A timestamp is a date, a time of day with any number of fractional digits, and the offset of its
time zone. `print` writes it, and `time` is the instant that it stands for, in seconds.
-/

namespace Rfc3339

/-- A timestamp. -/
structure Stamp where
  year : ℕ
  month : ℕ
  day : ℕ
  hour : ℕ
  minute : ℕ
  second : ℕ
  /-- The digits after the decimal point, which is left out if there are none. -/
  fraction : List ℕ := []
  /-- Whether the offset is to the west, its hours, and its minutes. Without it the zone is `Z`. -/
  offset : Option (Bool × ℕ × ℕ) := none
  deriving DecidableEq, Repr

/-- The days of a month in the Gregorian calendar. -/
def daysIn (year month : ℕ) : ℕ :=
  if month = 2 then if year % 4 = 0 ∧ (year % 100 ≠ 0 ∨ year % 400 = 0) then 29 else 28
  else if month ∈ [4, 6, 9, 11] then 30
  else 31

namespace Stamp

variable (s : Stamp)

/-- The date is one of the calendar, and the time one of the day. -/
structure Valid : Prop where
  year : s.year ≤ 9999
  month : 1 ≤ s.month ∧ s.month ≤ 12
  day : 1 ≤ s.day ∧ s.day ≤ daysIn s.year s.month
  hour : s.hour < 24
  minute : s.minute < 60
  second : s.second < 60
  fraction : ∀ d ∈ s.fraction, d < 10
  offset : ∀ o ∈ s.offset, o.2.1 < 24 ∧ o.2.2 < 60

instance : Decidable s.Valid :=
  decidable_of_iff (s.year ≤ 9999 ∧ (1 ≤ s.month ∧ s.month ≤ 12) ∧
      (1 ≤ s.day ∧ s.day ≤ daysIn s.year s.month) ∧ s.hour < 24 ∧ s.minute < 60 ∧ s.second < 60 ∧
      (∀ d ∈ s.fraction, d < 10) ∧ ∀ o ∈ s.offset, o.2.1 < 24 ∧ o.2.2 < 60)
    ⟨fun ⟨h₁, h₂, h₃, h₄, h₅, h₆, h₇, h₈⟩ => ⟨h₁, h₂, h₃, h₄, h₅, h₆, h₇, h₈⟩,
      fun h => ⟨h.year, h.month, h.day, h.hour, h.minute, h.second, h.fraction, h.offset⟩⟩

/-- The last decimal digit of a number. -/
def digit (n : ℕ) : Char := Char.ofNat ('0'.toNat + n % 10)

/-- The last two digits of a number. -/
def two (n : ℕ) : List Char := [digit (n / 10), digit n]

/-- The fraction with its decimal point. -/
def printFraction : List Char :=
  if s.fraction = [] then [] else '.' :: s.fraction.map digit

/-- The zone. -/
def printOffset : List Char :=
  match s.offset with
  | none => ['Z']
  | some (west, hours, minutes) => (if west then '-' else '+') :: two hours ++ ':' :: two minutes

/-- The text of a timestamp. -/
def print : List Char :=
  two (s.year / 100) ++ two s.year ++ '-' :: two s.month ++ '-' :: two s.day ++ 'T' :: two s.hour ++
    ':' :: two s.minute ++ ':' :: two s.second ++ s.printFraction ++ s.printOffset

/-- The days from the first one of year zero. -/
def days : ℕ :=
  365 * s.year + (s.year + 3) / 4 - (s.year + 99) / 100 + (s.year + 399) / 400 +
    ((List.range (s.month - 1)).map fun m => daysIn s.year (m + 1)).sum + (s.day - 1)

/-- The seconds by which the zone is ahead. -/
def ahead : ℤ :=
  match s.offset with
  | none => 0
  | some (west, hours, minutes) =>
    if west then -((hours * 60 + minutes) * 60 : ℤ) else (hours * 60 + minutes) * 60

/-- The instant of a timestamp, in seconds from the first day of year zero. -/
def time : ℚ :=
  (((s.days * 24 + s.hour) * 60 + s.minute) * 60 + s.second - s.ahead : ℤ) +
    (s.fraction.foldl (fun n d => 10 * n + d) 0 : ℕ) / 10 ^ s.fraction.length

/-- The characters of a digit, of two, and of a timestamp are `+` or later ones. -/
theorem le_toNat_digit (n : ℕ) : '+'.toNat ≤ (digit n).toNat := by
  unfold digit
  have hlt : n % 10 < 10 := Nat.mod_lt n (by omega)
  generalize n % 10 = d at hlt
  interval_cases d <;> decide

theorem le_toNat_two (n : ℕ) : ∀ c ∈ two n, '+'.toNat ≤ c.toNat :=
  List.forall_mem_cons.mpr ⟨le_toNat_digit _, List.forall_mem_singleton.mpr (le_toNat_digit _)⟩

theorem le_toNat_of_mem_print : ∀ c ∈ s.print, '+'.toNat ≤ c.toNat := by
  -- The parts of a varying length; the others are two digits each and marks.
  have hfraction : ∀ c ∈ s.printFraction, '+'.toNat ≤ c.toNat := by
    unfold printFraction
    split_ifs
    · exact List.forall_mem_nil _
    · exact List.forall_mem_cons.mpr ⟨by decide, List.forall_mem_map.mpr fun n _ =>
        le_toNat_digit n⟩
  have hoffset : ∀ c ∈ s.printOffset, '+'.toNat ≤ c.toNat := by
    unfold printOffset
    split
    · exact List.forall_mem_singleton.mpr (by decide)
    · split_ifs <;>
        simp only [List.cons_append, List.forall_mem_cons, List.forall_mem_append] <;>
        exact ⟨by decide, le_toNat_two _, by decide, le_toNat_two _⟩
  have hmark {mark : Char} (h : '+'.toNat ≤ mark.toNat) (n : ℕ) :
      ∀ c ∈ mark :: two n, '+'.toNat ≤ c.toNat := List.forall_mem_cons.mpr ⟨h, le_toNat_two n⟩
  simp only [print, List.forall_mem_append]
  exact ⟨⟨⟨⟨⟨⟨⟨⟨le_toNat_two _, le_toNat_two _⟩, hmark (by decide) _⟩, hmark (by decide) _⟩,
    hmark (by decide) _⟩, hmark (by decide) _⟩, hmark (by decide) _⟩, hfraction⟩, hoffset⟩

/-- There is no blank in a timestamp, and no other character before `+`. -/
theorem notMem_print {c : Char} (h : c.toNat < '+'.toNat) : c ∉ s.print := fun hc =>
  absurd (s.le_toNat_of_mem_print c hc) (Nat.not_le.mpr h)

/-- The text of a timestamp is not empty. -/
theorem print_ne_nil : s.print ≠ [] := List.cons_ne_nil _ _

end Stamp

end Rfc3339
