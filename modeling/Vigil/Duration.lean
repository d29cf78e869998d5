import Mathlib.Algebra.Group.Nat.Defs
import Mathlib.Data.List.TakeDrop
import Mathlib.Data.Nat.Notation

/-!
# Durations

`parse_duration` of `duration.rs`: a duration is a chain of components such as `1m30s`, each a
decimal number and one of the suffixes `ms`, `s`, `m`, and `h`. Every number, every product with its
unit, and every partial sum is a `u64`, and overflow is an error. Durations are milliseconds here,
as they are in the source until its last line.
-/

namespace Vigil

/-- The largest `u64`. -/
def u64Max : ℕ := 2^64 - 1

/-- How `parse_duration` fails. -/
inductive DurationError
  /-- `empty duration string`. -/
  | empty
  /-- `expected digit in duration: {rest:?}`. -/
  | expectedDigit (rest : List Char)
  /-- `number overflow in duration: {s:?}`. -/
  | numberOverflow
  /-- `unknown duration suffix in {s:?}`. -/
  | unknownSuffix
  /-- `overflow: {s:?}`. -/
  | overflow
  deriving DecidableEq, Repr

/-- The number that a string of ASCII digits writes. -/
def digitsValue (ds : List Char) : ℕ := ds.foldl (fun n c => 10 * n + (c.toNat - '0'.toNat)) 0

/-- The unit at the head of the input, in milliseconds, and the input after it. `ms` is tried before
`m`. -/
def durationUnit : List Char → Option (ℕ × List Char)
  | 'm' :: 's' :: rest => some (1, rest)
  | 's' :: rest => some (1000, rest)
  | 'm' :: rest => some (60000, rest)
  | 'h' :: rest => some (3600000, rest)
  | _ => none

/-- The loop of `parse_duration`. Every component takes at least one character, so `fuel` at least
the length of the input is never spent. -/
def parseDurationLoop : (fuel : ℕ) → (rest : List Char) → (total : ℕ) → Except DurationError ℕ
  | _, [], total => .ok total
  | 0, _ :: _, total => .ok total
  | fuel + 1, rest, total =>
    let digits := rest.takeWhile Char.isDigit
    if digits = [] then .error (.expectedDigit rest)
    else
      let num := digitsValue digits
      if u64Max < num then .error .numberOverflow
      else
        match durationUnit (rest.dropWhile Char.isDigit) with
        | none => .error .unknownSuffix
        | some (mult, rest') =>
          if u64Max < num * mult then .error .overflow
          else if u64Max < total + num * mult then .error .overflow
          else parseDurationLoop fuel rest' (total + num * mult)

/-- `parse_duration`, in milliseconds. -/
def parseDuration (s : String) : Except DurationError ℕ :=
  if s.toList = [] then .error .empty else parseDurationLoop s.toList.length s.toList 0

/-- `config.field.as_deref().and_then(|s| parse_duration(s).ok()).unwrap_or(default)`: a configured
duration, or the default where it is absent or not a duration. -/
def durationOr (field : Option String) (default : ℕ) : ℕ :=
  (field.bind fun s => (parseDuration s).toOption).getD default

end Vigil
