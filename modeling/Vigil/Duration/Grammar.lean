import Vigil.Duration
import Mathlib.Algebra.GroupWithZero.Nat
import Mathlib.Data.List.Basic
import Mathlib.Data.List.Infix
import Mathlib.Data.List.TakeWhile

/-!
# The grammar of durations

What `parse_duration` accepts, and the value it gives: a duration is one or more parts, each one or
more ASCII digits and a suffix, and its value is the sum of the parts. The suffixes `m` and `ms`
share their first letter, so that a decomposition is unique needs an argument: what follows a part
is the end or a digit, never an `s`.

`DurationLoop` is the meaning of the `while` loop without a bound on its iterations. The loop ends
on every input since every iteration takes a part off the front of the string.
-/

namespace Vigil

/-! ## Parts -/

/-- The suffixes of a duration. -/
inductive DurationUnit
  /-- Milliseconds. -/
  | ms
  /-- Seconds. -/
  | s
  /-- Minutes. -/
  | m
  /-- Hours. -/
  | h
  deriving DecidableEq, Repr

/-- How a unit is written. -/
def DurationUnit.suffix : DurationUnit → List Char
  | ms => ['m', 's']
  | s => ['s']
  | m => ['m']
  | h => ['h']

/-- The unit in milliseconds. -/
def DurationUnit.factor : DurationUnit → ℕ
  | ms => 1
  | s => 1000
  | m => 60000
  | h => 3600000

/-- Two units of the same length are the same unit. -/
theorem DurationUnit.factor_injective {u v : DurationUnit} (h : u.factor = v.factor) : u = v := by
  cases u <;> cases v <;> first | rfl | exact absurd h (by decide)

/-- A part of a duration: one or more ASCII digits and a unit. -/
structure DurationPart where
  /-- The digits of the number. -/
  digits : List Char
  /-- The unit. -/
  unit : DurationUnit
  /-- There is a digit. -/
  ne_nil : digits ≠ []
  /-- There are only digits. -/
  isDigit : ∀ c ∈ digits, c.isDigit = true

namespace DurationPart

/-- The part as it is written. -/
def chars (p : DurationPart) : List Char := p.digits ++ p.unit.suffix

/-- The number of the part. -/
def number (p : DurationPart) : ℕ := digitsValue p.digits

/-- The part in milliseconds. -/
def millis (p : DurationPart) : ℕ := p.number * p.unit.factor

end DurationPart

/-- The duration that these parts write. -/
def partsChars (parts : List DurationPart) : List Char := parts.flatMap DurationPart.chars

/-- The sum of these parts, in milliseconds. -/
def partsMillis (parts : List DurationPart) : ℕ := (parts.map DurationPart.millis).sum

/-- Every number and every product with its unit is a `u64`, and so is every partial sum that
starts from `total`. -/
def FitsFrom (total : ℕ) (parts : List DurationPart) : Prop :=
  (∀ p ∈ parts, p.number ≤ u64Max ∧ p.millis ≤ u64Max) ∧
    ∀ init, init <+: parts → total + partsMillis init ≤ u64Max

/-! ## The head of the input -/

/-- What may follow the unit `u`: after an `m` there is no `s`, which would make it an `ms`. -/
def DurationUnit.Ends (u : DurationUnit) (rest : List Char) : Prop :=
  u = .m → rest.head? ≠ some 's'

/-- The suffix that the source finds is the one that is written, where what follows does not
change it. -/
theorem durationUnit_suffix {u : DurationUnit} {rest : List Char} (h : u.Ends rest) :
    durationUnit (u.suffix ++ rest) = some (u.factor, rest) := by
  match u, rest, h with
  | .ms, _, _ => rfl
  | .s, _, _ => rfl
  | .h, _, _ => rfl
  | .m, [], _ => rfl
  -- Only `m` can be taken for another unit, with an `s` after it.
  | .m, c :: cs, h =>
    have hc : c ≠ 's' := fun e => h rfl (by rw [e]; rfl)
    simp [DurationUnit.suffix, DurationUnit.factor, durationUnit, hc]

/-- A suffix that the source finds is there. -/
theorem exists_of_durationUnit {cs rest : List Char} {mult : ℕ}
    (h : durationUnit cs = some (mult, rest)) :
    ∃ u : DurationUnit, cs = u.suffix ++ rest ∧ mult = u.factor ∧ u.Ends rest := by
  unfold durationUnit at h
  split at h
  · cases h
    exact ⟨.ms, rfl, rfl, fun e => nomatch e⟩
  · cases h
    exact ⟨.s, rfl, rfl, fun e => nomatch e⟩
  · next cs hms =>
    cases h
    refine ⟨.m, rfl, rfl, fun _ hs => ?_⟩
    obtain ⟨tail, rfl⟩ := List.head?_eq_some_iff.mp hs
    exact hms tail rfl
  · cases h
    exact ⟨.h, rfl, rfl, fun e => nomatch e⟩
  · cases h

/-- No suffix starts with a digit. -/
theorem DurationUnit.takeWhile_suffix (u : DurationUnit) (rest : List Char) :
    (u.suffix ++ rest).takeWhile Char.isDigit = [] ∧
      (u.suffix ++ rest).dropWhile Char.isDigit = u.suffix ++ rest := by
  cases u <;> exact ⟨rfl, rfl⟩

/-- The digits of a part are the digits at the head of the input. -/
theorem DurationPart.takeWhile_chars (p : DurationPart) (rest : List Char) :
    (p.chars ++ rest).takeWhile Char.isDigit = p.digits ∧
      (p.chars ++ rest).dropWhile Char.isDigit = p.unit.suffix ++ rest := by
  obtain ⟨ht, hd⟩ := p.unit.takeWhile_suffix rest
  unfold chars
  rw [List.append_assoc]
  constructor
  · rw [List.takeWhile_append_of_pos p.isDigit, ht, List.append_nil]
  · rw [List.dropWhile_append_of_pos p.isDigit, hd]

/-- Part and remainder are determined by the input. -/
theorem DurationPart.chars_append_inj {p q : DurationPart} {rest rest' : List Char}
    (hp : p.unit.Ends rest) (hq : q.unit.Ends rest')
    (h : p.chars ++ rest = q.chars ++ rest') : p = q ∧ rest = rest' := by
  obtain ⟨htp, hdp⟩ := p.takeWhile_chars rest
  obtain ⟨htq, hdq⟩ := q.takeWhile_chars rest'
  have hdigits : p.digits = q.digits := by rw [← htp, ← htq, h]
  have hunit : durationUnit (p.unit.suffix ++ rest) = durationUnit (q.unit.suffix ++ rest') := by
    rw [← hdp, ← hdq, h]
  -- The source finds the unit of the one and of the other part in the same text.
  rw [durationUnit_suffix hp, durationUnit_suffix hq, Option.some.injEq, Prod.mk.injEq] at hunit
  have hu : p.unit = q.unit := DurationUnit.factor_injective hunit.1
  refine ⟨?_, hunit.2⟩
  cases p
  cases q
  simp_all

/-! ## Decompositions -/

/-- A part starts with a digit. -/
theorem DurationPart.head?_chars (p : DurationPart) (rest : List Char) :
    (p.chars ++ rest).head? ≠ some 's' := by
  intro h
  obtain ⟨c, cs, hc⟩ := List.exists_cons_of_ne_nil p.ne_nil
  have hd : c.isDigit = true := p.isDigit c (by rw [hc]; exact List.mem_cons_self)
  have he : c = 's' := by simpa [chars, hc] using h
  rw [he] at hd
  exact absurd hd (by decide)

/-- Parts may follow any unit. -/
theorem DurationUnit.ends_partsChars (u : DurationUnit) (parts : List DurationPart) :
    u.Ends (partsChars parts) := by
  intro _
  match parts with
  | [] => exact fun h => nomatch h
  | p :: parts => exact p.head?_chars _

/-- A part writes at least one character. -/
theorem DurationPart.length_chars_pos (p : DurationPart) : 0 < p.chars.length := by
  have h := List.length_pos_iff.mpr p.ne_nil
  unfold chars
  rw [List.length_append]
  omega

/-- A string is a chain of parts in at most one way. -/
theorem partsChars_injective :
    ∀ {parts parts' : List DurationPart}, partsChars parts = partsChars parts' → parts = parts'
  | [], [], _ => rfl
  | [], q :: parts', h => by
    have hlen : (partsChars (q :: parts')).length = 0 := by rw [← h]; rfl
    have hq := q.length_chars_pos
    rw [partsChars, List.flatMap_cons, List.length_append] at hlen
    omega
  | p :: parts, [], h => by
    have hlen : (partsChars (p :: parts)).length = 0 := by rw [h]; rfl
    have hp := p.length_chars_pos
    rw [partsChars, List.flatMap_cons, List.length_append] at hlen
    omega
  -- What follows a part is the end or a digit, so that the first parts are the same.
  | p :: parts, q :: parts', h => by
    obtain ⟨hpq, hrest⟩ := DurationPart.chars_append_inj (p.unit.ends_partsChars parts)
      (q.unit.ends_partsChars parts') h
    rw [hpq, partsChars_injective hrest]

/-! ## The loop -/

/-- One iteration of the loop of `parse_duration`: the part at the head of `rest` is added to
`total`. -/
def durationIteration (rest : List Char) (total : ℕ) : Except DurationError (List Char × ℕ) :=
  let digits := rest.takeWhile Char.isDigit
  if digits = [] then .error (.expectedDigit rest)
  else
    let num := digitsValue digits
    if u64Max < num then .error .numberOverflow
    else
      match durationUnit (rest.dropWhile Char.isDigit) with
      | none => .error .unknownSuffix
      | some (mult, rest') =>
        if u64Max < num * mult then .error .overflow
        else if u64Max < total + num * mult then .error .overflow
        else .ok (rest', total + num * mult)

/-- `while !rest.is_empty() { .. }`: from `rest` and `total` the loop ends with this result. -/
inductive DurationLoop : List Char → ℕ → Except DurationError ℕ → Prop
  /-- The input is spent. -/
  | done (total : ℕ) : DurationLoop [] total (.ok total)
  /-- An iteration returns an error. -/
  | fail {rest : List Char} {total : ℕ} {e : DurationError} (hrest : rest ≠ [])
      (h : durationIteration rest total = .error e) : DurationLoop rest total (.error e)
  /-- An iteration goes on with what it leaves. -/
  | next {rest rest' : List Char} {total total' : ℕ} {result : Except DurationError ℕ}
      (hrest : rest ≠ []) (h : durationIteration rest total = .ok (rest', total'))
      (ih : DurationLoop rest' total' result) : DurationLoop rest total result

/-- The loop with fuel does one iteration and goes on. -/
theorem parseDurationLoop_succ {rest : List Char} (hrest : rest ≠ []) (fuel total : ℕ) :
    parseDurationLoop (fuel + 1) rest total =
      (durationIteration rest total).bind fun next => parseDurationLoop fuel next.1 next.2 := by
  obtain ⟨c, cs, rfl⟩ := List.exists_cons_of_ne_nil hrest
  unfold durationIteration
  rw [parseDurationLoop]
  · dsimp only
    split_ifs
    · rfl
    · rfl
    · cases durationUnit ((c :: cs).dropWhile Char.isDigit) with
      | none => rfl
      | some unit =>
        dsimp only
        split_ifs <;> rfl
  · exact fun h => nomatch h

/-- What a successful iteration takes off the input is a part, and the part fits. -/
theorem exists_of_durationIteration {rest rest' : List Char} {total total' : ℕ}
    (h : durationIteration rest total = .ok (rest', total')) :
    ∃ p : DurationPart, rest = p.chars ++ rest' ∧ p.unit.Ends rest' ∧ p.number ≤ u64Max ∧
      p.millis ≤ u64Max ∧ total + p.millis ≤ u64Max ∧ total' = total + p.millis := by
  unfold durationIteration at h
  dsimp only at h
  split_ifs at h with hdigits hnum
  split at h
  · cases h
  next mult tail hunit =>
    split_ifs at h with hmul hadd
    obtain ⟨u, hsuffix, rfl, hends⟩ := exists_of_durationUnit hunit
    cases h
    refine ⟨⟨rest.takeWhile Char.isDigit, u, hdigits, fun c hc => List.mem_takeWhile_imp hc⟩,
      ?_, hends, Nat.le_of_not_lt hnum, Nat.le_of_not_lt hmul, Nat.le_of_not_lt hadd, rfl⟩
    calc rest = rest.takeWhile Char.isDigit ++ rest.dropWhile Char.isDigit :=
          List.takeWhile_append_dropWhile.symm
      _ = (rest.takeWhile Char.isDigit ++ u.suffix) ++ rest' := by
          rw [hsuffix, List.append_assoc]

/-- A part that fits is taken off the front. -/
theorem durationIteration_part {p : DurationPart} {rest : List Char} {total : ℕ}
    (hends : p.unit.Ends rest) (hnum : p.number ≤ u64Max) (hmul : p.millis ≤ u64Max)
    (hadd : total + p.millis ≤ u64Max) :
    durationIteration (p.chars ++ rest) total = .ok (rest, total + p.millis) := by
  obtain ⟨ht, hd⟩ := p.takeWhile_chars rest
  have hn : ¬ u64Max < digitsValue p.digits := Nat.not_lt.mpr hnum
  have hm : ¬ u64Max < digitsValue p.digits * p.unit.factor := Nat.not_lt.mpr hmul
  have ha : ¬ u64Max < total + digitsValue p.digits * p.unit.factor := Nat.not_lt.mpr hadd
  unfold durationIteration
  dsimp only
  rw [ht, hd, durationUnit_suffix hends, if_neg p.ne_nil, if_neg hn]
  dsimp only
  rw [if_neg hm, if_neg ha]
  rfl

/-- An iteration leaves less than it found. -/
theorem length_lt_of_durationIteration {rest rest' : List Char} {total total' : ℕ}
    (h : durationIteration rest total = .ok (rest', total')) : rest'.length < rest.length := by
  obtain ⟨p, rfl, -⟩ := exists_of_durationIteration h
  have hp := p.length_chars_pos
  rw [List.length_append]
  omega

/-- The loop ends, and with as much fuel as there are characters the model's loop ends with the
same result. -/
theorem durationLoop_parseDurationLoop :
    ∀ {fuel : ℕ} {rest : List Char} {total : ℕ}, rest.length ≤ fuel →
      DurationLoop rest total (parseDurationLoop fuel rest total)
  | fuel, [], total, _ => by
    cases fuel <;> exact .done total
  | fuel + 1, c :: cs, total, hfuel => by
    have hne : c :: cs ≠ [] := List.cons_ne_nil c cs
    rw [parseDurationLoop_succ hne]
    cases h : durationIteration (c :: cs) total with
    | error e => exact .fail hne h
    | ok next =>
      -- An iteration takes a part off the front, so that the fuel suffices.
      have hlt : next.1.length < (c :: cs).length := length_lt_of_durationIteration h
      exact .next hne h (durationLoop_parseDurationLoop (by omega))

/-! ## What is accepted -/

/-- The first part of parts that fit. -/
theorem FitsFrom.head {total : ℕ} {p : DurationPart} {parts : List DurationPart}
    (h : FitsFrom total (p :: parts)) :
    p.number ≤ u64Max ∧ p.millis ≤ u64Max ∧ total + p.millis ≤ u64Max := by
  obtain ⟨hnum, hmul⟩ := h.1 p List.mem_cons_self
  have hadd := h.2 [p] ⟨parts, rfl⟩
  exact ⟨hnum, hmul, by simpa [partsMillis] using hadd⟩

/-- Parts fit if the first one does and the others do after it. -/
theorem fitsFrom_cons {total : ℕ} {p : DurationPart} {parts : List DurationPart} :
    FitsFrom total (p :: parts) ↔
      (p.number ≤ u64Max ∧ p.millis ≤ u64Max ∧ total + p.millis ≤ u64Max) ∧
        FitsFrom (total + p.millis) parts := by
  constructor
  · intro h
    refine ⟨h.head, fun q hq => h.1 q (List.mem_cons_of_mem p hq), fun init hinit => ?_⟩
    have hp := h.2 (p :: init) (List.cons_prefix_cons.mpr ⟨rfl, hinit⟩)
    simp only [partsMillis, List.map_cons, List.sum_cons] at hp ⊢
    omega
  · rintro ⟨⟨hnum, hmul, hadd⟩, hparts, hsums⟩
    refine ⟨fun q hq => ?_, fun init hinit => ?_⟩
    · rcases List.mem_cons.mp hq with rfl | hq
      · exact ⟨hnum, hmul⟩
      · exact hparts q hq
    · match init, hinit with
      | [], _ =>
        simp only [partsMillis, List.map_nil, List.sum_nil]
        omega
      | q :: init, hinit =>
        obtain ⟨rfl, htail⟩ := List.cons_prefix_cons.mp hinit
        have hs := hsums init htail
        simp only [partsMillis, List.map_cons, List.sum_cons] at hs ⊢
        omega

/-- A loop that ends with a value has read parts that fit, and the value is their sum. -/
theorem exists_of_durationLoop {rest : List Char} {total value : ℕ}
    (h : DurationLoop rest total (.ok value)) (htotal : total ≤ u64Max) :
    ∃ parts, partsChars parts = rest ∧ FitsFrom total parts ∧
      value = total + partsMillis parts := by
  -- On the iterations; the total so far is within `u64` throughout.
  generalize hr : Except.ok value = result at h
  induction h with
  | done total =>
    cases hr
    refine ⟨[], rfl, ⟨fun p hp => absurd hp List.not_mem_nil, fun init hinit => ?_⟩, rfl⟩
    rw [List.prefix_nil.mp hinit]
    exact htotal
  | fail => cases hr
  | next _ hit _ ih =>
    obtain ⟨p, rfl, _, hnum, hmul, hadd, rfl⟩ := exists_of_durationIteration hit
    obtain ⟨parts, rfl, hfits, rfl⟩ := ih hadd hr
    refine ⟨p :: parts, rfl, fitsFrom_cons.mpr ⟨⟨hnum, hmul, hadd⟩, hfits⟩, ?_⟩
    simp only [partsMillis, List.map_cons, List.sum_cons]
    omega

/-- The loop reads parts that fit and ends with their sum. -/
theorem durationLoop_of_fitsFrom :
    ∀ {parts : List DurationPart} {total : ℕ}, FitsFrom total parts →
      DurationLoop (partsChars parts) total (.ok (total + partsMillis parts))
  | [], total, _ => .done total
  | p :: parts, total, h => by
    obtain ⟨⟨hnum, hmul, hadd⟩, hrest⟩ := fitsFrom_cons.mp h
    have hit := durationIteration_part (p.unit.ends_partsChars parts) hnum hmul hadd
    have hsum : total + partsMillis (p :: parts) = total + p.millis + partsMillis parts := by
      simp only [partsMillis, List.map_cons, List.sum_cons]
      omega
    have hne : partsChars (p :: parts) ≠ [] := by
      have hp := p.length_chars_pos
      rw [← List.length_pos_iff, partsChars, List.flatMap_cons, List.length_append]
      omega
    rw [hsum]
    exact .next hne hit (durationLoop_of_fitsFrom hrest)

/-- For a rest and a total the loop has at most one result. -/
theorem DurationLoop.unique {rest : List Char} {total : ℕ} {r r' : Except DurationError ℕ}
    (h : DurationLoop rest total r) (h' : DurationLoop rest total r') : r = r' := by
  induction h with
  | done total =>
    cases h' with
    | done => rfl
    | fail hne => exact absurd rfl hne
    | next hne => exact absurd rfl hne
  | fail hne hit =>
    cases h' with
    | done => exact absurd rfl hne
    | fail _ hit' =>
      rw [hit] at hit'
      cases hit'
      rfl
    | next _ hit' =>
      rw [hit] at hit'
      cases hit'
  | next hne hit _ ih =>
    cases h' with
    | done => exact absurd rfl hne
    | fail _ hit' =>
      rw [hit] at hit'
      cases hit'
    | next _ hit' hloop =>
      rw [hit] at hit'
      cases hit'
      exact ih hloop

/-- The result of `parse_duration` on a string that is not empty is how its loop ends. -/
theorem durationLoop_parseDuration {s : String} (hne : s.toList ≠ []) :
    DurationLoop s.toList 0 (parseDuration s) := by
  unfold parseDuration
  rw [if_neg hne]
  exact durationLoop_parseDurationLoop le_rfl

/-- `parse_duration` gives a value if and only if its loop does. -/
theorem parseDuration_eq_ok {s : String} {value : ℕ} :
    parseDuration s = .ok value ↔ s.toList ≠ [] ∧ DurationLoop s.toList 0 (.ok value) := by
  constructor
  · intro h
    have hne : s.toList ≠ [] := by
      intro hnil
      unfold parseDuration at h
      rw [if_pos hnil] at h
      cases h
    exact ⟨hne, h ▸ durationLoop_parseDuration hne⟩
  · rintro ⟨hne, hloop⟩
    exact (durationLoop_parseDuration hne).unique hloop

end Vigil
