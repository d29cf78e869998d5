import Mathlib.Data.Bool.AllAny
import Vigil.Logs.Json

/-!
# The follow request

`follow_logs` of `api/handlers/logs.rs`: what a follower of the log store makes of what it is given,
as server-sent events and as one object on each line. axum writes an event as a line and an empty
line after it. No line has a control character, so no line can be taken for two.
-/

namespace Vigil

/-- What a follower of the log store is given. -/
inductive Followed
  /-- `Ok(entry)`. -/
  | entry (entry : LogEntry)
  /-- `Err(Lagged(skipped))`. -/
  | lagged (skipped : ℕ)
  /-- The interval of `KeepAlive` has passed. -/
  | keepAlive
  deriving DecidableEq

/-- An event of axum's `sse`. -/
inductive SseEvent
  | data (text : List Char)
  | comment (text : List Char)

/-- The lines of an event, of which the last one is empty. -/
def SseEvent.lines : SseEvent → List (List Char)
  | .data text => ["data: ".toList ++ text, []]
  | .comment text => [": ".toList ++ text, []]

/-- The text of some lines. -/
def textOf (lines : List (List Char)) : List Char := lines.flatMap (· ++ ['\n'])

/-- The text of some lines and of others is that of all of them. -/
theorem textOf_append (lines lines' : List (List Char)) :
    textOf (lines ++ lines') = textOf lines ++ textOf lines' := List.flatMap_append

namespace Followed

variable (J : EntryJson) (services : List String)

/-- The condition of `filter_map` on an entry. -/
def selects (e : LogEntry) : Bool := services.isEmpty || services.contains e.service

/-- What a lag is announced with. -/
def lagText (skipped : ℕ) : List Char :=
  "lagged: skipped ".toList ++ (skipped.repr.toList ++ " entries".toList)

/-- The event of the SSE stream in format `json`. -/
def event : Followed → Option SseEvent
  | .entry e => if selects services e then some (.data (J.toText e)) else none
  | .lagged skipped => some (.comment (lagText skipped))
  | .keepAlive => some (.comment "ping".toList)

/-- The lines of the SSE stream in format `json`. -/
def sse (item : Followed) : List (List Char) :=
  match item.event J services with
  | some event => event.lines
  | none => []

/-- The lines of the stream in format `ndjson`. -/
def ndjson : Followed → List (List Char)
  | .entry e => if selects services e then [J.toText e] else []
  | _ => []

/-- The entry, if it is selected. -/
def selected? : Followed → Option LogEntry
  | .entry e => if selects services e then some e else none
  | _ => none

/-- The announcement of a lag is printable and in ASCII. -/
theorem ascii_lagText {skipped : ℕ} {c : Char} (hc : c ∈ lagText skipped) :
    0x20 ≤ c.toNat ∧ c.toNat < 0x80 := by
  have hlit : ∀ d ∈ "lagged: skipped ".toList ++ " entries".toList,
      0x20 ≤ d.toNat ∧ d.toNat < 0x80 := List.all_iff_forall_prop.mp (by decide)
  rcases List.mem_append.mp hc with hc | hc
  · exact hlit c (List.mem_append_left _ hc)
  · rcases List.mem_append.mp hc with hc | hc
    · rw [Nat.toList_repr] at hc
      have hdigit := Nat.isDigit_of_mem_toDigits (by decide) (by decide) hc
      simp only [Char.isDigit, Bool.and_eq_true, decide_eq_true_eq] at hdigit
      have hlo : 48 ≤ c.toNat := UInt32.le_iff_toNat_le.mp hdigit.1
      have hhi : c.toNat ≤ 57 := UInt32.le_iff_toNat_le.mp hdigit.2
      omega
    · exact hlit c (List.mem_append_right _ hc)

/-- What a follower is given: nothing to pass on, something that only the SSE stream mentions, or an
entry. -/
theorem cases_of_selected? (item : Followed) :
    (item.selected? services = none ∧ item.sse J services = [] ∧ item.ndjson J services = []) ∨
      (item.selected? services = none ∧ item.ndjson J services = [] ∧
        ∃ text, (∀ c ∈ text, 0x20 ≤ c.toNat ∧ c.toNat < 0x80) ∧
          item.sse J services = [": ".toList ++ text, []]) ∨
      ∃ e, item.selected? services = some e ∧ item.ndjson J services = [J.toText e] ∧
        item.sse J services = ["data: ".toList ++ J.toText e, []] := by
  cases item with
  | entry e =>
    by_cases h : selects services e = true
    · exact .inr (.inr ⟨e, by simp [selected?, h], by simp [ndjson, h],
        by simp only [sse, event, if_pos h, SseEvent.lines]⟩)
    · exact .inl ⟨by simp [selected?, h], by simp only [sse, event, if_neg h], by simp [ndjson, h]⟩
  | lagged skipped =>
    exact .inr (.inl ⟨rfl, rfl, lagText skipped, fun c hc => ascii_lagText hc, rfl⟩)
  | keepAlive =>
    exact .inr (.inl ⟨rfl, rfl, "ping".toList, List.all_iff_forall_prop.mp (by decide), rfl⟩)

/-- The lines of the SSE stream are printable. -/
theorem le_toNat_of_mem_sse {item : Followed} {line : List Char} (hl : line ∈ item.sse J services)
    {c : Char} (hc : c ∈ line) : 0x20 ≤ c.toNat := by
  have hdata : ∀ d ∈ "data: ".toList, 0x20 ≤ d.toNat := List.all_iff_forall_prop.mp (by decide)
  have hcomment : ∀ d ∈ ": ".toList, 0x20 ≤ d.toNat := List.all_iff_forall_prop.mp (by decide)
  rcases cases_of_selected? J services item with ⟨-, h, -⟩ | ⟨-, -, text, htext, h⟩ | ⟨e, -, -, h⟩
  · simp [h] at hl
  · rw [h] at hl
    rcases List.mem_cons.mp hl with rfl | hl
    · rcases List.mem_append.mp hc with hc | hc
      · exact hcomment c hc
      · exact (htext c hc).1
    · simp [List.mem_singleton.mp hl] at hc
  · rw [h] at hl
    rcases List.mem_cons.mp hl with rfl | hl
    · rcases List.mem_append.mp hc with hc | hc
      · exact hdata c hc
      · exact J.le_toNat_of_mem_toText e hc
    · simp [List.mem_singleton.mp hl] at hc

/-- The lines of the `ndjson` stream are printable. -/
theorem le_toNat_of_mem_ndjson {item : Followed} {line : List Char}
    (hl : line ∈ item.ndjson J services) {c : Char} (hc : c ∈ line) : 0x20 ≤ c.toNat := by
  rcases cases_of_selected? J services item with ⟨-, -, h⟩ | ⟨-, h, -⟩ | ⟨e, -, h, -⟩
  · simp [h] at hl
  · simp [h] at hl
  · rw [h] at hl
    rw [List.mem_singleton.mp hl] at hc
    exact J.le_toNat_of_mem_toText e hc

end Followed

end Vigil
