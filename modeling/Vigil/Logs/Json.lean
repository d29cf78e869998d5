import Mathlib.Data.Bool.AllAny
import Mathlib.Data.Option.Basic
import Vigil.Lib.Json
import Vigil.Logs.Store

/-!
# Log entries in JSON

What `serde_json` makes of a `LogEntry`: an object on a single line with the four fields in order,
the service's and the message's text as literals. `EntryJson` is what is relied on of the crates
that are not part of the repository: chrono's timestamps, which are printable, and a parser that
reads the objects back.
-/

namespace Vigil

open Json (escape unescape)
open Utf8 (Stretched)

/-- A stream's name in JSON. -/
def LogStream.name : LogStream → List Char
  | .stdout => "stdout".toList
  | .stderr => "stderr".toList

namespace LogEntry

/-- What comes before the contents of a field's literal. -/
def fieldStart (name : String) : List Char := '"' :: (name.toList ++ ['"', ':', '"'])

/-- A field of an object, with the contents of its literal. -/
def field (name : String) (text : List Char) : List Char := fieldStart name ++ (text ++ ['"'])

/-- The object of an entry, with the contents of its literals. -/
def object (timestamp service : List Char) (stream : LogStream) (message : List Char) : List Char :=
  '\x7b' :: (field "timestamp" timestamp ++ (',' :: (field "service" service ++
    (',' :: (field "stream" stream.name ++ (',' :: (field "message" message ++ ['\x7d'])))))))

/-- What a field is made of is printable if its text is. -/
theorem le_toNat_of_mem_field {name : String} {text : List Char} {c : Char}
    (hname : ∀ d ∈ name.toList, 0x20 ≤ d.toNat) (htext : ∀ d ∈ text, 0x20 ≤ d.toNat)
    (hc : c ∈ field name text) : 0x20 ≤ c.toNat := by
  simp only [field, fieldStart, List.mem_cons, List.mem_append, List.not_mem_nil, or_false] at hc
  rcases hc with (rfl | hc | rfl | rfl | rfl) | hc | rfl
  · decide
  · exact hname _ hc
  iterate 3 decide
  · exact htext _ hc
  · decide

end LogEntry

/-- `serde_json` and chrono, as far as they deal with log entries. -/
structure EntryJson where
  /-- The contents of a timestamp's literal. -/
  timestamp : ℕ → List Char
  /-- `serde_json::from_str`. -/
  fromStr : List Char → Option LogEntry
  /-- A timestamp is printable and in ASCII. -/
  timestamp_ascii : ∀ n, ∀ c ∈ timestamp n, 0x20 ≤ c.toNat ∧ c.toNat < 0x80
  /-- An entry is read back from its object. -/
  fromStr_object : ∀ entry : LogEntry, fromStr (LogEntry.object (timestamp entry.timestamp)
    (escape entry.service.toList) entry.stream (escape entry.message.toList)) = some entry

namespace EntryJson

variable (J : EntryJson) (entry : LogEntry)

/-- `serde_json::to_string`. -/
def toText : List Char :=
  LogEntry.object (J.timestamp entry.timestamp) (escape entry.service.toList) entry.stream
    (escape entry.message.toList)

/-- An entry is read back from its text. -/
@[simp] theorem fromStr_toText : J.fromStr (J.toText entry) = some entry := J.fromStr_object entry

/-- The text of an entry begins with an opening brace and ends with a closing one. -/
theorem exists_toText_eq : ∃ s, J.toText entry = '\x7b' :: (s ++ ['\x7d']) := by
  refine ⟨LogEntry.field "timestamp" (J.timestamp entry.timestamp) ++ (',' ::
    (LogEntry.field "service" (escape entry.service.toList) ++ (',' ::
      (LogEntry.field "stream" entry.stream.name ++ (',' ::
        LogEntry.field "message" (escape entry.message.toList)))))), ?_⟩
  simp only [toText, LogEntry.object, List.append_assoc, List.cons_append]

/-- Every character of the text is printable. -/
theorem le_toNat_of_mem_toText {c : Char} (hc : c ∈ J.toText entry) : 0x20 ≤ c.toNat := by
  have hescape : ∀ s d, d ∈ escape s → 0x20 ≤ d.toNat := fun s d hd => by
    obtain ⟨c, -, hc⟩ := List.mem_flatMap.mp hd
    exact Json.le_toNat_of_mem_escapeChar hc
  have hstream : ∀ d ∈ entry.stream.name, 0x20 ≤ d.toNat := by
    cases entry.stream <;> exact List.all_iff_forall_prop.mp (by decide)
  simp only [toText, LogEntry.object, List.mem_cons, List.mem_append, List.not_mem_nil,
    or_false] at hc
  rcases hc with rfl | hc | rfl | hc | rfl | hc | rfl | hc | rfl
  · decide
  · exact LogEntry.le_toNat_of_mem_field (List.all_iff_forall_prop.mp (by decide))
      (fun d hd => (J.timestamp_ascii _ d hd).1) hc
  · decide
  · exact LogEntry.le_toNat_of_mem_field (List.all_iff_forall_prop.mp (by decide)) (hescape _) hc
  · decide
  · exact LogEntry.le_toNat_of_mem_field (List.all_iff_forall_prop.mp (by decide)) hstream hc
  · decide
  · exact LogEntry.le_toNat_of_mem_field (List.all_iff_forall_prop.mp (by decide)) (hescape _) hc
  · decide

/-! ## An instance -/

/-- The timestamp of the epoch as chrono writes it, and a stand-in for every other one. -/
def epochText (n : ℕ) : List Char :=
  if n = 0 then "1970-01-01T00:00:00Z".toList else List.replicate n '0'

/-- What `epochText` has written. -/
def parseEpoch (text : List Char) : ℕ :=
  if text = "1970-01-01T00:00:00Z".toList then 0 else text.length

/-- A stream's name, read back. -/
def parseStream (name : List Char) : Option LogStream :=
  if name = "stdout".toList then some .stdout
  else if name = "stderr".toList then some .stderr
  else none

/-- A field of that name, and what follows it. -/
def readField (name : String) (s : List Char) : Option (List Char × List Char) := do
  let rest ← s.dropPrefix? (LogEntry.fieldStart name)
  Json.takeLiteral rest

/-- An object with an entry's fields in order. -/
def parseEntry (s : List Char) : Option LogEntry := do
  let s ← s.dropPrefix? ['\x7b']
  let (timestamp, s) ← readField "timestamp" s
  let (service, s) ← readField "service" (← s.dropPrefix? [','])
  let (stream, s) ← readField "stream" (← s.dropPrefix? [','])
  let (message, s) ← readField "message" (← s.dropPrefix? [','])
  guard (s = ['\x7d'])
  return ⟨parseEpoch timestamp, String.ofList (← unescape service), ← parseStream stream,
    String.ofList (← unescape message)⟩

/-- Dropping the beginning of a text leaves the rest. -/
theorem dropPrefix?_append (p s : List Char) : (p ++ s).dropPrefix? p = some s :=
  List.dropPrefix?_append_of_beq s (beq_self_eq_true p)

/-- A field that has been written is read back. -/
theorem readField_field {name : String} {text rest : List Char}
    (h : Json.takeLiteral (text ++ '"' :: rest) = some (text, rest)) :
    readField name (LogEntry.field name text ++ rest) = some (text, rest) := by
  rw [readField, LogEntry.field, List.append_assoc, List.append_assoc, dropPrefix?_append]
  exact h

/-- A timestamp's text is made of digits and a few other characters. -/
theorem mem_epochText {n : ℕ} {c : Char} (hc : c ∈ epochText n) :
    c ∈ "1970-01-01T00:00:00Z".toList := by
  unfold epochText at hc
  split_ifs at hc
  · exact hc
  · rw [List.eq_of_mem_replicate hc]
    decide

/-- A timestamp that has been written is read back. -/
theorem parseEpoch_epochText (n : ℕ) : parseEpoch (epochText n) = n := by
  unfold parseEpoch epochText
  by_cases hn : n = 0
  · rw [if_pos hn, if_pos rfl, hn]
  · rw [if_neg hn, if_neg, List.length_replicate]
    intro h
    have hmem : 'T' ∈ List.replicate n '0' := by
      rw [h]
      decide
    exact absurd (List.eq_of_mem_replicate hmem) (by decide)

/-- A stream's name that has been written is read back. -/
theorem parseStream_name (stream : LogStream) : parseStream stream.name = some stream := by
  cases stream <;> rfl

/-- An instance, which is right about the epoch. -/
def epoch : EntryJson where
  timestamp := epochText
  fromStr := parseEntry
  timestamp_ascii n c hc := by
    have hall : ∀ d ∈ "1970-01-01T00:00:00Z".toList, 0x20 ≤ d.toNat ∧ d.toNat < 0x80 :=
      List.all_iff_forall_prop.mp (by decide)
    exact hall c (mem_epochText hc)
  fromStr_object entry := by
    have htext : ∀ d ∈ "1970-01-01T00:00:00Z".toList, d ≠ '"' ∧ d ≠ '\\' :=
      List.all_iff_forall_prop.mp (by decide)
    have hname : ∀ d ∈ entry.stream.name, d ≠ '"' ∧ d ≠ '\\' := by
      cases entry.stream <;> exact List.all_iff_forall_prop.mp (by decide)
    have hcomma : ∀ s : List Char, (',' :: s).dropPrefix? [','] = some s := dropPrefix?_append [',']
    have hbrace : ∀ s : List Char, ('\x7b' :: s).dropPrefix? ['\x7b'] = some s :=
      dropPrefix?_append ['\x7b']
    rw [LogEntry.object, parseEntry, hbrace]
    simp only [Option.bind_eq_bind, Option.bind_some, hcomma, readField_field
      (Json.takeLiteral_append (fun c hc => htext c (mem_epochText hc)) _), readField_field
      (Json.takeLiteral_append hname _), readField_field (Json.takeLiteral_escape_append _ _),
      parseEpoch_epochText, parseStream_name, Json.unescape_escape, String.ofList_toList]
    rfl

end EntryJson

end Vigil
