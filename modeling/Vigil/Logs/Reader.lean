import Mathlib.Data.List.TakeWhile
import Vigil.Lib.Utf8
import Vigil.Logs.Store

/-!
# The log reader

`spawn_reader` of `logs/reader.rs`: the task that reads a service's stream line by line and pushes
an entry for each line. The loop runs while `next_line` returns a line. It ends at the end of the
stream, and it ends in the same way at an error, which `next_line` returns for a line that is not
UTF-8: that line and all later ones are lost, and the service writes into a closed pipe.
`complete_spawnReader_iff` says that the reader is complete on exactly the streams whose lines are
all UTF-8.
-/

namespace Vigil

/-- The text of the bytes, if they are UTF-8. -/
def decodeUtf8 (bytes : List UInt8) : Option String := String.fromUTF8? ⟨bytes.toArray⟩

/-- The text of some bytes is the one that has them. -/
theorem decodeUtf8_eq_some_iff {bytes : List UInt8} {text : String} :
    decodeUtf8 bytes = some text ↔ bytes = Utf8.encode text.toList := by
  have hbytes : (⟨bytes.toArray⟩ : ByteArray) = text.toByteArray ↔
      bytes = Utf8.encode text.toList := by
    rw [← String.utf8Encode_toList, List.utf8Encode, ByteArray.ext_iff, List.data_toByteArray]
    simp [Utf8.encode]
  rw [← hbytes]
  unfold decodeUtf8 String.fromUTF8?
  constructor
  · intro h
    split at h
    · obtain rfl := Option.some.inj h
      rfl
    · exact absurd h (by simp)
  · intro h
    rw [h, dif_pos text.isValidUTF8]
    rfl

/-- A text before some bytes makes no difference to whether these are UTF-8. -/
theorem decodeUtf8_encode_append (cs : List Char) (bytes : List UInt8) :
    decodeUtf8 (Utf8.encode cs ++ bytes) =
      (decodeUtf8 bytes).map fun text => String.ofList (cs ++ text.toList) := by
  cases hd : decodeUtf8 bytes with
  | some text =>
    rw [Option.map_some, decodeUtf8_eq_some_iff, decodeUtf8_eq_some_iff.mp hd,
      String.toList_ofList, Utf8.encode_append]
  | none =>
    rw [Option.map_none, Option.eq_none_iff_forall_ne_some]
    intro text htext
    rw [decodeUtf8_eq_some_iff] at htext
    -- The rest of the text would be that of the bytes.
    have htail := congrArg Utf8.lossy htext
    rw [Utf8.lossy_encode, Utf8.lossy_encode_append] at htail
    rw [← htail, Utf8.encode_append, List.append_cancel_left_eq] at htext
    have hsome : decodeUtf8 bytes = some (String.ofList (Utf8.lossy bytes)) :=
      decodeUtf8_eq_some_iff.mpr (by rw [String.toList_ofList]; exact htext)
    rw [hd] at hsome
    cases hsome

/-- The carriage return before a newline is not part of the line. -/
def stripCr (text : List UInt8) : List UInt8 :=
  if text.getLast? = some 13 then text.dropLast else text

/-- The first line of a stream and what follows it. The last line may lack its newline, and is then
taken as it is. -/
def splitLine (bytes : List UInt8) : List UInt8 × List UInt8 :=
  match bytes.dropWhile (· ≠ 10) with
  | [] => (bytes, [])
  | _ :: rest => (stripCr (bytes.takeWhile (· ≠ 10)), rest)

/-- A line that does not end in a carriage return is not shortened. -/
theorem stripCr_of_notMem {text : List UInt8} (h : 13 ∉ text) : stripCr text = text :=
  if_neg fun hlast => h (List.mem_of_getLast? hlast)

/-- A carriage return is taken off at the end only. -/
theorem stripCr_append {text : List UInt8} (h : 13 ∉ text) (rest : List UInt8) :
    stripCr (text ++ rest) = text ++ stripCr rest := by
  cases rest with
  | nil =>
    rw [List.append_nil, stripCr_of_notMem h]
    exact (List.append_nil text).symm
  | cons b rest =>
    have hne := List.cons_ne_nil b rest
    unfold stripCr
    rw [List.getLast?_append_of_ne_nil _ hne]
    split_ifs
    · rw [List.dropLast_append_of_ne_nil hne]
    · rfl

/-- A line whose newline has come, and what has come behind it. -/
theorem splitLine_append {line rest : List UInt8} (h : 10 ∉ line) :
    splitLine (line ++ 10 :: rest) = (stripCr line, rest) := by
  have hne : ∀ b ∈ line, decide (b ≠ 10) = true := fun b hb => decide_eq_true fun heq =>
    h (heq ▸ hb)
  unfold splitLine
  rw [List.dropWhile_append_of_pos hne, List.takeWhile_append_of_pos hne]
  simp

/-- What follows a line is shorter than the bytes with it. -/
theorem length_splitLine_lt {bytes : List UInt8} (h : bytes ≠ []) :
    (splitLine bytes).2.length < bytes.length := by
  unfold splitLine
  have hle := (List.dropWhile_suffix (fun b : UInt8 => decide (b ≠ 10)) (l := bytes)).length_le
  split
  · exact List.length_pos_iff.mpr h
  · next heq =>
    rw [heq, List.length_cons] at hle
    exact hle

/-- The lines of a stream. -/
def streamLines (bytes : List UInt8) : List (List UInt8) :=
  if _h : bytes = [] then []
  else (splitLine bytes).1 :: streamLines (splitLine bytes).2
termination_by bytes.length
decreasing_by exact length_splitLine_lt _h

/-- An empty stream has no lines. -/
@[simp] theorem streamLines_nil : streamLines [] = [] := by
  rw [streamLines, dif_pos rfl]

/-- The lines of a stream are its first line and those of what follows it. -/
theorem streamLines_of_ne_nil {bytes : List UInt8} (h : bytes ≠ []) :
    streamLines bytes = (splitLine bytes).1 :: streamLines (splitLine bytes).2 := by
  rw [streamLines, dif_neg h]

/-- What `next_line` returns. -/
inductive NextLine
  /-- `Ok(Some(line))`, and the bytes that are left. -/
  | line (text : String) (rest : List UInt8)
  /-- `Ok(None)`. -/
  | eof
  /-- An error. -/
  | error

/-- `next_line` of tokio's `Lines`, as it is documented: a function of the bytes that the service
has yet to be read, up to the end of its stream. -/
structure LineSource where
  nextLine : List UInt8 → NextLine
  /-- The stream has ended. -/
  nextLine_nil : nextLine [] = .eof
  /-- A line that is UTF-8 is returned. -/
  nextLine_of_some : ∀ bytes text, bytes ≠ [] → decodeUtf8 (splitLine bytes).1 = some text →
    nextLine bytes = .line text (splitLine bytes).2
  /-- A line that is not UTF-8 is an error. -/
  nextLine_of_none : ∀ bytes, bytes ≠ [] → decodeUtf8 (splitLine bytes).1 = none →
    nextLine bytes = .error

namespace LineSource

/-- The source that does what is documented and no more. -/
def documented : LineSource where
  nextLine bytes :=
    if bytes = [] then .eof
    else
      match decodeUtf8 (splitLine bytes).1 with
      | some text => .line text (splitLine bytes).2
      | none => .error
  nextLine_nil := rfl
  nextLine_of_some bytes text h ht := by rw [if_neg h, ht]
  nextLine_of_none bytes h ht := by rw [if_neg h, ht]

variable (src : LineSource)

/-- What is left after a line is shorter. -/
theorem length_lt_of_nextLine {bytes rest : List UInt8} {text : String}
    (h : src.nextLine bytes = .line text rest) : rest.length < bytes.length := by
  by_cases hnil : bytes = []
  · rw [hnil, src.nextLine_nil] at h
    cases h
  · cases hd : decodeUtf8 (splitLine bytes).1 with
    | none =>
      rw [src.nextLine_of_none _ hnil hd] at h
      cases h
    | some text' =>
      rw [src.nextLine_of_some _ _ hnil hd] at h
      cases h
      exact length_splitLine_lt hnil

end LineSource

/-- What a reader task has done when it ends. -/
structure Reading where
  /-- The entries that it has pushed, in order. -/
  pushed : List LogEntry := []
  /-- The lines that it has printed to the daemon's stream of the same kind. -/
  mirrored : List String := []
  /-- The bytes of the stream that it has not turned into entries. -/
  unread : List UInt8 := []

/-- The task of `spawn_reader`. The clock gives the time of each push. -/
def spawnReader (src : LineSource) (service : String) (stream : LogStream) (forward : Bool)
    (clock : ℕ → ℕ) (n : ℕ) (bytes : List UInt8) : Reading :=
  match h : src.nextLine bytes with
  | .line text rest =>
    let r := spawnReader src service stream forward clock (n + 1) rest
    { pushed := ⟨clock n, service, stream, text⟩ :: r.pushed
      mirrored := (if forward then ["[" ++ service ++ "] " ++ text] else []) ++ r.mirrored
      unread := r.unread }
  -- `while let Ok(Some(line))` does not tell the two apart.
  | .eof => { unread := bytes }
  | .error => { unread := bytes }
termination_by bytes.length
decreasing_by exact src.length_lt_of_nextLine h

/-- The entry is one for the line of the stream. The text of a line that is not UTF-8 is open. -/
def LogEntry.IsOf (service : String) (stream : LogStream) (entry : LogEntry) (line : List UInt8) :
    Prop :=
  entry.service = service ∧ entry.stream = stream ∧
    ∀ text, decodeUtf8 line = some text → entry.message = text

/-- The reader has read a stream to its end and pushed one entry for each of its lines, in order. -/
def Reading.Complete (service : String) (stream : LogStream) (bytes : List UInt8) (r : Reading) :
    Prop :=
  r.unread = [] ∧ List.Forall₂ (LogEntry.IsOf service stream) r.pushed (streamLines bytes)

variable (src : LineSource) (service : String) (stream : LogStream) (forward : Bool)
  (clock : ℕ → ℕ)

/-- The reader's task at the end of the stream. -/
theorem spawnReader_nil (n : ℕ) : spawnReader src service stream forward clock n [] = {} := by
  rw [spawnReader]
  split
  · next h => rw [src.nextLine_nil] at h; cases h
  · rfl
  · rfl

/-- The reader's task at a line that is UTF-8. -/
theorem spawnReader_of_some {bytes : List UInt8} {text : String} (h : bytes ≠ [])
    (ht : decodeUtf8 (splitLine bytes).1 = some text) (n : ℕ) {r : Reading}
    (hr : spawnReader src service stream forward clock (n + 1) (splitLine bytes).2 = r) :
    (spawnReader src service stream forward clock n bytes).pushed =
        ⟨clock n, service, stream, text⟩ :: r.pushed ∧
      (spawnReader src service stream forward clock n bytes).unread = r.unread := by
  have hline := src.nextLine_of_some _ _ h ht
  subst hr
  rw [spawnReader.eq_def src service stream forward clock n bytes]
  split
  · next heq =>
    rw [hline] at heq
    cases heq
    exact ⟨rfl, rfl⟩
  · next heq => rw [hline] at heq; cases heq
  · next heq => rw [hline] at heq; cases heq

/-- The reader's task at a line that is not UTF-8. -/
theorem unread_spawnReader_of_none {bytes : List UInt8} (h : bytes ≠ [])
    (ht : decodeUtf8 (splitLine bytes).1 = none) (n : ℕ) :
    (spawnReader src service stream forward clock n bytes).unread = bytes := by
  have herror := src.nextLine_of_none _ h ht
  rw [spawnReader]
  split
  · next heq => rw [herror] at heq; cases heq
  · rfl
  · rfl

/-- The reader reads a stream to its end, and pushes one entry for each of its lines in order,
exactly when every line is UTF-8. -/
theorem complete_spawnReader_iff (n : ℕ) (bytes : List UInt8) :
    (spawnReader src service stream forward clock n bytes).Complete service stream bytes ↔
      ∀ line ∈ streamLines bytes, decodeUtf8 line ≠ none := by
  -- By induction on the stream, a line at a time.
  induction hlen : bytes.length using Nat.strong_induction_on generalizing bytes n with
  | _ len ih =>
    subst hlen
    by_cases hnil : bytes = []
    · subst hnil
      simp [Reading.Complete, spawnReader_nil]
    · rw [streamLines_of_ne_nil hnil, List.forall_mem_cons]
      cases hd : decodeUtf8 (splitLine bytes).1 with
      | none =>
        have hunread := unread_spawnReader_of_none src service stream forward clock hnil hd n
        simp [Reading.Complete, hunread, hnil]
      | some text =>
        obtain ⟨hpushed, hunread⟩ :=
          spawnReader_of_some src service stream forward clock hnil hd n rfl
        have hrest := ih _ (length_splitLine_lt hnil) (n + 1) _ rfl
        have hhead : LogEntry.IsOf service stream ⟨clock n, service, stream, text⟩
            (splitLine bytes).1 :=
          ⟨rfl, rfl, fun text' h => Option.some.inj (hd.symm.trans h)⟩
        have hstep : (spawnReader src service stream forward clock n bytes).Complete service stream
              bytes ↔
            (spawnReader src service stream forward clock (n + 1) (splitLine bytes).2).Complete
              service stream (splitLine bytes).2 := by
          unfold Reading.Complete
          rw [hpushed, hunread, streamLines_of_ne_nil hnil, List.forall₂_cons]
          exact and_congr_right fun _ => and_iff_right hhead
        rw [hstep, hrest]
        simp

/-- A byte that starts no UTF-8 character makes the reader lose its line and the one after it. -/
theorem not_complete_spawnReader :
    ¬(spawnReader .documented "a" .stdout false id 0 [0xff, 10, 0x61, 10]).Complete "a" .stdout
      [0xff, 10, 0x61, 10] := by
  have hd : decodeUtf8 (splitLine [0xff, 10, 0x61, 10]).1 = none := by decide +kernel
  intro h
  have hunread := unread_spawnReader_of_none .documented "a" .stdout false id (by decide) hd 0
  exact absurd (hunread.symm.trans h.1) (by decide)

end Vigil
