import Vigil.Logs.Follow
import Vigil.Logs.Reader

/-!
# The relay's HTTP sources

`forward_line` and `stream_loop` of `source_http/mod.rs`, which `source_url` and `source_unix`
share: the loop that reads a response line by line and puts what is left of each line on the sink's
channel. One classifier handles both formats of vigild's follow request.
-/

namespace Vigil

open Utf8 (encode)

/-- `LineFilter`. A regular expression is the predicate `is_match`. -/
structure LineFilter where
  includes : List (List Char → Bool) := []
  excludes : List (List Char → Bool) := []

/-- `allow`. -/
def LineFilter.allow (filter : LineFilter) (line : List Char) : Bool :=
  if !filter.includes.isEmpty && !filter.includes.any fun re => re line then false
  else if filter.excludes.any fun re => re line then false
  else true

/-- What `forward_line` hands to `try_send`. -/
def forwardLine (filter : LineFilter) (line : List Char) : Option String :=
  if line.isEmpty || ":".toList.isPrefixOf line then none
  else if "event:".toList.isPrefixOf line || "id:".toList.isPrefixOf line ||
      "retry:".toList.isPrefixOf line then none
  else
    let payload := match line.dropPrefix? "data:".toList with
      | some rest => rest.dropWhile (· = ' ')
      | none => line
    if payload.isEmpty then none
    else if !filter.allow payload then none
    else some (String.ofList (payload ++ ['\n']))

/-- What a call of `stream_loop` has done when it returns. -/
structure Relayed where
  /-- The lines on the sink's channel. -/
  sent : List String := []
  /-- What it returns. -/
  cleanEof : Bool
  deriving DecidableEq

/-- The call with a line before. -/
def Relayed.push (line : Option String) (full : Bool) (r : Relayed) : Relayed :=
  { r with sent := (if full then [] else line.toList) ++ r.sent }

/-- The idle timeout expires during a wait. -/
def idleElapsed (idleTimeoutMs waitMs : ℕ) : Bool := 0 < idleTimeoutMs && idleTimeoutMs < waitMs

/-- `stream_loop`, with the milliseconds for which each call of `next_line` waits, and whether the
channel is full when it has returned. -/
def streamLoop (src : LineSource) (filter : LineFilter) (idleTimeoutMs : ℕ) (full : ℕ → Bool)
    (waits : List ℕ) (bytes : List UInt8) : Relayed :=
  if idleElapsed idleTimeoutMs (waits.headD 0) then { cleanEof := false }
  else
    match h : src.nextLine bytes with
    | .line text rest =>
      (streamLoop src filter idleTimeoutMs (fun i => full (i + 1)) waits.tail rest).push
        (forwardLine filter text.toList) (full 0)
    | .eof => { cleanEof := true }
    | .error => { cleanEof := false }
termination_by bytes.length
decreasing_by exact src.length_lt_of_nextLine h

/-- `stream_loop` on the lines themselves, when the channel is never full. -/
def relayLines (filter : LineFilter) (idleTimeoutMs : ℕ) : List ℕ → List (List Char) → Relayed
  | waits, [] => { cleanEof := !idleElapsed idleTimeoutMs (waits.headD 0) }
  | waits, line :: lines =>
    if idleElapsed idleTimeoutMs (waits.headD 0) then { cleanEof := false }
    else (relayLines filter idleTimeoutMs waits.tail lines).push (forwardLine filter line) false

/-- The bytes of a printable character are not those of a line's end. -/
theorem not_control_of_mem_encode {line : List Char} (h : ∀ c ∈ line, 0x20 ≤ c.toNat) {b : UInt8}
    (hb : b ∈ encode line) : 0x20 ≤ b.toNat := by
  obtain ⟨c, hc, hb⟩ := List.mem_flatMap.mp hb
  by_cases hlt : b.toNat < 0x80
  · rw [← (Utf8.eq_of_mem_utf8EncodeChar hb hlt).2]
    exact h c hc
  · omega

/-- The first line of a text whose first line is printable. -/
theorem splitLine_encode {line : List Char} (h : ∀ c ∈ line, 0x20 ≤ c.toNat) (rest : List Char) :
    splitLine (encode (line ++ '\n' :: rest)) = (encode line, encode rest) := by
  have hnot (b : UInt8) (hb : b.toNat < 0x20) : b ∉ encode line := fun hmem =>
    absurd (not_control_of_mem_encode h hmem) (Nat.not_le.mpr hb)
  have hbytes : encode (line ++ '\n' :: rest) = encode line ++ 10 :: encode rest := by
    rw [Utf8.encode_append]
    rfl
  rw [hbytes, splitLine_append (hnot 10 (by decide)), stripCr_of_notMem (hnot 13 (by decide))]

/-! ## The classifier on vigild's lines -/

section ForwardLine

variable (filter : LineFilter)

/-- An empty line is skipped. -/
@[simp] theorem forwardLine_nil : forwardLine filter [] = none := rfl

/-- Nothing is forwarded for a comment. -/
theorem forwardLine_comment (text : List Char) :
    forwardLine filter (": ".toList ++ text) = none := by
  have hcolon : ":".toList.isPrefixOf (": ".toList ++ text) = true := by
    rw [List.isPrefixOf_iff_prefix]
    exact ⟨' ' :: text, rfl⟩
  rw [forwardLine, hcolon, Bool.or_true, if_pos rfl]

/-- An event's data that begins with a brace is forwarded like a line of its own. -/
theorem forwardLine_data (s : List Char) :
    forwardLine filter ("data: ".toList ++ '\x7b' :: s) = forwardLine filter ('\x7b' :: s) := by
  -- Neither line begins like a comment or another field, and only the first one loses its prefix.
  show (if (!filter.allow ('\x7b' :: s)) = true then none
    else some (String.ofList ('\x7b' :: s ++ ['\n']))) = _
  rfl

end ForwardLine

section StreamLoop

variable (src : LineSource) (filter : LineFilter) (idleTimeoutMs : ℕ)

/-- The loop on the bytes of printable lines is the loop on the lines. -/
theorem streamLoop_textOf (waits : List ℕ) {lines : List (List Char)}
    (h : ∀ line ∈ lines, ∀ c ∈ line, 0x20 ≤ c.toNat) :
    streamLoop src filter idleTimeoutMs (fun _ => false) waits (encode (textOf lines)) =
      relayLines filter idleTimeoutMs waits lines := by
  induction lines generalizing waits with
  | nil =>
    rw [streamLoop, relayLines]
    split_ifs with hidle
    · rw [hidle]
      rfl
    · have hnil : src.nextLine (encode (textOf [])) = .eof := src.nextLine_nil
      split
      · next heq => rw [hnil] at heq; cases heq
      · rw [Bool.not_eq_true] at hidle
        rw [hidle]
        rfl
      · next heq => rw [hnil] at heq; cases heq
  | cons line lines ih =>
    obtain ⟨hline, hlines⟩ := List.forall_mem_cons.mp h
    have htext : textOf (line :: lines) = line ++ '\n' :: textOf lines := by
      simp [textOf]
    have hsplit := splitLine_encode hline (textOf lines)
    rw [← htext] at hsplit
    have hne : encode (textOf (line :: lines)) ≠ [] := by
      rw [htext, Utf8.encode_append]
      exact List.append_ne_nil_of_right_ne_nil _ (List.cons_ne_nil _ _)
    have hdecode : decodeUtf8 (splitLine (encode (textOf (line :: lines)))).1 =
        some (String.ofList line) := by
      rw [hsplit, decodeUtf8_eq_some_iff, String.toList_ofList]
    have hnext := src.nextLine_of_some _ _ hne hdecode
    rw [hsplit] at hnext
    rw [streamLoop, relayLines]
    split_ifs with hidle
    · rfl
    · split
      · next heq =>
        rw [hnext] at heq
        cases heq
        rw [ih _ hlines, String.toList_ofList]
      · next heq => rw [hnext] at heq; cases heq
      · next heq => rw [hnext] at heq; cases heq

end StreamLoop

/-! ## The two formats -/

/-- A part of a response that arrives as a whole, some milliseconds after the part before. -/
structure Part where
  gapMs : ℕ
  lines : List (List Char)

namespace Part

/-- How long each line is waited for, and then the end of the response, if `waitedMs` have passed
since the last line. -/
def waits : ℕ → List Part → ℕ → List ℕ
  | waitedMs, [], endMs => [waitedMs + endMs]
  | waitedMs, ⟨gapMs, lines⟩ :: parts, endMs =>
    match lines with
    | [] => waits (waitedMs + gapMs) parts endMs
    | _ :: later => (waitedMs + gapMs) :: (later.map fun _ => 0) ++ waits 0 parts endMs

/-- The bytes of a response. -/
def bytes (parts : List Part) : List UInt8 := encode (textOf (parts.flatMap lines))

/-- The reader waits somewhere for as long as it has waited already. -/
theorem exists_mem_waits (waitedMs : ℕ) (parts : List Part) (endMs : ℕ) :
    ∃ w ∈ waits waitedMs parts endMs, waitedMs ≤ w := by
  induction parts generalizing waitedMs with
  | nil => exact ⟨_, List.mem_singleton_self _, Nat.le_add_right _ _⟩
  | cons part parts ih =>
    obtain ⟨gapMs, lines⟩ := part
    cases lines with
    | nil =>
      obtain ⟨w, hw, hle⟩ := ih (waitedMs + gapMs)
      exact ⟨w, hw, by omega⟩
    | cons line later => exact ⟨_, List.mem_cons_self, Nat.le_add_right _ _⟩

end Part

/-- A shorter wait does not let the timeout expire either. -/
theorem idleElapsed_eq_false {idleTimeoutMs w v : ℕ} (h : idleElapsed idleTimeoutMs w = false)
    (hle : v ≤ w) : idleElapsed idleTimeoutMs v = false := by
  simp only [idleElapsed, Bool.and_eq_false_iff, decide_eq_false_iff_not] at h ⊢
  omega

section Formats

variable (J : EntryJson) (services : List String) (filter : LineFilter) (idleTimeoutMs : ℕ)

/-- The response in format `json`, of items that come some milliseconds after each other. -/
def sseParts (items : List (ℕ × Followed)) : List Part :=
  items.map fun p => ⟨p.1, p.2.sse J services⟩

/-- The response in format `ndjson`. -/
def ndjsonParts (items : List (ℕ × Followed)) : List Part :=
  items.map fun p => ⟨p.1, p.2.ndjson J services⟩

/-- Two lines that are not waited for too long, the second one empty. -/
theorem relayLines_event {w : ℕ} (h : idleElapsed idleTimeoutMs w = false) (waits : List ℕ)
    (line : List Char) (lines : List (List Char)) :
    relayLines filter idleTimeoutMs (w :: 0 :: waits) (line :: [] :: lines) =
      (relayLines filter idleTimeoutMs waits lines).push (forwardLine filter line) false := by
  have hzero : idleElapsed idleTimeoutMs 0 = false := idleElapsed_eq_false h (Nat.zero_le w)
  rw [relayLines, relayLines]
  simp only [List.headD_cons, List.tail_cons, h, hzero, Bool.false_eq_true, if_false,
    forwardLine_nil]
  rfl

/-- The two formats are relayed alike as long as the reader of the `ndjson` one, which has waited at
least as long, does not lose patience. -/
theorem relayLines_sseParts (items : List (ℕ × Followed)) (endMs : ℕ) {a b : ℕ} (hab : a ≤ b)
    (h : ∀ w ∈ Part.waits b (ndjsonParts J services items) endMs,
      idleElapsed idleTimeoutMs w = false) :
    relayLines filter idleTimeoutMs (Part.waits a (sseParts J services items) endMs)
        ((sseParts J services items).flatMap Part.lines) =
      relayLines filter idleTimeoutMs (Part.waits b (ndjsonParts J services items) endMs)
        ((ndjsonParts J services items).flatMap Part.lines) := by
  induction items generalizing a b with
  | nil =>
    have hb := h _ (List.mem_singleton_self _)
    have ha := idleElapsed_eq_false hb (Nat.add_le_add_right hab endMs)
    simp only [sseParts, ndjsonParts, List.map_nil, Part.waits, List.flatMap_nil, relayLines,
      List.headD_cons, ha, hb]
  | cons p items ih =>
    obtain ⟨gapMs, item⟩ := p
    have hgap : a + gapMs ≤ b + gapMs := Nat.add_le_add_right hab gapMs
    rw [sseParts, ndjsonParts, List.map_cons, List.map_cons, ← sseParts, ← ndjsonParts] at *
    rcases item.cases_of_selected? J services with ⟨-, hsse, hnd⟩ | ⟨-, hnd, text, -, hsse⟩ |
      ⟨e, -, hnd, hsse⟩
    · simp only [hsse, hnd, Part.waits, List.flatMap_cons, List.nil_append] at h ⊢
      exact ih hgap h
    · -- The comment wakes the reader of the events only.
      simp only [hsse, hnd, Part.waits, List.flatMap_cons, List.nil_append] at h ⊢
      obtain ⟨w, hw, hle⟩ := Part.exists_mem_waits (b + gapMs) (ndjsonParts J services items) endMs
      have ha := idleElapsed_eq_false (h w hw) (hgap.trans hle)
      show relayLines filter idleTimeoutMs (_ :: 0 :: _) (_ :: [] :: _) = _
      rw [relayLines_event filter idleTimeoutMs ha, forwardLine_comment]
      exact ih (Nat.zero_le _) h
    · simp only [hsse, hnd, Part.waits, List.flatMap_cons, List.map_nil, List.cons_append,
        List.nil_append] at h ⊢
      obtain ⟨hb, hrest⟩ := List.forall_mem_cons.mp h
      have ha := idleElapsed_eq_false hb hgap
      obtain ⟨s, hs⟩ := J.exists_toText_eq e
      show relayLines filter idleTimeoutMs (_ :: 0 :: _) (_ :: [] :: _) = _
      rw [relayLines_event filter idleTimeoutMs ha, relayLines, hs, forwardLine_data]
      simp only [List.headD_cons, hb, Bool.false_eq_true, if_false, List.tail_cons]
      exact congrArg (Relayed.push _ false) (ih (Nat.le_refl 0) hrest)

/-- The lines of the SSE response are printable. -/
theorem le_toNat_of_mem_sseParts {items : List (ℕ × Followed)} :
    ∀ line ∈ (sseParts J services items).flatMap Part.lines, ∀ c ∈ line, 0x20 ≤ c.toNat := by
  intro line hline c hc
  obtain ⟨part, hpart, hline⟩ := List.mem_flatMap.mp hline
  obtain ⟨p, -, rfl⟩ := List.mem_map.mp hpart
  exact Followed.le_toNat_of_mem_sse J services hline hc

/-- The lines of the `ndjson` response are printable. -/
theorem le_toNat_of_mem_ndjsonParts {items : List (ℕ × Followed)} :
    ∀ line ∈ (ndjsonParts J services items).flatMap Part.lines, ∀ c ∈ line, 0x20 ≤ c.toNat := by
  intro line hline c hc
  obtain ⟨part, hpart, hline⟩ := List.mem_flatMap.mp hline
  obtain ⟨p, -, rfl⟩ := List.mem_map.mp hpart
  exact Followed.le_toNat_of_mem_ndjson J services hline hc

/-- `stream_loop` on a response, when the channel is never full. -/
def relay (src : LineSource) (parts : List Part) (endMs : ℕ) : Relayed :=
  streamLoop src filter idleTimeoutMs (fun _ => false) (Part.waits 0 parts endMs)
    (Part.bytes parts)

/-- The idle timeout does not expire while the response is read. -/
def Patient (parts : List Part) (endMs : ℕ) : Prop :=
  ∀ w ∈ Part.waits 0 parts endMs, idleElapsed idleTimeoutMs w = false

instance (parts : List Part) (endMs : ℕ) : Decidable (Patient idleTimeoutMs parts endMs) :=
  List.decidableBAll _ _

/-- The relay puts the same lines on the sink's channel, in the same order, whether it follows in
format `json` or in format `ndjson`, unless its idle timeout expires while it reads the latter. -/
theorem relay_sse_eq_relay_ndjson (src : LineSource) (items : List (ℕ × Followed)) (endMs : ℕ)
    (h : Patient idleTimeoutMs (ndjsonParts J services items) endMs) :
    relay filter idleTimeoutMs src (sseParts J services items) endMs =
      relay filter idleTimeoutMs src (ndjsonParts J services items) endMs := by
  unfold relay Part.bytes
  rw [streamLoop_textOf _ _ _ _ (le_toNat_of_mem_sseParts J services),
    streamLoop_textOf _ _ _ _ (le_toNat_of_mem_ndjsonParts J services)]
  exact relayLines_sseParts J services filter idleTimeoutMs items endMs (Nat.le_refl 0) h

end Formats

/-- An entry, a lag, a comment while nothing happens, and another entry. -/
def quietItems : List (ℕ × Followed) :=
  [(0, .entry ⟨0, "web", .stdout, "up"⟩), (0, .lagged 3), (15000, .keepAlive),
    (10000, .entry ⟨0, "web", .stderr, "data: é"⟩)]

/-- With an idle timeout of half a minute, both entries are relayed in both formats. -/
theorem relay_sse_eq_relay_ndjson_quiet :
    relay {} 30000 .documented (sseParts .epoch ["web"] quietItems) 0 =
      relay {} 30000 .documented (ndjsonParts .epoch ["web"] quietItems) 0 :=
  relay_sse_eq_relay_ndjson .epoch ["web"] {} 30000 .documented quietItems 0 (by decide)

/-- With one of twenty seconds, only the comment keeps the relay from giving up before the second
entry, and in format `ndjson` there is none. -/
theorem relay_sse_ne_relay_ndjson :
    (relay {} 20000 .documented (sseParts .epoch ["web"] quietItems) 0).sent ≠
      (relay {} 20000 .documented (ndjsonParts .epoch ["web"] quietItems) 0).sent := by
  unfold relay Part.bytes
  rw [streamLoop_textOf _ _ _ _ (le_toNat_of_mem_sseParts _ _),
    streamLoop_textOf _ _ _ _ (le_toNat_of_mem_ndjsonParts _ _)]
  decide +kernel

end Vigil
