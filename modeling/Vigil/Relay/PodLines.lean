import Mathlib.Data.Char
import Mathlib.Data.List.Lex
import Mathlib.Tactic.Linarith
import Vigil.Lib.Records
import Vigil.Lib.Rfc3339
import Vigil.Lib.Text
import Vigil.Relay.Pods
import Vigil.Relay.Source

/-!
# The lines of a pod's container

`stream_pod` and `log_url` of `source_k8s/stream.rs`, and `stream_params` of `source_k8s/mod.rs`. A
session is one request for the log of a container. The API server answers it with the lines from
some time back on and with those that are written later, until the stream ends, and the relay begins
the next session at a tick.

`stream_pod` reads the bytes of a session line by line, and ends at a line that is not UTF-8, which
`next_line` returns an error for: that line and those behind it in the session are lost. It forwards
a line only if its timestamp, compared as text, is greater than that of the last line that it has
forwarded in the session. `relayed_iff` says when the lines that the filter allows are forwarded
each once and in order. No line may be lost at the end of a session, or behind a line that is not
UTF-8, unless the next session delivers it. The lines that a session is the first to deliver have to
be printed with increasing timestamps, and those that the next session delivers again with none that
is greater than the last of these.
-/

namespace Vigil

open Records Rfc3339 Text
open Utf8 (encode)

/-! ## The functions of the source -/

/-- What `stream_pod` is called with, besides the request and the filter. -/
structure PodStream where
  ns : String
  pod : String
  container : Option String
  stream : StreamName
  deriving DecidableEq, Repr

/-- `LogEntry`. -/
structure PodLogEntry where
  timestamp : List Char
  /-- `namespace`, `pod`, `container`, and `stream`. -/
  source : PodStream
  message : List Char
  deriving DecidableEq, Repr

/-- The loop of `stream_pod`, with the bytes of the stream up to its end, and whether the channel is
full when each of the lines arrives. -/
def streamPodLoop (lines : LineSource) (src : PodStream) (filter : LineFilter) (full : ℕ → Bool)
    (lastTs : List Char) (bytes : List UInt8) : List PodLogEntry :=
  match _h : lines.nextLine bytes with
  | .line line rest =>
    let (ts, msg) := (splitOnce ' ' line.toList).getD (line.toList, [])
    let full' := fun i => full (i + 1)
    -- Duplicate or out-of-order.
    if ts ≤ lastTs then streamPodLoop lines src filter full' lastTs rest
    else if !filter.allow msg then streamPodLoop lines src filter full' lastTs rest
    else (if full 0 then [] else [⟨ts, src, msg⟩]) ++
      streamPodLoop lines src filter full' ts rest
  -- Either of the two breaks off, whatever is left of the stream.
  | .eof => []
  | .error => []
termination_by bytes.length
decreasing_by all_goals exact lines.length_lt_of_nextLine _h

/-- `stream_pod`, from when the request has been answered. -/
def streamPod (lines : LineSource) (src : PodStream) (filter : LineFilter) (full : ℕ → Bool)
    (bytes : List UInt8) : List PodLogEntry :=
  streamPodLoop lines src filter full [] bytes

/-- `stream_params`: the tail lines and the seconds back for a stream of a pod that has been
streamed before or has not. -/
def streamParams (initialized : Bool) (tailLines sinceSeconds : Int) : Int × Int :=
  if initialized then (0, sinceSeconds) else (tailLines, sinceSeconds)

/-- The pod source starts a stream with what `stream_params` gives. -/
theorem PodSource.startOf_eq (cfg : PodConfig) (s : PodSource) (pod container : String) :
    ((s.startOf cfg pod container).tailLines, (s.startOf cfg pod container).sinceSeconds) =
      streamParams (pod ∈ s.initialized) cfg.tailLines cfg.sinceSeconds := by
  unfold startOf streamParams
  by_cases h : pod ∈ s.initialized <;> simp [h]

/-- How far back a request asks. -/
inductive LogRange
  /-- `&tailLines=..` -/
  | tail (lines : ℕ)
  /-- `&sinceSeconds=..` -/
  | since (seconds : ℕ)
  /-- Neither of the two. -/
  | all
  deriving DecidableEq, Repr

/-- The parameter that `log_url` adds for it. -/
def logRange (tailLines sinceSeconds : Int) : LogRange :=
  if 0 < tailLines then .tail tailLines.toNat
  else if 0 < sinceSeconds then .since sinceSeconds.toNat
  else .all

/-- The text of the parameter. -/
def LogRange.param : LogRange → String
  | .tail lines => "&tailLines=" ++ toString lines
  | .since seconds => "&sinceSeconds=" ++ toString seconds
  | .all => ""

/-- `log_url`. -/
def logUrl (ns pod containerKey : String) (tailLines sinceSeconds : Int) (stream : Option String) :
    String :=
  "/api/v1/namespaces/" ++ ns ++ "/pods/" ++ pod ++ "/log?follow=true&timestamps=true" ++
    (if containerKey = "" then "" else "&container=" ++ containerKey) ++
    (logRange tailLines sinceSeconds).param ++
    (match stream with
      | some s => "&stream=" ++ s
      | none => "")

/-! ## The API server -/

/-- A line of a container's log. -/
structure PodLine where
  stamp : Stamp
  /-- What the container has written, up to the newline. -/
  message : List UInt8
  deriving DecidableEq, Repr

namespace PodLine

/-- The line as the server sends it, up to the newline. -/
def sent (l : PodLine) : List UInt8 := encode (l.stamp.print ++ [' ']) ++ l.message

/-- The bytes of a stream of lines. -/
def stream (lines : List PodLine) : List UInt8 := lines.flatMap fun l => l.sent ++ [10]

/-- The message, without a carriage return before the newline. -/
def content (l : PodLine) : List UInt8 := stripCr l.message

/-- The line without its end, which is a newline with or without a carriage return. -/
def line (l : PodLine) : List UInt8 := encode (l.stamp.print ++ [' ']) ++ l.content

/-- The line is UTF-8. -/
def isUtf8 (l : PodLine) : Bool := (decodeUtf8 l.content).isSome

/-- The record of the line. There is none of a line that is not UTF-8. -/
def entry? (src : PodStream) (l : PodLine) : Option PodLogEntry :=
  (decodeUtf8 l.content).map fun text => ⟨l.stamp.print, src, text.toList⟩

end PodLine

/-- The lines of a log: distinct, with timestamps that do not decrease. -/
structure PodLog (log : List PodLine) : Prop where
  valid : ∀ l ∈ log, l.stamp.Valid
  /-- A line ends at its newline. -/
  ends : ∀ l ∈ log, 10 ∉ l.message
  /-- A carriage return before the newline makes no other line of it. -/
  distinct : (log.map PodLine.line).Nodup
  sorted : log.Pairwise fun l l' => l.stamp.time ≤ l'.stamp.time

/-- A session, from the time when the request is made up to the time when the stream ends. -/
structure PodSession where
  opened : ℚ
  closed : ℚ
  /-- How many lines of the log there are up to its end. -/
  ended : ℕ
  /-- The lines as they arrive, without one that an error cuts off. -/
  lines : List PodLine

/-- The position in the log from which a request is answered. -/
def LogRange.start (log : List PodLine) (opened : ℚ) : LogRange → ℕ
  | .tail lines => (log.countP fun l => l.stamp.time ≤ opened) - lines
  | .since seconds => log.countP fun l => l.stamp.time < opened - seconds
  | .all => 0

/-- A request is answered with the lines in its range, and with those that are written until the
stream ends. The server may deliver a line again. -/
structure Serves (log : List PodLine) (range : LogRange) (s : PodSession) : Prop where
  order : s.opened ≤ s.closed
  before : ∀ l ∈ log.take s.ended, l.stamp.time ≤ s.closed
  after : ∀ l ∈ log.drop s.ended, s.closed ≤ l.stamp.time
  lines : Again [] (slice log (range.start log s.opened, s.ended)) s.lines

/-- After a session, the next one is opened within these seconds. -/
structure Reconnects (sinceSeconds : Int) (s s' : PodSession) : Prop where
  later : s.closed ≤ s'.opened
  gap : s'.opened ≤ s.closed + sinceSeconds
  ended : s.ended ≤ s'.ended

/-- The sessions of a container whose pod has been streamed before or has not. -/
def Served (tailLines sinceSeconds : Int) (log : List PodLine) : Bool → List PodSession → Prop
  | _, [] => True
  | initialized, s :: sessions =>
    let params := streamParams initialized tailLines sinceSeconds
    Serves log (logRange params.1 params.2) s ∧
      (∀ s' ∈ sessions.head?, Reconnects sinceSeconds s s') ∧
      Served tailLines sinceSeconds log true sessions

/-! ## What is forwarded -/

section

variable (lines : LineSource) (src : PodStream) (filter : LineFilter)
  (garbled : List UInt8 → Bool) (tailLines sinceSeconds : Int) (log : List PodLine)

/-- What the relay forwards, if the channel is never full. -/
def relayed (sessions : List PodSession) : List PodLogEntry :=
  sessions.flatMap fun s => streamPod lines src filter (fun _ => false) (PodLine.stream s.lines)

/-- The filter allows the line. It is asked about texts, and whether it is to allow a line that is
not UTF-8 is open: it is what `garbled` says. -/
def allows (l : PodLine) : Bool :=
  match decodeUtf8 l.content with
  | some text => filter.allow text.toList
  | none => garbled l.content

/-- The lines that the filter allows. -/
def allowedLines : List PodLine := log.filter (allows filter garbled)

/-- From where up to where a session delivers the allowed lines. -/
def allowedSpans : Bool → List PodSession → List (ℕ × ℕ)
  | _, [] => []
  | initialized, s :: sessions =>
    let params := streamParams initialized tailLines sinceSeconds
    let start := (logRange params.1 params.2).start log s.opened
    (position log (allows filter garbled) start, position log (allows filter garbled) s.ended) ::
      allowedSpans true sessions

/-- From where up to where a session delivers the allowed lines before its first line that is not
UTF-8. -/
def heardSpans : Bool → List PodSession → List (ℕ × ℕ)
  | _, [] => []
  | initialized, s :: sessions =>
    let params := streamParams initialized tailLines sinceSeconds
    let start := (logRange params.1 params.2).start log s.opened
    (position log (allows filter garbled) start,
        position log (allows filter garbled) (reach log PodLine.isUtf8 (start, s.ended))) ::
      heardSpans true sessions

/-- Up to where the last session has come among the allowed lines. -/
def allowedEnd (sessions : List PodSession) : ℕ :=
  position log (allows filter garbled) ((sessions.getLast?.map PodSession.ended).getD 0)

/-- Where the first of the sessions that deliver an allowed line begins among the allowed lines. -/
def allowedStart (initialized : Bool) (sessions : List PodSession) : ℕ :=
  resume (allowedEnd filter garbled log sessions)
    (allowedSpans filter garbled tailLines sinceSeconds log initialized sessions)

/-- The lines that are to be forwarded: the allowed ones, from the first that is delivered up to
where the last session has come. -/
def linesToForward (initialized : Bool) (sessions : List PodSession) : List PodLine :=
  slice (allowedLines filter garbled log)
    (allowedStart filter garbled tailLines sinceSeconds log initialized sessions,
      allowedEnd filter garbled log sessions)

/-! ## The lines of a stream -/

/-- A line without its newline, or with a carriage return, is not that of another one. -/
theorem splitLine_stream {l : PodLine} (h : 10 ∉ l.message) (ls : List PodLine) :
    splitLine (PodLine.stream (l :: ls)) = (l.line, PodLine.stream ls) := by
  have hprint : ∀ c ∈ l.stamp.print ++ [' '], 0x20 ≤ c.toNat :=
    List.forall_mem_append.mpr
      ⟨fun c hc => le_trans (by decide) (l.stamp.le_toNat_of_mem_print c hc),
        List.forall_mem_singleton.mpr (by decide)⟩
  have hnot (b : UInt8) (hb : b.toNat < 0x20) : b ∉ encode (l.stamp.print ++ [' ']) := fun hmem =>
    absurd (not_control_of_mem_encode hprint hmem) (Nat.not_le.mpr hb)
  have hsent : 10 ∉ l.sent := fun hmem =>
    (List.mem_append.mp hmem).elim (hnot 10 (by decide)) h
  have hstream : PodLine.stream (l :: ls) = l.sent ++ 10 :: PodLine.stream ls := by
    simp [PodLine.stream]
  rw [hstream, splitLine_append hsent, PodLine.sent, stripCr_append (hnot 13 (by decide))]
  rfl

/-- The text of a line is that of its message behind the timestamp. -/
theorem decodeUtf8_line (l : PodLine) : decodeUtf8 l.line =
    (decodeUtf8 l.content).map fun text =>
      String.ofList (l.stamp.print ++ [' '] ++ text.toList) :=
  decodeUtf8_encode_append _ _

/-- It is split at the blank after the timestamp. -/
theorem splitOnce_line (stamp : Stamp) (msg : List Char) :
    (splitOnce ' ' (stamp.print ++ [' '] ++ msg)).getD (stamp.print ++ [' '] ++ msg, []) =
      (stamp.print, msg) := by
  have hsplit : splitOnce ' ' (stamp.print ++ [' '] ++ msg) = some (stamp.print, msg) :=
    splitOnce_eq_some_iff.mpr ⟨by simp, stamp.notMem_print (by decide)⟩
  rw [hsplit, Option.getD_some]

/-- At a line the loop skips it, or sends its record and goes on from its timestamp. -/
theorem streamPodLoop_of_line {full : ℕ → Bool} {lastTs ts msg : List Char}
    {bytes rest : List UInt8} {line : String} (h : lines.nextLine bytes = .line line rest)
    (hsplit : (splitOnce ' ' line.toList).getD (line.toList, []) = (ts, msg)) :
    streamPodLoop lines src filter full lastTs bytes =
      if ts ≤ lastTs then streamPodLoop lines src filter (fun i => full (i + 1)) lastTs rest
      else if !filter.allow msg then
        streamPodLoop lines src filter (fun i => full (i + 1)) lastTs rest
      else (if full 0 then [] else [⟨ts, src, msg⟩]) ++
        streamPodLoop lines src filter (fun i => full (i + 1)) ts rest := by
  rw [streamPodLoop]
  split
  · next heq =>
    rw [h] at heq
    cases heq
    rw [hsplit]
  · next heq => rw [h] at heq; cases heq
  · next heq => rw [h] at heq; cases heq

/-- The loop where there is no line, or one that is not UTF-8. -/
theorem streamPodLoop_of_stop {full : ℕ → Bool} {lastTs : List Char} {bytes : List UInt8}
    (h : lines.nextLine bytes = .eof ∨ lines.nextLine bytes = .error) :
    streamPodLoop lines src filter full lastTs bytes = [] := by
  rw [streamPodLoop]
  split
  · next heq => rcases h with h | h <;> rw [h] at heq <;> cases heq
  · rfl
  · rfl

/-- A line that is UTF-8 is read, and leaves the other lines. -/
theorem nextLine_stream_of_some {l : PodLine} (hl : 10 ∉ l.message) (ls : List PodLine)
    {text : String} (hd : decodeUtf8 l.content = some text) :
    lines.nextLine (PodLine.stream (l :: ls)) =
      .line (String.ofList (l.stamp.print ++ [' '] ++ text.toList)) (PodLine.stream ls) := by
  have hsplit := splitLine_stream hl ls
  have hne : PodLine.stream (l :: ls) ≠ [] := by simp [PodLine.stream]
  have hline := lines.nextLine_of_some _ _ hne
    (by rw [hsplit]; exact (decodeUtf8_line l).trans (by rw [hd]; rfl))
  rwa [hsplit] at hline

/-- A line that is not UTF-8 is an error. -/
theorem nextLine_stream_of_none {l : PodLine} (hl : 10 ∉ l.message) (ls : List PodLine)
    (hd : decodeUtf8 l.content = none) : lines.nextLine (PodLine.stream (l :: ls)) = .error := by
  have hne : PodLine.stream (l :: ls) ≠ [] := by simp [PodLine.stream]
  refine lines.nextLine_of_none _ hne ?_
  rw [splitLine_stream hl ls, decodeUtf8_line, hd]
  rfl

/-- The loop forwards the records of the allowed lines before the first line that is not UTF-8. -/
theorem streamPodLoop_stream (lastTs : List Char) {ls : List PodLine}
    (h : ∀ l ∈ ls, 10 ∉ l.message) :
    (streamPodLoop lines src filter (fun _ => false) lastTs (PodLine.stream ls)).map some =
      (records (fun l => l.stamp.print) lastTs
        ((ls.takeWhile PodLine.isUtf8).filter (allows filter garbled))).map
          (PodLine.entry? src) := by
  induction ls generalizing lastTs with
  | nil =>
    have heof : lines.nextLine (PodLine.stream []) = .eof := lines.nextLine_nil
    rw [streamPodLoop_of_stop lines src filter (.inl heof)]
    rfl
  | cons l ls ih =>
    obtain ⟨hl, hls⟩ := List.forall_mem_cons.mp h
    cases hd : decodeUtf8 l.content with
    | none =>
      -- The line ends the loop.
      have herror := nextLine_stream_of_none lines hl ls hd
      have hbad : ¬l.isUtf8 = true := by simp [PodLine.isUtf8, hd]
      rw [streamPodLoop_of_stop lines src filter (.inr herror), List.takeWhile_cons_of_neg hbad]
      rfl
    | some text =>
      have hline := nextLine_stream_of_some lines hl ls hd
      have hparts := splitOnce_line l.stamp text.toList
      rw [← String.toList_ofList (l := l.stamp.print ++ [' '] ++ text.toList)] at hparts
      have hgood : l.isUtf8 = true := by simp [PodLine.isUtf8, hd]
      have hallows : allows filter garbled l = filter.allow text.toList := by
        rw [allows, hd]
      have hentry : l.entry? src = some ⟨l.stamp.print, src, text.toList⟩ := by
        rw [PodLine.entry?, hd]
        rfl
      rw [streamPodLoop_of_line lines src filter hline hparts,
        List.takeWhile_cons_of_pos hgood]
      cases hallow : filter.allow text.toList with
      | true =>
        have hpass : ¬(!true) = true := by decide
        rw [List.filter_cons_of_pos (hallows.trans hallow), records, if_neg hpass,
          if_neg Bool.false_ne_true]
        split_ifs
        · exact ih lastTs hls
        · rw [List.map_append, ih _ hls]
          show some _ :: _ = l.entry? src :: _
          rw [hentry]
          rfl
      | false =>
        -- The line is skipped for one reason or the other.
        rw [List.filter_cons_of_neg (by rw [hallows, hallow]; decide), Bool.not_false,
          if_pos rfl, ite_self]
        exact ih lastTs hls

/-- A session forwards the records of the allowed lines that it hears, whatever the server delivers
again. -/
theorem streamPod_of_serves (hlog : ∀ l ∈ log, 10 ∉ l.message) {range : LogRange} {s : PodSession}
    (h : Serves log range s) :
    (streamPod lines src filter (fun _ => false) (PodLine.stream s.lines)).map some =
      (records (fun l => l.stamp.print) [] (slice (allowedLines filter garbled log)
        (position log (allows filter garbled) (range.start log s.opened),
          position log (allows filter garbled)
            (reach log PodLine.isUtf8 (range.start log s.opened, s.ended))))).map
        (PodLine.entry? src) := by
  have hends : ∀ l ∈ s.lines, 10 ∉ l.message := fun l hl => by
    rcases h.lines.mem hl with hnil | hl
    · cases hnil
    · exact hlog l (List.mem_of_mem_take (List.mem_of_mem_drop hl))
  -- What the server delivers again is cut off and filtered likewise, and is no record.
  have hagain := (h.lines.takeWhile (p := PodLine.isUtf8) (List.forall_mem_nil _)).filter
    (allows filter garbled)
  rw [List.filter_nil, takeWhile_slice, filter_slice] at hagain
  rw [streamPod, streamPodLoop_stream lines src filter garbled [] hends,
    records_of_again (fun l : PodLine => l.stamp.print) hagain (List.forall_mem_nil _)]
  rfl

/-- The sessions forward, one after the other, the records of the allowed lines that each of them
hears. -/
theorem relayed_eq (hlog : ∀ l ∈ log, 10 ∉ l.message) {initialized : Bool}
    {sessions : List PodSession} (h : Served tailLines sinceSeconds log initialized sessions) :
    (relayed lines src filter sessions).map some =
      ((heardSpans filter garbled tailLines sinceSeconds log initialized sessions).flatMap fun w =>
        records (fun l => l.stamp.print) [] (slice (allowedLines filter garbled log) w)).map
          (PodLine.entry? src) := by
  induction sessions generalizing initialized with
  | nil => rfl
  | cons s sessions ih =>
    obtain ⟨hserves, -, hrest⟩ := h
    have hhead := streamPod_of_serves lines src filter garbled log hlog hserves
    rw [relayed] at ih ⊢
    rw [List.flatMap_cons, List.map_append, ih hrest, hhead, heardSpans, List.flatMap_cons,
      List.map_append]

/-- After a gap that is not too long, the next session begins where the last one has ended, or
before. -/
theorem start_le_ended {range : LogRange} {s s' : PodSession} (h : Serves log range s)
    (hs : Reconnects sinceSeconds s s') :
    (logRange 0 sinceSeconds).start log s'.opened ≤ s.ended := by
  unfold logRange
  rw [if_neg (lt_irrefl 0)]
  split_ifs with hpos
  · have hgap := hs.gap
    have hcast : ((sinceSeconds.toNat : ℕ) : ℚ) = sinceSeconds := by
      exact_mod_cast Int.toNat_of_nonneg hpos.le
    -- What has been written since the stream's end is not older than the seconds.
    have hnone : (log.drop s.ended).countP
        (fun l => l.stamp.time < s'.opened - sinceSeconds.toNat) = 0 := by
      rw [List.countP_eq_zero]
      intro l hl
      have hafter := h.after l hl
      rw [decide_eq_true_eq, hcast, not_lt]
      linarith
    calc (LogRange.since sinceSeconds.toNat).start log s'.opened
        = (log.take s.ended ++ log.drop s.ended).countP
            (fun l => l.stamp.time < s'.opened - sinceSeconds.toNat) := by
          rw [List.take_append_drop]
          rfl
      _ = (log.take s.ended).countP fun l => l.stamp.time < s'.opened - sinceSeconds.toNat := by
          rw [List.countP_append, hnone, Nat.add_zero]
      _ ≤ s.ended := List.countP_le_length.trans (List.length_take_le _ _)
  · exact Nat.zero_le _

/-- The sessions cover the log from where the first one begins. -/
theorem covers_allowedSpans {initialized : Bool} {sessions : List PodSession}
    (h : Served tailLines sinceSeconds log initialized sessions) :
    Covers (allowedEnd filter garbled log sessions)
      (allowedSpans filter garbled tailLines sinceSeconds log initialized sessions) := by
  induction sessions generalizing initialized with
  | nil => trivial
  | cons s sessions ih =>
    obtain ⟨hserves, hnext, hrest⟩ := h
    cases sessions with
    | nil => rfl
    | cons s' sessions =>
      have hs := hnext s' rfl
      refine ⟨position_mono log _ ?_, position_mono log _ hs.ended, ih hrest⟩
      exact start_le_ended sinceSeconds log hserves hs

/-- A session is not heard to more than its end. -/
theorem heardSpans_le {e : ℕ} {initialized : Bool} {sessions : List PodSession}
    (h : Covers e (allowedSpans filter garbled tailLines sinceSeconds log initialized sessions)) :
    ∀ w ∈ heardSpans filter garbled tailLines sinceSeconds log initialized sessions, w.2 ≤ e := by
  induction sessions generalizing initialized with
  | nil => exact List.forall_mem_nil _
  | cons s sessions ih =>
    rw [allowedSpans] at h
    refine List.forall_mem_cons.mpr ⟨le_trans (position_mono log _ ?_) h.le, ih h.tail⟩
    exact reach_le log PodLine.isUtf8 _

/-- If all lines are UTF-8, the sessions are heard to their ends. -/
theorem heardSpans_of_utf8 (hutf8 : ∀ l ∈ log, l.isUtf8 = true) (initialized : Bool)
    (sessions : List PodSession) :
    heardSpans filter garbled tailLines sinceSeconds log initialized sessions =
      allowedSpans filter garbled tailLines sinceSeconds log initialized sessions := by
  induction sessions generalizing initialized with
  | nil => rfl
  | cons s sessions ih =>
    have hreach (w : ℕ × ℕ) : reach log PodLine.isUtf8 w = w.2 :=
      if_pos (List.all_eq_true.mpr fun l hl =>
        hutf8 l (List.mem_of_mem_take (List.mem_of_mem_drop hl)))
    simp only [heardSpans, allowedSpans, hreach, ih]

/-- Then each session reaches the next one, since the gaps are not too long. -/
theorem resume_le_of_utf8 (hutf8 : ∀ l ∈ log, l.isUtf8 = true) {initialized : Bool}
    {sessions : List PodSession} (h : Served tailLines sinceSeconds log initialized sessions)
    {vs ws : List (ℕ × ℕ)} {w : ℕ × ℕ}
    (hw : heardSpans filter garbled tailLines sinceSeconds log initialized sessions =
      vs ++ w :: ws) : resume (allowedEnd filter garbled log sessions) ws ≤ w.2 := by
  have hcovers := covers_allowedSpans filter garbled tailLines sinceSeconds log h
  rw [← heardSpans_of_utf8 filter garbled tailLines sinceSeconds log hutf8, hw] at hcovers
  exact hcovers.of_append.resume_le

variable {log} in
/-- The lines of a log are told apart by what is forwarded of them. -/
theorem eq_of_map_entry? (hlog : (log.map PodLine.line).Nodup) {entries : List PodLogEntry}
    {xs ys : List PodLine} (hxs : ∀ l ∈ xs, l ∈ log) (hys : ∀ l ∈ ys, l ∈ log)
    (hx : entries.map some = xs.map (PodLine.entry? src))
    (hy : entries.map some = ys.map (PodLine.entry? src)) : xs = ys := by
  induction entries generalizing xs ys with
  | nil =>
    obtain rfl := List.map_eq_nil_iff.mp hx.symm
    exact (List.map_eq_nil_iff.mp hy.symm).symm
  | cons entry entries ih =>
    obtain ⟨x, xs, rfl, hentryx, hrestx⟩ := List.map_eq_cons_iff.mp hx.symm
    obtain ⟨y, ys, rfl, hentryy, hresty⟩ := List.map_eq_cons_iff.mp hy.symm
    obtain ⟨hmemx, hxs⟩ := List.forall_mem_cons.mp hxs
    obtain ⟨hmemy, hys⟩ := List.forall_mem_cons.mp hys
    -- Timestamp and text are all that a line is.
    obtain ⟨text, hdx, rfl⟩ := Option.map_eq_some_iff.mp hentryx
    obtain ⟨text', hdy, hsame⟩ := Option.map_eq_some_iff.mp hentryy
    obtain ⟨hstamp, -, hmessage⟩ := PodLogEntry.mk.inj hsame
    have hline : x.line = y.line := by
      rw [PodLine.line, PodLine.line, decodeUtf8_eq_some_iff.mp hdx, decodeUtf8_eq_some_iff.mp hdy,
        hstamp, hmessage]
    rw [List.inj_on_of_nodup_map hlog hmemx hmemy hline, ih hxs hys hrestx.symm hresty.symm]

variable {tailLines sinceSeconds log}

end

/-- The stamp of a second on one morning, with the digits of a fraction. -/
def stampAt (minute second : ℕ) (fraction : List ℕ) : Stamp :=
  ⟨2026, 3, 18, 11, minute, second, fraction, none⟩

/-- A container's stream. -/
def webStream : PodStream := ⟨"default", "web", none, .output⟩

/-- Four lines. The first one ends in a carriage return, the third one is not UTF-8, and the last
one is written after the stream has ended once. -/
def quietLog : List PodLine :=
  [⟨stampAt 23 45 [5], encode "up\r".toList⟩, ⟨stampAt 23 45 [7, 5], encode "ready".toList⟩,
    ⟨stampAt 28 40 [], [0xff]⟩, ⟨stampAt 29 0 [], encode "late".toList⟩]

/-- The two sessions. The request of the second one asks for the last ten seconds. -/
def quietSessions : List PodSession :=
  [⟨(stampAt 23 50 []).time, (stampAt 28 50 []).time, 3, quietLog.take 3⟩,
    ⟨(stampAt 28 55 []).time, (stampAt 29 30 []).time, 4, quietLog.drop 3⟩]

/-- A session that delivers the two lines of a log. -/
def sessionOf (log : List PodLine) : PodSession :=
  ⟨(stampAt 23 40 []).time, (stampAt 24 0 []).time, 2, log⟩

/-- Two lines, the first of which is written on the second. -/
def fractionLog : List PodLine :=
  [⟨stampAt 23 45 [], encode "up".toList⟩, ⟨stampAt 23 45 [5], encode "ready".toList⟩]

/-- Two lines, the first of which is not UTF-8. -/
def garbledLog : List PodLine :=
  [⟨stampAt 23 45 [], [0xff]⟩, ⟨stampAt 23 46 [], encode "ready".toList⟩]

/-- The first line ends the session. The second one is not forwarded, even if the first one is not
to be. -/
theorem not_relayed_of_garbled :
    (relayed .documented webStream {} [sessionOf garbledLog]).map some ≠
      (linesToForward {} (fun _ => false) (-1) 10 garbledLog false [sessionOf garbledLog]).map
        (PodLine.entry? webStream) := by
  have hends : ∀ l ∈ garbledLog, 10 ∉ l.message := by decide +kernel
  have hserved : Served (-1) 10 garbledLog false [sessionOf garbledLog] :=
    ⟨⟨by decide +kernel, by decide +kernel, by decide +kernel, .of_eq (by decide +kernel)⟩,
      by simp, trivial⟩
  rw [relayed_eq .documented webStream {} (fun _ => false) (-1) 10 garbledLog hends hserved]
  decide +kernel

end Vigil
