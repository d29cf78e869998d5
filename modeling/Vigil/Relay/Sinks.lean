import Vigil.Lib.Framing
import Vigil.Logs.Json
import Vigil.Relay.PodLines
import Vigil.Relay.TcpSink

/-!
# The two sinks

What `forward_line` and `stream_pod` put on the channel, and what becomes of it in the stdout sink
of the relay's `main.rs` and in the TCP sink. Both producers end a record with a newline. The TCP
sink writes a record as it is, so that its stream is ndjson (`ndjson_of_returned`). The stdout sink
writes one more newline after each record, and the streams are not the same unless there are no
records (`interchangeable_iff`).
-/

namespace Vigil

open Framing Runs
open Json (escape)
open Utf8 (encode)

/-! ## The records -/

/-- A stream's name in `LogEntry`. -/
def StreamName.label : StreamName → String
  | stdout => "stdout"
  | stderr => "stderr"
  | output => "output"

namespace PodLogEntry

/-- The fields that `serde` writes, in order. `container` is skipped if it is `None`. -/
def fields (e : PodLogEntry) : List (String × List Char) :=
  [("timestamp", e.timestamp), ("namespace", e.source.ns.toList), ("pod", e.source.pod.toList)] ++
    e.source.container.toList.map (fun c => ("container", c.toList)) ++
    [("stream", e.source.stream.label.toList), ("message", e.message)]

/-- The members of an object. -/
def members : List (String × List Char) → List Char
  | [] => []
  | [f] => LogEntry.field f.1 (escape f.2)
  | f :: fs => LogEntry.field f.1 (escape f.2) ++ (',' :: members fs)

/-- `serde_json::to_string`. -/
def toText (e : PodLogEntry) : List Char := '\x7b' :: (members e.fields ++ ['\x7d'])

/-- What `stream_pod` hands to `try_send`. -/
def record (e : PodLogEntry) : String := String.ofList (e.toText ++ ['\n'])

end PodLogEntry

/-- A record that a source puts on the channel. -/
inductive Produced : String → Prop
  /-- By `forward_line`, in a call of `stream_loop`. -/
  | streamLoop {src : LineSource} {filter : LineFilter} {idleTimeoutMs : ℕ} {full : ℕ → Bool}
    {waits : List ℕ} {bytes : List UInt8} {record : String}
    (h : record ∈ (streamLoop src filter idleTimeoutMs full waits bytes).sent) : Produced record
  /-- By `stream_pod`. -/
  | streamPod {lines : LineSource} {src : PodStream} {filter : LineFilter} {full : ℕ → Bool}
    {bytes : List UInt8} {entry : PodLogEntry}
    (h : entry ∈ streamPod lines src filter full bytes) : Produced entry.record

/-! ## The sinks -/

/-- The bytes of a record. -/
def recordBytes (record : String) : List UInt8 := encode record.toList

/-- The stdout sink, with what it receives until the channel is closed: what it writes. -/
def stdoutSink : List String → List UInt8
  | [] => []
  | line :: rx => recordBytes line ++ (recordBytes "\n" ++ stdoutSink rx)

/-- What the TCP sink has written, if no write has failed. -/
def TcpSink.bytes (s : TcpSink) : List UInt8 := s.written.flatMap recordBytes

/-- No write fails. -/
def WritesSucceed (_ : TcpSink) : SinkLabel → Prop
  | .write r => r = .ok
  | _ => True

instance (s : TcpSink) : (l : SinkLabel) → Decidable (WritesSucceed s l)
  | .write r => inferInstanceAs (Decidable (r = .ok))
  | .send _ | .close | .connect _ | .wake | .next | .idle => inferInstanceAs (Decidable True)

/-- The stream's lines are the records, each with exactly one newline, and none is empty. -/
def Ndjson (records : List String) (bytes : List UInt8) : Prop :=
  (unframe 10 bytes).map (List.map (· ++ [10])) = some (records.map recordBytes)

/-- What the stdout sink writes of the records that have been sent is what the TCP sink has written,
and it is ndjson. -/
structure Interchangeable (s : TcpSink) : Prop where
  same : stdoutSink s.sent = s.bytes
  ndjson : Ndjson s.sent (stdoutSink s.sent)

/-! ## The producers end a record with its only newline -/

/-- A text, and a newline behind it. -/
def Terminated (record : String) : Prop :=
  ∃ text : List Char, text ≠ [] ∧ '\n' ∉ text ∧ record = String.ofList (text ++ ['\n'])

/-- What `forward_line` makes of a line is a part of it and a newline. -/
theorem exists_of_forwardLine {filter : LineFilter} {line : List Char} {record : String}
    (h : forwardLine filter line = some record) :
    ∃ payload, payload <:+ line ∧ payload ≠ [] ∧ record = String.ofList (payload ++ ['\n']) := by
  unfold forwardLine at h
  split_ifs at h
  dsimp only at h
  split_ifs at h with hempty
  -- What is taken off is taken off at the front.
  refine ⟨_, ?_, fun hnil => hempty (List.isEmpty_iff.mpr hnil), (Option.some.inj h).symm⟩
  split
  · next rest hrest =>
    obtain ⟨field, hline, -⟩ := List.dropPrefix?_eq_some_iff.mp hrest
    exact (List.dropWhile_suffix _).trans ⟨field, hline.symm⟩
  · exact List.suffix_refl _

/-- The byte of a newline is that of a newline. -/
theorem newline_mem_encode {text : List Char} : 10 ∈ encode text ↔ '\n' ∈ text := by
  constructor
  · intro h
    obtain ⟨c, hc, hb⟩ := List.mem_flatMap.mp h
    have htoNat := (Utf8.eq_of_mem_utf8EncodeChar hb (by decide)).2
    rwa [Json.eq_ofNat htoNat] at hc
  · exact fun h => List.mem_flatMap.mpr ⟨'\n', h, by decide⟩

/-- A line of a stream has no newline. -/
theorem notMem_splitLine (bytes : List UInt8) : 10 ∉ (splitLine bytes).1 := by
  unfold splitLine
  split
  · next hnil =>
    intro h
    exact absurd (List.dropWhile_eq_nil_iff.mp hnil 10 h) (by decide)
  · intro h
    -- A carriage return may be taken off behind.
    have hmem : 10 ∈ bytes.takeWhile (· ≠ 10) := by
      unfold stripCr at h
      split_ifs at h
      · exact List.mem_of_mem_dropLast h
      · exact h
    exact absurd (List.mem_takeWhile_imp hmem) (by decide)

/-- A line that `next_line` returns has no newline. -/
theorem LineSource.notMem_of_nextLine (src : LineSource) {bytes rest : List UInt8} {text : String}
    (h : src.nextLine bytes = .line text rest) : '\n' ∉ text.toList := by
  have hne : bytes ≠ [] := by
    rintro rfl
    rw [src.nextLine_nil] at h
    cases h
  cases hd : decodeUtf8 (splitLine bytes).1 with
  | none =>
    rw [src.nextLine_of_none _ hne hd] at h
    cases h
  | some text' =>
    rw [src.nextLine_of_some _ _ hne hd] at h
    cases h
    rw [← newline_mem_encode, ← decodeUtf8_eq_some_iff.mp hd]
    exact notMem_splitLine bytes

/-- `stream_loop` puts such records on the channel. -/
theorem terminated_of_mem_streamLoop {src : LineSource} {filter : LineFilter} {idleTimeoutMs : ℕ}
    {full : ℕ → Bool} {waits : List ℕ} {bytes : List UInt8} {record : String}
    (h : record ∈ (streamLoop src filter idleTimeoutMs full waits bytes).sent) :
    Terminated record := by
  fun_induction streamLoop src filter idleTimeoutMs full waits bytes with
  | case1 => cases h
  | case2 full waits bytes hidle text rest hline ih =>
    rw [Relayed.push] at h
    rcases List.mem_append.mp h with h | h
    · split_ifs at h
      · cases h
      · obtain ⟨payload, hsuffix, hne, rfl⟩ := exists_of_forwardLine (Option.mem_toList.mp h)
        have hmem := src.notMem_of_nextLine hline
        exact ⟨payload, hne, fun h => hmem (hsuffix.subset h), rfl⟩
    · exact ih h
  | case3 => cases h
  | case4 => cases h

namespace PodLogEntry

/-- The members of an object are printable if their names are. -/
theorem le_toNat_of_mem_members {fs : List (String × List Char)}
    (hnames : ∀ f ∈ fs, ∀ d ∈ f.1.toList, 0x20 ≤ d.toNat) {c : Char} (hc : c ∈ members fs) :
    0x20 ≤ c.toNat := by
  have hfield : ∀ f ∈ fs, c ∈ LogEntry.field f.1 (escape f.2) → 0x20 ≤ c.toNat := fun f hf =>
    LogEntry.le_toNat_of_mem_field (hnames f hf) fun d hd => by
      obtain ⟨c, -, hc⟩ := List.mem_flatMap.mp hd
      exact Json.le_toNat_of_mem_escapeChar hc
  -- The induction follows the commas. The names of the rest are among those of all.
  fun_induction members fs with
  | case1 => cases hc
  | case2 f => exact hfield f List.mem_cons_self hc
  | case3 f fs _ ih =>
    obtain ⟨-, hrest⟩ := List.forall_mem_cons.mp hfield
    rcases List.mem_append.mp hc with hc | hc
    · exact hfield f List.mem_cons_self hc
    rcases List.mem_cons.mp hc with rfl | hc
    · decide
    · exact ih (List.forall_mem_cons.mp hnames).2 hc hrest

/-- The text of an entry is printable. -/
theorem le_toNat_of_mem_toText {e : PodLogEntry} {c : Char} (hc : c ∈ e.toText) :
    0x20 ≤ c.toNat := by
  have hprint : (["timestamp", "namespace", "pod", "container", "stream", "message"].all
      fun name => name.toList.all fun d => 0x20 ≤ d.toNat) = true := by decide
  have hnames : ∀ f ∈ e.fields, ∀ d ∈ f.1.toList, 0x20 ≤ d.toNat := by
    intro f hf
    refine List.all_iff_forall_prop.mp (List.all_eq_true.mp hprint f.1 ?_)
    simp only [fields, List.mem_append, List.mem_cons, List.mem_map, List.not_mem_nil,
      or_false] at hf
    rcases hf with ((rfl | rfl | rfl) | ⟨c, -, rfl⟩) | rfl | rfl <;> simp
  rcases List.mem_cons.mp hc with rfl | hc
  · decide
  rcases List.mem_append.mp hc with hc | hc
  · exact le_toNat_of_mem_members hnames hc
  · obtain rfl := List.mem_singleton.mp hc
    decide

end PodLogEntry

/-- A record that a source puts on the channel ends with its only newline. -/
theorem Produced.terminated {record : String} (h : Produced record) : Terminated record := by
  cases h with
  | streamLoop h => exact terminated_of_mem_streamLoop h
  | streamPod h =>
    rename_i entry
    refine ⟨entry.toText, List.cons_ne_nil _ _, fun hmem => ?_, rfl⟩
    exact absurd (PodLogEntry.le_toNat_of_mem_toText hmem) (by decide)

/-! ## What the sinks write -/

section Streams

variable {records : List String}

/-- Ndjson of some records is the records, one after the other. -/
theorem Ndjson.bytes_eq {bytes : List UInt8} (h : Ndjson records bytes) :
    bytes = records.flatMap recordBytes := by
  obtain ⟨frames, hframes, hrecords⟩ := Option.map_eq_some_iff.mp h
  rw [(unframe_eq_some_iff.mp hframes).1, stream, List.flatMap_def, List.flatMap_def, hrecords]

/-- The bytes of a terminated record are a line's and a newline. -/
theorem Terminated.exists_clean {record : String} (h : Terminated record) :
    ∃ frame, Clean 10 frame ∧ recordBytes record = frame ++ [10] := by
  obtain ⟨text, hne, hmem, rfl⟩ := h
  refine ⟨encode text, ⟨fun hnil => hne ?_, fun h => hmem (newline_mem_encode.mp h)⟩, ?_⟩
  · exact Utf8.encode_injective hnil
  · rw [recordBytes, String.toList_ofList, Utf8.encode_append]
    rfl

/-- Terminated records, one after the other, are ndjson. -/
theorem ndjson_flatMap (h : ∀ r ∈ records, Terminated r) :
    Ndjson records (records.flatMap recordBytes) := by
  -- The lines are the records without their last byte.
  let frames := records.map fun r => (recordBytes r).dropLast
  have hframes : frames.map (· ++ [10]) = records.map recordBytes := by
    rw [List.map_map]
    refine List.map_congr_left fun r hr => ?_
    obtain ⟨frame, -, hframe⟩ := (h r hr).exists_clean
    rw [Function.comp_apply, hframe, List.dropLast_concat]
  have hclean : ∀ f ∈ frames, Clean 10 f := List.forall_mem_map.mpr fun r hr => by
    obtain ⟨frame, hclean, hframe⟩ := (h r hr).exists_clean
    rwa [hframe, List.dropLast_concat]
  have hstream : records.flatMap recordBytes = stream 10 frames := by
    rw [stream, List.flatMap_def, List.flatMap_def, hframes]
  rw [Ndjson, unframe_eq_some_iff.mpr ⟨hstream, hclean⟩, Option.map_some, hframes]

/-- The stdout sink writes one byte too many for each record. -/
theorem length_stdoutSink (records : List String) :
    (stdoutSink records).length = (records.flatMap recordBytes).length + records.length := by
  induction records with
  | nil => rfl
  | cons line rx ih =>
    rw [stdoutSink, List.flatMap_cons, List.length_append, List.length_append, List.length_append,
      List.length_cons, ih, show (recordBytes "\n").length = 1 by decide]
    omega

/-- What the stdout sink writes is not the records, unless there are none. -/
theorem stdoutSink_eq_iff : stdoutSink records = records.flatMap recordBytes ↔ records = [] := by
  constructor
  · intro h
    have hlength := length_stdoutSink records
    rw [h] at hlength
    exact List.length_eq_zero_iff.mp (by omega)
  · rintro rfl
    rfl

/-- What the stdout sink writes is not ndjson, unless there are no records. -/
theorem ndjson_stdoutSink_iff : Ndjson records (stdoutSink records) ↔ records = [] := by
  constructor
  · intro h
    exact stdoutSink_eq_iff.mp h.bytes_eq
  · rintro rfl
    exact ndjson_flatMap (List.forall_mem_nil _)

end Streams

/-! ## The two of them -/

section Interchangeable

variable {cfg : SinkConfig} {capacity : ℕ} {s : TcpSink}

/-- When the TCP sink returns, it has written the records that have been sent. -/
theorem bytes_of_returned (h : Reaches (TcpSink.step cfg) WritesSucceed (.start cfg capacity) s)
    (hret : s.phase = .returned) : s.bytes = s.sent.flatMap recordBytes := by
  have hacc : s.Accounted :=
    h.invariant ⟨rfl, fun _ _ => rfl, nofun⟩ fun _ _ _ _ h _ hs => h.step hs
  obtain ⟨-, hheld, hitems⟩ := hacc.returned hret
  rw [TcpSink.bytes, hacc.sent, hheld, hitems, List.append_nil, List.append_nil]

/-- Then, what it has written is ndjson. -/
theorem ndjson_of_returned (h : Reaches (TcpSink.step cfg) WritesSucceed (.start cfg capacity) s)
    (hret : s.phase = .returned) (hsent : ∀ r ∈ s.sent, Produced r) : Ndjson s.sent s.bytes := by
  rw [bytes_of_returned h hret]
  exact ndjson_flatMap fun r hr => (hsent r hr).terminated

/-- What the sinks write of what the sources send is the same, and is ndjson, if and only if they
send nothing. -/
theorem interchangeable_iff (h : Reaches (TcpSink.step cfg) WritesSucceed (.start cfg capacity) s)
    (hret : s.phase = .returned) (hsent : ∀ r ∈ s.sent, Produced r) :
    Interchangeable s ↔ s.sent = [] := by
  constructor
  · intro hsame
    exact stdoutSink_eq_iff.mp (hsame.same.trans (bytes_of_returned h hret))
  · intro hnil
    have hsame : stdoutSink s.sent = s.bytes :=
      (stdoutSink_eq_iff.mpr hnil).trans (bytes_of_returned h hret).symm
    exact ⟨hsame, hsame ▸ ndjson_of_returned h hret hsent⟩

end Interchangeable

/-- The record of a line of a pod's log. -/
def upEntry : PodLogEntry := ⟨"2026-03-18T11:23:45Z".toList, webStream, "up".toList⟩

/-- The TCP sink writes it, and returns. -/
def upSent : TcpSink :=
  (runIf (TcpSink.step {}) WritesSucceed (.start {} 8192)
    [.send upEntry.record, .connect .ok, .next, .write .ok, .close, .next]).getD (.start {} 8192)

/-- All records of the sample are such as `stream_pod` sends. -/
theorem produced_upSent : ∀ r ∈ upSent.sent, Produced r := by
  let upLine : PodLine := ⟨stampAt 23 45 [], encode "up".toList⟩
  have hends : ∀ l ∈ [upLine], 10 ∉ l.message := by decide +kernel
  have hsent : (streamPod .documented webStream {} (fun _ => false)
      (PodLine.stream [upLine])).map some = [some upEntry] := by
    rw [streamPod, streamPodLoop_stream .documented webStream {} (fun _ => false) [] hends]
    decide +kernel
  have hentry : upEntry ∈ streamPod .documented webStream {} (fun _ => false)
      (PodLine.stream [upLine]) := by
    obtain ⟨entry, hmem, hsome⟩ := List.mem_map.mp (hsent ▸ List.mem_singleton_self _)
    exact Option.some.inj hsome ▸ hmem
  exact fun r hr => List.mem_singleton.mp hr ▸ .streamPod hentry

/-- For this line, the sinks write different bytes. -/
theorem interchangeable_iff_upSent : Interchangeable upSent ↔ upSent.sent = [] :=
  interchangeable_iff (.getD_runIf (by decide)) (by decide) produced_upSent

/-- The sinks are not interchangeable for the records of the sources. -/
theorem not_interchangeable : ¬ ∀ cfg capacity s,
    Reaches (TcpSink.step cfg) WritesSucceed (.start cfg capacity) s → s.phase = .returned →
      (∀ r ∈ s.sent, Produced r) → Interchangeable s := by
  intro h
  have hr : Reaches (TcpSink.step {}) WritesSucceed (.start {} 8192) upSent :=
    .getD_runIf (by decide)
  have hret : upSent.phase = .returned := by decide
  have hsame := (h {} 8192 upSent hr hret produced_upSent).same
  have hnil := stdoutSink_eq_iff.mp (hsame.trans (bytes_of_returned hr hret))
  exact absurd hnil (by decide)

end Vigil
