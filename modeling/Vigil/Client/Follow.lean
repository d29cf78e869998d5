import Mathlib.Algebra.Order.Ring.Nat
import Mathlib.Data.Bool.AllAny
import Vigil.Lib.Text
import Vigil.Logs.Follow
import Vigil.Logs.Reader

/-!
# The client's follow loop

`follow_logs` of `client/mod.rs` and `drain_sse_buf` of `client/transport/http.rs`: the loop that
turns the chunks of an SSE response into text, keeps the text of a line until its end has arrived,
and prints an entry for each `data` line. Lines may be cut anywhere (`followLogs_eq`). But each
chunk is decoded by itself, and a character that is cut turns into replacement characters:
`followLogs_eq_iff` says that the entries are printed as they were sent on exactly those chunks that
are all UTF-8 by themselves.
-/

namespace Vigil

open Utf8 (encode lossy Stretched)

namespace Client

variable (J : EntryJson)

/-- The entry that is printed for a line. -/
def readLine (line : List Char) : Option LogEntry := do
  let data ← (line.rdropWhile (· = '\r')).dropPrefix? "data:".toList
  J.fromStr (Text.trim data)

/-- What is behind the separator is shorter than the text. -/
theorem length_lt_of_splitOnce {sep : Char} {s a b : List Char}
    (h : Text.splitOnce sep s = some (a, b)) : b.length < s.length := by
  rw [(Text.splitOnce_eq_some_iff.mp h).1, List.length_append, List.length_cons]
  omega

/-- `drain_sse_buf`: the entries that it prints, and the buffer that it leaves. -/
def drainSseBuf (buf : List Char) : List LogEntry × List Char :=
  match _h : Text.splitOnce '\n' buf with
  | some (line, rest) =>
    let r := drainSseBuf rest
    ((readLine J line).toList ++ r.1, r.2)
  | none => ([], buf)
termination_by buf.length
decreasing_by exact length_lt_of_splitOnce _h

/-- The loop of `follow_logs`, which is the same for both transports. -/
def followLogs : List Char → List (List UInt8) → List LogEntry
  | _, [] => []
  | buf, chunk :: chunks =>
    let r := drainSseBuf J (buf ++ lossy chunk)
    r.1 ++ followLogs r.2 chunks

/-! ## The buffer -/

/-- A buffer without a line's end is kept. -/
theorem drainSseBuf_of_notMem {buf : List Char} (h : '\n' ∉ buf) :
    drainSseBuf J buf = ([], buf) := by
  rw [drainSseBuf]
  split
  · next line rest heq =>
    rw [(Text.splitOnce_eq_some_iff.mp heq).1] at h
    exact absurd (List.mem_append_right _ List.mem_cons_self) h
  · rfl

/-- A line is taken from the buffer. -/
theorem drainSseBuf_line {line : List Char} (h : '\n' ∉ line) (rest : List Char) :
    drainSseBuf J (line ++ '\n' :: rest) =
      ((readLine J line).toList ++ (drainSseBuf J rest).1, (drainSseBuf J rest).2) := by
  have hsplit : Text.splitOnce '\n' (line ++ '\n' :: rest) = some (line, rest) :=
    Text.splitOnce_eq_some_iff.mpr ⟨rfl, h⟩
  rw [drainSseBuf]
  split
  · next line' rest' heq =>
    rw [hsplit] at heq
    cases heq
    rfl
  · next heq => rw [hsplit] at heq; cases heq

/-- A text is without a line's end, or begins with a line. -/
theorem notMem_or_exists_line (buf : List Char) :
    '\n' ∉ buf ∨ ∃ line rest, buf = line ++ '\n' :: rest ∧ '\n' ∉ line := by
  cases h : Text.splitOnce '\n' buf with
  | none =>
    left
    intro hmem
    rw [Text.splitOnce, if_pos hmem] at h
    cases h
  | some p => exact .inr ⟨p.1, p.2, Text.splitOnce_eq_some_iff.mp h⟩

/-- What is drained first makes no difference to what is drained in the end. -/
theorem drainSseBuf_append (a b : List Char) :
    drainSseBuf J (a ++ b) = ((drainSseBuf J a).1 ++ (drainSseBuf J ((drainSseBuf J a).2 ++ b)).1,
      (drainSseBuf J ((drainSseBuf J a).2 ++ b)).2) := by
  -- By induction on the first part, a line at a time.
  induction hlen : a.length using Nat.strong_induction_on generalizing a with
  | _ len ih =>
    subst hlen
    rcases notMem_or_exists_line a with ha | ⟨line, rest, rfl, hline⟩
    · rw [drainSseBuf_of_notMem J ha, List.nil_append]
    · have hrest := ih rest.length (by rw [List.length_append, List.length_cons]; omega) rest rfl
      rw [List.append_assoc, List.cons_append, drainSseBuf_line J hline,
        drainSseBuf_line J hline, hrest, List.append_assoc]

/-- No line end is left in the buffer after draining. -/
theorem notMem_drainSseBuf (buf : List Char) : '\n' ∉ (drainSseBuf J buf).2 := by
  induction hlen : buf.length using Nat.strong_induction_on generalizing buf with
  | _ len ih =>
    subst hlen
    rcases notMem_or_exists_line buf with hbuf | ⟨line, rest, rfl, hline⟩
    · rw [drainSseBuf_of_notMem J hbuf]
      exact hbuf
    · rw [drainSseBuf_line J hline]
      exact ih rest.length (by rw [List.length_append, List.length_cons]; omega) rest rfl

/-- The loop prints what is drained from the text of all chunks. -/
theorem followLogs_eq {buf : List Char} (h : '\n' ∉ buf) (chunks : List (List UInt8)) :
    followLogs J buf chunks = (drainSseBuf J (buf ++ chunks.flatMap lossy)).1 := by
  induction chunks generalizing buf with
  | nil => rw [followLogs, List.flatMap_nil, List.append_nil, drainSseBuf_of_notMem J h]
  | cons chunk chunks ih =>
    rw [followLogs, ih (notMem_drainSseBuf J _), List.flatMap_cons, ← List.append_assoc,
      drainSseBuf_append J (buf ++ lossy chunk)]

/-- The lines of a text are drained one after the other. -/
theorem drainSseBuf_textOf {lines : List (List Char)} (h : ∀ line ∈ lines, '\n' ∉ line) :
    (drainSseBuf J (textOf lines)).1 = lines.filterMap (readLine J) := by
  induction lines with
  | nil => exact congrArg Prod.fst (drainSseBuf_of_notMem J List.not_mem_nil)
  | cons line lines ih =>
    obtain ⟨hline, hlines⟩ := List.forall_mem_cons.mp h
    rw [textOf, List.flatMap_cons, List.append_assoc, List.singleton_append, ← textOf,
      drainSseBuf_line J hline, ih hlines]
    cases hread : readLine J line with
    | none => rw [List.filterMap_cons_none hread]; rfl
    | some e => rw [List.filterMap_cons_some hread]; rfl

/-! ## What a cut character does to an entry -/

/-- The characters of an entry's two texts. -/
def textSize (e : LogEntry) : ℕ := e.service.toList.length + e.message.toList.length

/-- A field that is stretched is one with a text that is stretched by as much. -/
theorem exists_of_stretched_field {name : String} (hname : ∀ c ∈ name.toList, c.toNat < 0x80)
    {n : ℕ} {text rest ts : List Char} (h : Stretched n (LogEntry.field name text ++ rest) ts) :
    ∃ n₁ n₂ text' rest', ts = LogEntry.field name text' ++ rest' ∧ Stretched n₁ text text' ∧
      Stretched n₂ rest rest' ∧ n = n₁ + n₂ := by
  have hstart : ∀ c ∈ LogEntry.fieldStart name, c.toNat < 0x80 := by
    intro c hc
    simp only [LogEntry.fieldStart, List.mem_cons, List.mem_append, List.not_mem_nil,
      or_false] at hc
    rcases hc with rfl | hc | rfl | rfl | rfl
    · decide
    · exact hname c hc
    iterate 3 decide
  rw [LogEntry.field, List.append_assoc, List.append_assoc] at h
  obtain ⟨ts₁, rfl, h₁⟩ := h.of_append_ascii hstart
  obtain ⟨n₁, n₂, text', ts₂, htext, h₂, rfl, rfl⟩ := h₁.of_append
  obtain ⟨rest', rfl, hrest⟩ := h₂.of_append_ascii (List.all_iff_forall_prop.mp (by decide))
  refine ⟨n₁, n₂, text', rest', ?_, htext, hrest, rfl⟩
  rw [LogEntry.field, List.append_assoc, List.append_assoc]

/-- The text of an entry that is stretched is that of an entry with longer texts. -/
theorem exists_of_stretched_toText {n : ℕ} {e : LogEntry} {ts : List Char}
    (h : Stretched n (J.toText e) ts) :
    ∃ e', ts = J.toText e' ∧ textSize e' = textSize e + n := by
  have hstream : ∀ c ∈ e.stream.name, c.toNat < 0x80 := by
    cases e.stream <;> exact List.all_iff_forall_prop.mp (by decide)
  rw [EntryJson.toText, LogEntry.object] at h
  obtain ⟨ts₁, rfl, h₁⟩ := h.of_cons_ascii (by decide)
  obtain ⟨k₁, m₁, timestamp, r₁, rfl, htimestamp, hr₁, rfl⟩ :=
    exists_of_stretched_field (List.all_iff_forall_prop.mp (by decide)) h₁
  obtain ⟨s₁, rfl, hs₁⟩ := hr₁.of_cons_ascii (by decide)
  obtain ⟨k₂, m₂, service, r₂, rfl, hservice, hr₂, rfl⟩ :=
    exists_of_stretched_field (List.all_iff_forall_prop.mp (by decide)) hs₁
  obtain ⟨s₂, rfl, hs₂⟩ := hr₂.of_cons_ascii (by decide)
  obtain ⟨k₃, m₃, stream, r₃, rfl, hname, hr₃, rfl⟩ :=
    exists_of_stretched_field (List.all_iff_forall_prop.mp (by decide)) hs₂
  obtain ⟨s₃, rfl, hs₃⟩ := hr₃.of_cons_ascii (by decide)
  obtain ⟨k₄, m₄, message, r₄, rfl, hmessage, hr₄, rfl⟩ :=
    exists_of_stretched_field (List.all_iff_forall_prop.mp (by decide)) hs₃
  obtain ⟨rfl, rfl⟩ := htimestamp.of_ascii fun c hc => (J.timestamp_ascii _ c hc).2
  obtain ⟨rfl, rfl⟩ := hname.of_ascii hstream
  obtain ⟨rfl, rfl⟩ := hr₄.of_ascii (List.all_iff_forall_prop.mp (by decide))
  obtain ⟨service', rfl, hservice'⟩ := Json.exists_of_stretched_escape hservice
  obtain ⟨message', rfl, hmessage'⟩ := Json.exists_of_stretched_escape hmessage
  refine ⟨⟨e.timestamp, String.ofList service', e.stream, String.ofList message'⟩, ?_, ?_⟩
  · rw [EntryJson.toText, LogEntry.object, String.toList_ofList, String.toList_ofList]
  · have hls := hservice'.length_eq
    have hlm := hmessage'.length_eq
    rw [textSize, textSize, String.toList_ofList, String.toList_ofList]
    omega

/-! ## The lines of the response -/

/-- A printable line has no carriage return to lose. -/
theorem rdropWhile_of_printable {line : List Char} (h : ∀ c ∈ line, 0x20 ≤ c.toNat) :
    line.rdropWhile (· = '\r') = line := by
  rw [List.rdropWhile_eq_self_iff]
  intro hne hlast
  have hge := h _ (List.getLast_mem hne)
  rw [of_decide_eq_true hlast] at hge
  exact absurd hge (by decide)

/-- A printable line has no end in it. -/
theorem notMem_of_printable {line : List Char} (h : ∀ c ∈ line, 0x20 ≤ c.toNat) : '\n' ∉ line :=
  fun hmem => absurd (h _ hmem) (by decide)

/-- `read_line` prints nothing for a comment. -/
theorem readLine_comment {text : List Char} (h : ∀ c ∈ text, 0x20 ≤ c.toNat) :
    readLine J (": ".toList ++ text) = none := by
  have hcolon : ∀ c ∈ ": ".toList, 0x20 ≤ c.toNat := List.all_iff_forall_prop.mp (by decide)
  have hprint : ∀ c ∈ ": ".toList ++ text, 0x20 ≤ c.toNat := fun c hc =>
    (List.mem_append.mp hc).elim (hcolon c) (h c)
  rw [readLine, rdropWhile_of_printable hprint]
  rfl

/-- The entry of an event is printed. -/
theorem readLine_data (e : LogEntry) :
    readLine J ("data: ".toList ++ J.toText e) = some e := by
  have hdata : ∀ c ∈ "data: ".toList, 0x20 ≤ c.toNat := List.all_iff_forall_prop.mp (by decide)
  have hprint : ∀ c ∈ "data: ".toList ++ J.toText e, 0x20 ≤ c.toNat := fun c hc =>
    (List.mem_append.mp hc).elim (hdata c) (J.le_toNat_of_mem_toText e)
  have htrim : Text.trim (' ' :: J.toText e) = J.toText e := by
    obtain ⟨s, hs⟩ := J.exists_toText_eq e
    rw [hs, Text.trim, List.dropWhile_cons_of_pos (by decide),
      List.dropWhile_cons_of_neg (by decide), ← List.cons_append,
      List.rdropWhile_concat_neg _ _ _ (by decide)]
  have hdrop : ("data: ".toList ++ J.toText e).dropPrefix? "data:".toList =
      some (' ' :: J.toText e) := rfl
  rw [readLine, rdropWhile_of_printable hprint, hdrop]
  show J.fromStr (Text.trim (' ' :: J.toText e)) = some e
  rw [htrim, EntryJson.fromStr_toText]

variable (services : List String)

/-- The text of an SSE response. -/
def sseText (items : List Followed) : List Char :=
  textOf (items.flatMap (Followed.sse J services))

/-- What is printed of an SSE response are its entries of the selected services. -/
theorem filterMap_readLine_sse (items : List Followed) :
    (items.flatMap (Followed.sse J services)).filterMap (readLine J) =
      items.filterMap (Followed.selected? services) := by
  induction items with
  | nil => rfl
  | cons item items ih =>
    rw [List.flatMap_cons, List.filterMap_append, ih]
    rcases item.cases_of_selected? J services with ⟨hnone, hsse, -⟩ |
      ⟨hnone, -, text, htext, hsse⟩ | ⟨e, hsome, -, hsse⟩
    · rw [hsse, List.filterMap_cons_none hnone]
      rfl
    · rw [hsse, List.filterMap_cons_none hnone,
        List.filterMap_cons_none (readLine_comment J fun c hc => (htext c hc).1)]
      rfl
    · rw [hsse, List.filterMap_cons_some hsome, List.filterMap_cons_some (readLine_data J e)]
      rfl

/-- The text of a line and an empty one is the line with two line ends. -/
theorem textOf_event (line : List Char) : textOf [line, []] = line ++ ['\n', '\n'] := by
  simp [textOf]

/-- The lines of an ASCII comment are ASCII. -/
theorem ascii_comment {text : List Char} (h : ∀ c ∈ text, c.toNat < 0x80) :
    ∀ c ∈ textOf [": ".toList ++ text, []], c.toNat < 0x80 := by
  have hcolon : ∀ c ∈ ": ".toList, c.toNat < 0x80 := List.all_iff_forall_prop.mp (by decide)
  have hend : ∀ c ∈ ['\n', '\n'], c.toNat < 0x80 := List.all_iff_forall_prop.mp (by decide)
  intro c hc
  rw [textOf_event, List.append_assoc, List.mem_append, List.mem_append] at hc
  rcases hc with hc | hc | hc
  · exact hcolon c hc
  · exact h c hc
  · exact hend c hc

/-- An event that is stretched is one with a longer entry. -/
theorem exists_of_stretched_event {n : ℕ} {e : LogEntry} {ts : List Char}
    (h : Stretched n (textOf ["data: ".toList ++ J.toText e, []]) ts) :
    ∃ e', ts = textOf ["data: ".toList ++ J.toText e', []] ∧ textSize e' = textSize e + n := by
  rw [textOf_event, List.append_assoc] at h
  obtain ⟨us, rfl, hus⟩ := h.of_append_ascii (List.all_iff_forall_prop.mp (by decide))
  obtain ⟨k₁, k₂, vs, ends, hvs, hends, rfl, rfl⟩ := hus.of_append
  obtain ⟨rfl, rfl⟩ := hends.of_ascii (List.all_iff_forall_prop.mp (by decide))
  obtain ⟨e', rfl, hsize⟩ := exists_of_stretched_toText J hvs
  exact ⟨e', by rw [textOf_event, List.append_assoc], hsize⟩

/-- What is sent for an item, stretched, is made of lines whose entries are longer by as much. -/
theorem exists_of_stretched_item {n : ℕ} {item : Followed} {ts : List Char}
    (h : Stretched n (textOf (item.sse J services)) ts) :
    ∃ lines, ts = textOf lines ∧ (∀ line ∈ lines, '\n' ∉ line) ∧
      ((lines.filterMap (readLine J)).map textSize).sum =
        (([item].filterMap (Followed.selected? services)).map textSize).sum + n := by
  rcases item.cases_of_selected? J services with ⟨hnone, hsse, -⟩ |
    ⟨hnone, -, text, htext, hsse⟩ | ⟨e, hsome, -, hsse⟩
  · rw [hsse] at h
    obtain ⟨rfl, rfl⟩ := h.of_ascii (List.forall_mem_nil _)
    exact ⟨[], rfl, List.forall_mem_nil _, by rw [List.filterMap_cons_none hnone]; rfl⟩
  · -- A comment stays as it is.
    rw [hsse] at h
    obtain ⟨rfl, rfl⟩ := h.of_ascii (ascii_comment fun c hc => (htext c hc).2)
    have hread := readLine_comment J fun c hc => (htext c hc).1
    refine ⟨[": ".toList ++ text, []], rfl, ?_, ?_⟩
    · rw [← hsse]
      exact fun line hl => notMem_of_printable fun c => Followed.le_toNat_of_mem_sse J services hl
    · rw [List.filterMap_cons_none hread, List.filterMap_cons_none hnone]
      rfl
  · rw [hsse] at h
    obtain ⟨e', rfl, hsize⟩ := exists_of_stretched_event J h
    have hprint : '\n' ∉ "data: ".toList ++ J.toText e' := fun hmem =>
      (List.mem_append.mp hmem).elim (by decide)
        (notMem_of_printable fun c => J.le_toNat_of_mem_toText e')
    refine ⟨_, rfl, List.forall_mem_cons.mpr
      ⟨hprint, List.forall_mem_singleton.mpr List.not_mem_nil⟩, ?_⟩
    rw [List.filterMap_cons_some (readLine_data J e'), List.filterMap_cons_some hsome]
    have hnil : ([[]] : List (List Char)).filterMap (readLine J) = [] := rfl
    simp only [hnil, List.filterMap_nil, List.map_cons, List.map_nil, List.sum_cons, List.sum_nil,
      hsize]
    omega

/-- An SSE response that is stretched is made of lines whose entries are longer by as much. -/
theorem exists_of_stretched_sseText {n : ℕ} {items : List Followed} {ts : List Char}
    (h : Stretched n (sseText J services items) ts) :
    ∃ lines, ts = textOf lines ∧ (∀ line ∈ lines, '\n' ∉ line) ∧
      ((lines.filterMap (readLine J)).map textSize).sum =
        ((items.filterMap (Followed.selected? services)).map textSize).sum + n := by
  induction items generalizing n ts with
  | nil =>
    obtain ⟨rfl, rfl⟩ := h.of_ascii (List.forall_mem_nil _)
    exact ⟨[], rfl, List.forall_mem_nil _, rfl⟩
  | cons item items ih =>
    rw [sseText, List.flatMap_cons, textOf_append, ← sseText] at h
    obtain ⟨n₁, n₂, ts₁, ts₂, h₁, h₂, rfl, rfl⟩ := h.of_append
    obtain ⟨first, rfl, hfirst, hsum₁⟩ := exists_of_stretched_item J services h₁
    obtain ⟨lines, rfl, hlines, hsum₂⟩ := ih h₂
    refine ⟨first ++ lines, (textOf_append _ _).symm,
      List.forall_mem_append.mpr ⟨hfirst, hlines⟩, ?_⟩
    rw [← List.singleton_append, List.filterMap_append, List.filterMap_append, List.map_append,
      List.map_append, List.sum_append, List.sum_append, hsum₁, hsum₂]
    omega

/-- If the entries are printed as they were sent, every chunk is UTF-8. -/
theorem decodeUtf8_of_followLogs_eq {items : List Followed} {chunks : List (List UInt8)}
    (hchunks : chunks.flatten = encode (sseText J services items))
    (h : followLogs J [] chunks = items.filterMap (Followed.selected? services)) :
    ∀ chunk ∈ chunks, decodeUtf8 chunk ≠ none := by
  -- A character that is cut makes some entry longer.
  obtain ⟨n, ts, hst, hlossy, hall⟩ := Utf8.exists_stretched (q := []) hchunks
    (List.forall_mem_nil _)
  obtain ⟨lines, rfl, hlines, hsum⟩ := exists_of_stretched_sseText J services hst
  rw [followLogs_eq J List.not_mem_nil, hlossy] at h
  have hprinted : lines.filterMap (readLine J) =
      items.filterMap (Followed.selected? services) := by
    rw [← drainSseBuf_textOf J hlines, ← h]
    rfl
  rw [hprinted] at hsum
  intro chunk hc
  obtain ⟨s, rfl⟩ := hall rfl (by omega) chunk hc
  rw [decodeUtf8_eq_some_iff.mpr (congrArg encode String.toList_ofList.symm)]
  exact Option.some_ne_none _

/-- If every chunk is UTF-8, the entries are printed as they were sent. -/
theorem followLogs_eq_of_decodeUtf8 {items : List Followed} {chunks : List (List UInt8)}
    (hchunks : chunks.flatten = encode (sseText J services items))
    (h : ∀ chunk ∈ chunks, decodeUtf8 chunk ≠ none) :
    followLogs J [] chunks = items.filterMap (Followed.selected? services) := by
  have hall : ∀ chunk ∈ chunks, ∃ s, chunk = encode s := fun chunk hc => by
    obtain ⟨text, htext⟩ := Option.ne_none_iff_exists'.mp (h chunk hc)
    exact ⟨text.toList, decodeUtf8_eq_some_iff.mp htext⟩
  have hlines : ∀ line ∈ items.flatMap (Followed.sse J services), '\n' ∉ line := fun line hl => by
    obtain ⟨item, -, hl⟩ := List.mem_flatMap.mp hl
    exact notMem_of_printable fun c => Followed.le_toNat_of_mem_sse J services hl
  rw [followLogs_eq J List.not_mem_nil, Utf8.flatMap_lossy_eq hchunks hall, List.nil_append,
    sseText, drainSseBuf_textOf J hlines, filterMap_readLine_sse]

/-- The client prints the entries of an SSE response as they were sent, each once and in order,
exactly when every chunk of the response is UTF-8 by itself. -/
theorem followLogs_eq_iff (items : List Followed) (chunks : List (List UInt8))
    (hchunks : chunks.flatten = encode (sseText J services items)) :
    followLogs J [] chunks = items.filterMap (Followed.selected? services) ↔
      ∀ chunk ∈ chunks, decodeUtf8 chunk ≠ none :=
  ⟨decodeUtf8_of_followLogs_eq J services hchunks, followLogs_eq_of_decodeUtf8 J services hchunks⟩

/-- An entry whose message is not in ASCII, after a comment. -/
def accent : List Followed := [.keepAlive, .entry ⟨0, "web", .stdout, "é"⟩]

/-- The sample response, cut inside a line, is printed right if and only if both chunks are
UTF-8. -/
theorem followLogs_eq_iff_line :
    followLogs .epoch [] [encode ((sseText .epoch [] accent).take 12),
        encode ((sseText .epoch [] accent).drop 12)] =
      accent.filterMap (Followed.selected? []) ↔
    ∀ chunk ∈ [encode ((sseText .epoch [] accent).take 12),
      encode ((sseText .epoch [] accent).drop 12)], decodeUtf8 chunk ≠ none :=
  followLogs_eq_iff .epoch [] accent _ (by
    rw [List.flatten_cons, List.flatten_singleton, ← Utf8.encode_append, List.take_append_drop])

/-- Its response, cut between the two bytes of the character: the entry is not printed as it was
sent. -/
theorem followLogs_ne_of_cut :
    followLogs .epoch [] [(encode (sseText .epoch [] accent)).take 96,
        (encode (sseText .epoch [] accent)).drop 96] ≠
      accent.filterMap (Followed.selected? []) := by
  intro h
  have hall := decodeUtf8_of_followLogs_eq .epoch [] (by
    rw [List.flatten_cons, List.flatten_singleton, List.take_append_drop]) h
  exact hall _ List.mem_cons_self (by decide +kernel)

end Client

end Vigil
