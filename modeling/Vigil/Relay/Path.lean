import Vigil.Lib.Broadcast
import Vigil.Logs.Push
import Vigil.Relay.Sinks

/-!
# From the store to the sink

All that is between the store of vigild and the TCP sink of the relay that follows it: the tasks
that push entries, the follow request with its receiver, the bytes of the response that are on their
way and those that have come, `stream_loop` with its filter, the channel and the sink's task. Each
goes on at any time and by itself: the response arrives in parts of any length, and the connection
may be lost, and made again, at any point.

What a connection has been given, the records that `stream_loop` has read, and the bytes that it has
yet to read always make up the same records (`Carries`). So an entry can be lost in three places
only: a receiver has missed it, its connection was lost, or the channel was full.
`relayed_of_reaches` says this, and that nothing else happens to the entries: what the sink has
written are records of entries that were announced, in their order and none twice.
-/

namespace Vigil

open Broadcast (Received Accounts span values)
open Utf8 (encode)
open Runs

/-- The formats of a response that a relay is meant to follow. -/
inductive RelayFormat
  | json
  | ndjson
  deriving DecidableEq, Repr

/-- What the relay and its request are given. -/
structure PathConfig where
  services : List String := []
  format : RelayFormat := .ndjson
  filter : LineFilter := {}
  sink : SinkConfig := {}

namespace PathConfig

variable (cfg : PathConfig) (J : EntryJson)

/-- The lines of the response for what the follower is given. -/
def lines (item : Followed) : List (List Char) :=
  match cfg.format with
  | .json => item.sse J cfg.services
  | .ndjson => item.ndjson J cfg.services

/-- The records of some entries. -/
def records (entries : List LogEntry) : List String :=
  (entries.filter (Followed.selects cfg.services)).filterMap fun e =>
    forwardLine cfg.filter (J.toText e)

end PathConfig

/-- A follow request and its response. -/
structure FollowConn where
  /-- The place where its receiver has begun. -/
  start : ℕ
  /-- The place of its receiver. -/
  next : ℕ
  /-- What the receiver has been given. -/
  received : List (Received LogEntry) := []
  /-- The bytes of the response that are on their way. -/
  wire : List UInt8 := []
  /-- The bytes that have come and have not been read. -/
  buffer : List UInt8 := []
  /-- The records of the lines that have been read. The relay does not keep them. -/
  read : List String := []
  deriving DecidableEq

/-- A store and a relay that follows it. -/
structure LogPath where
  store : LogStore
  /-- The number of entries that the broadcast channel keeps. -/
  capacity : ℕ
  /-- The connection that there is. -/
  conn : Option FollowConn := none
  /-- The connections that were lost, the oldest first. -/
  lost : List FollowConn := []
  sink : TcpSink
  /-- How often the channel was full. The relay does not count it. -/
  dropped : ℕ := 0

/-- What happens. -/
inductive LogPathLabel
  /-- A task that pushes to the store does its next step. -/
  | store (i : ℕ)
  /-- The follow request is made, and the response has begun. -/
  | connect
  /-- The stream of the response is given something. -/
  | recv
  /-- The interval of `KeepAlive` has passed. -/
  | keepAlive
  /-- So many bytes arrive. -/
  | arrive (n : ℕ)
  /-- `next_line` returns. -/
  | read
  /-- The read fails, or the idle timeout expires. -/
  | lose
  /-- The sink's task goes on. -/
  | sink (l : SinkLabel)

/-- What the sink's task does, as opposed to the source. -/
def SinkLabel.isOwn : SinkLabel → Bool
  | .send _ | .close => false
  | _ => true

namespace TcpSink

variable {cfg : SinkConfig} {s s' : TcpSink}

/-- A send adds its line behind those that have been sent. -/
theorem sent_of_send {line : String} (h : s.step cfg (.send line) = some s') :
    s'.sent = s.sent ++ [line] := by
  simp only [step] at h
  split_ifs at h
  split at h
  · exact Option.some.inj h ▸ rfl
  · cases h

/-- A step of the sink's task sends no further line. -/
theorem sent_of_isOwn {l : SinkLabel} (h : s.step cfg l = some s') (hown : l.isOwn = true) :
    s'.sent = s.sent := by
  cases l with
  | send | close => cases hown
  | connect | wake | idle =>
    simp only [step] at h
    split_ifs at h <;> exact Option.some.inj h ▸ rfl
  | next =>
    obtain ⟨-, h⟩ := Option.ite_none_right_eq_some.mp h
    split at h
    · exact Option.some.inj h ▸ rfl
    · exact Option.some.inj h ▸ rfl
    · split_ifs at h
      exact Option.some.inj h ▸ rfl
  | write =>
    simp only [step] at h
    split at h
    · split_ifs at h <;> exact Option.some.inj h ▸ rfl
    · cases h

end TcpSink

namespace LogPath

variable (J : EntryJson) (src : LineSource) (cfg : PathConfig) (s : LogPath)

/-- What the stream makes of what its receiver is given. -/
def followed : Received LogEntry → Followed
  | .value e => .entry e
  | .lagged n => .lagged n

/-- The response goes on. -/
def respond (c : FollowConn) (item : Followed) : FollowConn :=
  { c with wire := c.wire ++ encode (textOf (cfg.lines J item)) }

/-- The stream is given what its receiver is given. -/
def receive (c : FollowConn) (r : Received LogEntry) (next : ℕ) : FollowConn :=
  respond J cfg { c with next, received := c.received ++ [r] } (followed r)

/-- `forward_line` has made a record of a line, or nothing. -/
def forward (c : FollowConn) : Option String → LogPath
  | none => { s with conn := some c }
  | some record =>
    let c := { c with read := c.read ++ [record] }
    match s.sink.step cfg.sink (.send record) with
    | some sink => { s with conn := some c, sink }
    | none => { s with conn := some c, dropped := s.dropped + 1 }

/-- The connection is lost, with the bytes that have not been read. -/
def loseConn (c : FollowConn) : LogPath := { s with conn := none, lost := s.lost ++ [c] }

/-- One step. -/
def step : LogPathLabel → Option LogPath
  | .store i => (s.store.step i).map fun store => { s with store }
  | .connect =>
    match s.conn with
    | none =>
      let start := s.store.broadcast.length
      some { s with conn := some { start, next := start } }
    | some _ => none
  | .recv =>
    s.conn.bind fun c => (Broadcast.recv s.capacity s.store.broadcast c.next).map fun r =>
      { s with conn := some (receive J cfg c r.1 r.2) }
  | .keepAlive =>
    match cfg.format with
    | .json => s.conn.map fun c => { s with conn := some (respond J cfg c .keepAlive) }
    | .ndjson => none
  | .arrive n =>
    s.conn.map fun c => { s with
      conn := some { c with buffer := c.buffer ++ c.wire.take n, wire := c.wire.drop n } }
  | .read =>
    s.conn.bind fun c =>
      -- The response has no end, so that a line is read when its newline has come.
      if 10 ∈ c.buffer then
        match src.nextLine c.buffer with
        | .line text rest =>
          some (s.forward cfg { c with buffer := rest } (forwardLine cfg.filter text.toList))
        | .eof | .error => some (s.loseConn c)
      else none
  | .lose => s.conn.map s.loseConn
  | .sink l =>
    if l.isOwn then (s.sink.step cfg.sink l).map fun sink => { s with sink } else none

/-- All connections, the oldest first. -/
def conns : List FollowConn := s.lost ++ s.conn.toList

/-- A relay that has just been started. -/
def start (store : LogStore) (capacity sinkCapacity : ℕ) : LogPath :=
  { store, capacity, sink := .start cfg.sink sinkCapacity }

/-- The relay has been given everything that was announced, and has read it. -/
def CaughtUp (c : FollowConn) : Prop :=
  c.next = s.store.broadcast.length ∧ c.wire = [] ∧ c.buffer = []

/-- Nothing has been lost on the way. -/
def Lossless (c : FollowConn) : Prop :=
  (∀ n, .lagged n ∉ c.received) ∧ s.lost = [] ∧ s.dropped = 0

variable {J src cfg s} {s' : LogPath}

/-! ## Steps -/

/-- What one step does. -/
inductive PathStep (J : EntryJson) (src : LineSource) (cfg : PathConfig) (s : LogPath) :
    LogPath → Prop
  | store {i store} (h : s.store.step i = some store) : PathStep J src cfg s { s with store }
  | connected (hc : s.conn = none) :
    PathStep J src cfg s { s with
      conn := some { start := s.store.broadcast.length, next := s.store.broadcast.length } }
  | recv {c r next} (hc : s.conn = some c)
    (hr : Broadcast.recv s.capacity s.store.broadcast c.next = some (r, next)) :
    PathStep J src cfg s { s with conn := some (receive J cfg c r next) }
  | keepAlive {c} (hc : s.conn = some c) :
    PathStep J src cfg s { s with conn := some (respond J cfg c .keepAlive) }
  | arrived {c} (hc : s.conn = some c) (n : ℕ) :
    PathStep J src cfg s { s with
      conn := some { c with buffer := c.buffer ++ c.wire.take n, wire := c.wire.drop n } }
  | read {c text rest} (hc : s.conn = some c) (hmark : 10 ∈ c.buffer)
    (hline : src.nextLine c.buffer = .line text rest) :
    PathStep J src cfg s
      (s.forward cfg { c with buffer := rest } (forwardLine cfg.filter text.toList))
  | lost {c} (hc : s.conn = some c) : PathStep J src cfg s (s.loseConn c)
  | sink {l sink} (hown : l.isOwn = true) (h : s.sink.step cfg.sink l = some sink) :
    PathStep J src cfg s { s with sink }

/-- Every step is one of those that `PathStep` lists. -/
theorem step_cases {l : LogPathLabel} (h : s.step J src cfg l = some s') :
    PathStep J src cfg s s' := by
  cases l with
  | store i =>
    obtain ⟨store, hstore, rfl⟩ := Option.map_eq_some_iff.mp h
    exact .store hstore
  | connect =>
    simp only [step] at h
    split at h
    · next hc => exact Option.some.inj h ▸ .connected hc
    · cases h
  | recv =>
    obtain ⟨c, hc, h⟩ := Option.bind_eq_some_iff.mp h
    obtain ⟨⟨r, next⟩, hr, rfl⟩ := Option.map_eq_some_iff.mp h
    exact .recv hc hr
  | keepAlive =>
    simp only [step] at h
    split at h
    · obtain ⟨c, hc, rfl⟩ := Option.map_eq_some_iff.mp h
      exact .keepAlive hc
    · cases h
  | arrive n =>
    obtain ⟨c, hc, rfl⟩ := Option.map_eq_some_iff.mp h
    exact .arrived hc n
  | read =>
    obtain ⟨c, hc, h⟩ := Option.bind_eq_some_iff.mp h
    split_ifs at h with hmark
    split at h
    · next text rest hline => exact Option.some.inj h ▸ .read hc hmark hline
    · exact Option.some.inj h ▸ .lost hc
    · exact Option.some.inj h ▸ .lost hc
  | lose =>
    obtain ⟨c, hc, rfl⟩ := Option.map_eq_some_iff.mp h
    exact .lost hc
  | sink l =>
    simp only [step] at h
    split_ifs at h with hown
    obtain ⟨sink, hsink, rfl⟩ := Option.map_eq_some_iff.mp h
    exact .sink hown hsink

/-! ## What a connection carries -/

/-- A printable line whose newline has come is the next one. -/
theorem nextLine_encode_append {line : List Char} (h : ∀ d ∈ line, 0x20 ≤ d.toNat)
    (rest : List UInt8) :
    src.nextLine (encode line ++ 10 :: rest) = .line (String.ofList line) rest := by
  have hnot (b : UInt8) (hb : b.toNat < 0x20) : b ∉ encode line := fun hmem =>
    absurd (not_control_of_mem_encode h hmem) (Nat.not_le.mpr hb)
  have hsplit : splitLine (encode line ++ 10 :: rest) = (encode line, rest) := by
    rw [splitLine_append (hnot 10 (by decide)), stripCr_of_notMem (hnot 13 (by decide))]
  have hdecode : decodeUtf8 (splitLine (encode line ++ 10 :: rest)).1 =
      some (String.ofList line) := by
    rw [hsplit, decodeUtf8_eq_some_iff, String.toList_ofList]
  have hne : encode line ++ 10 :: rest ≠ [] :=
    List.append_ne_nil_of_right_ne_nil _ (List.cons_ne_nil _ _)
  rw [src.nextLine_of_some _ _ hne hdecode, hsplit]

/-- The lines of a response are printable. -/
theorem le_toNat_of_mem_lines {item : Followed} :
    ∀ line ∈ cfg.lines J item, ∀ d ∈ line, 0x20 ≤ d.toNat := by
  intro line hline d hd
  unfold PathConfig.lines at hline
  split at hline
  · exact Followed.le_toNat_of_mem_sse J cfg.services hline hd
  · exact Followed.le_toNat_of_mem_ndjson J cfg.services hline hd

/-- The relay makes of the lines for one item the record of its entry, if it is selected. -/
theorem filterMap_lines (item : Followed) :
    (cfg.lines J item).filterMap (forwardLine cfg.filter) =
      (item.selected? cfg.services).toList.filterMap fun e =>
        forwardLine cfg.filter (J.toText e) := by
  have hevent (line : List Char) : [line, []].filterMap (forwardLine cfg.filter) =
      (forwardLine cfg.filter line).toList := by
    cases hline : forwardLine cfg.filter line <;> simp [hline]
  have hentry (e : LogEntry) : (some e).toList.filterMap (fun e =>
      forwardLine cfg.filter (J.toText e)) = (forwardLine cfg.filter (J.toText e)).toList := by
    cases hline : forwardLine cfg.filter (J.toText e) <;> simp [hline]
  unfold PathConfig.lines
  rcases item.cases_of_selected? J cfg.services with ⟨hnone, hsse, hnd⟩ |
    ⟨hnone, hnd, text, -, hsse⟩ | ⟨e, hsome, hnd, hsse⟩
  · rw [hnone, hsse, hnd]
    split <;> rfl
  · rw [hnone, hsse, hnd]
    split
    · rw [hevent, forwardLine_comment]
      rfl
    · rfl
  · rw [hsome, hsse, hnd, hentry]
    obtain ⟨text, htext⟩ := J.exists_toText_eq e
    split
    · rw [hevent, htext, forwardLine_data]
    · exact hentry e

/-- Records of entries that follow each other. -/
theorem records_append (es es' : List LogEntry) :
    cfg.records J (es ++ es') = cfg.records J es ++ cfg.records J es' := by
  rw [PathConfig.records, List.filter_append, List.filterMap_append]
  rfl

/-- The relay makes of the lines of an item the records of the entries that the receiver was
given. -/
theorem filterMap_lines_followed (r : Received LogEntry) :
    (cfg.lines J (followed r)).filterMap (forwardLine cfg.filter) =
      cfg.records J (values [r]) := by
  rw [filterMap_lines]
  cases r with
  | lagged => rfl
  | value e =>
    by_cases hselects : Followed.selects cfg.services e = true <;>
      simp [followed, Followed.selected?, PathConfig.records, hselects]

/-- What has been read of a connection, and the lines that it has yet to read. -/
structure Carries (J : EntryJson) (cfg : PathConfig) (c : FollowConn)
    (pending : List (List Char)) : Prop where
  printable : ∀ line ∈ pending, ∀ d ∈ line, 0x20 ≤ d.toNat
  bytes : c.buffer ++ c.wire = encode (textOf pending)
  records : cfg.records J (values c.received) =
    c.read ++ pending.filterMap (forwardLine cfg.filter)

variable {c : FollowConn} {pending : List (List Char)}

/-- A connection carries one more item of the response. -/
theorem Carries.respond (h : Carries J cfg c pending) {next : ℕ}
    {received : List (Received LogEntry)} {item : Followed}
    (hreceived : cfg.records J (values received) = cfg.records J (values c.received) ++
      (cfg.lines J item).filterMap (forwardLine cfg.filter)) :
    Carries J cfg (LogPath.respond J cfg { c with next, received } item)
      (pending ++ cfg.lines J item) where
  printable := List.forall_mem_append.mpr ⟨h.printable, le_toNat_of_mem_lines⟩
  bytes := by
    rw [textOf_append, Utf8.encode_append, ← h.bytes, List.append_assoc]
    rfl
  records := by
    show _ = c.read ++ _
    rw [List.filterMap_append, ← List.append_assoc, ← h.records]
    exact hreceived

/-- A connection carries the same when bytes arrive. -/
theorem Carries.arrive (h : Carries J cfg c pending) (n : ℕ) :
    Carries J cfg { c with buffer := c.buffer ++ c.wire.take n, wire := c.wire.drop n }
      pending where
  printable := h.printable
  bytes := by
    show c.buffer ++ c.wire.take n ++ c.wire.drop n = _
    rw [List.append_assoc, List.take_append_drop, h.bytes]
  records := h.records

/-- A line is read: it is the first one that has yet to be read, whatever parts it came in. -/
theorem Carries.read (h : Carries J cfg c pending) {text : String} {rest : List UInt8}
    (hmark : 10 ∈ c.buffer) (hline : src.nextLine c.buffer = .line text rest) :
    ∃ later, Carries J cfg { c with
      buffer := rest, read := c.read ++ (forwardLine cfg.filter text.toList).toList } later := by
  obtain ⟨hprintable, hbytes, hrecords⟩ := h
  cases pending with
  | nil =>
    rw [show encode (textOf []) = [] from rfl, List.append_eq_nil_iff] at hbytes
    rw [hbytes.1] at hmark
    exact absurd hmark List.not_mem_nil
  | cons line later =>
    obtain ⟨hfirst, hlater⟩ := List.forall_mem_cons.mp hprintable
    have hframe : 10 ∉ encode line := fun hmem =>
      absurd (not_control_of_mem_encode hfirst hmem) (by decide)
    have hsplit : encode (textOf (line :: later)) = encode line ++ 10 :: encode (textOf later) := by
      rw [textOf, List.flatMap_cons, Utf8.encode_append, Utf8.encode_append, List.append_assoc]
      rfl
    obtain ⟨tail, htail, hrest⟩ :=
      Framing.exists_of_append_eq hframe hmark (hbytes.trans hsplit)
    rw [htail, nextLine_encode_append hfirst] at hline
    cases hline
    refine ⟨later, hlater, hrest, ?_⟩
    rw [String.toList_ofList, hrecords, List.append_assoc]
    cases hrecord : forwardLine cfg.filter line with
    | none => rw [List.filterMap_cons_none hrecord]; rfl
    | some record => rw [List.filterMap_cons_some hrecord]; rfl

/-! ## Runs -/

/-- What is true of a connection. -/
structure Linked (J : EntryJson) (cfg : PathConfig) (sent : List LogEntry) (c : FollowConn) :
    Prop where
  follows : Broadcast.Follows sent c.start c.next c.received
  carries : ∃ pending, Carries J cfg c pending

/-- What every state of a run satisfies. -/
structure Inv (J : EntryJson) (cfg : PathConfig) (s : LogPath) : Prop where
  linked : ∀ c ∈ s.conns, Linked J cfg s.store.broadcast c
  windows : s.conns.Pairwise fun c d => c.next ≤ d.start
  sublist : s.sink.sent.Sublist (s.conns.flatMap FollowConn.read)
  length : s.sink.sent.length + s.dropped = (s.conns.flatMap FollowConn.read).length
  accounted : s.sink.Accounted

/-- The connections, with the one that there is. -/
theorem conns_of_conn (h : s.conn = some c) : s.conns = s.lost ++ [c] := by
  rw [conns, h, Option.toList_some]

/-- The connections, if there is none at present. -/
theorem conns_of_none (h : s.conn = none) : s.conns = s.lost := by
  rw [conns, h, Option.toList_none, List.append_nil]

/-- The connection that there is has not begun before the others have ended. -/
theorem Inv.windows_replace (h : s.Inv J cfg) (hc : s.conn = some c) {c' : FollowConn}
    (hstart : c'.start = c.start) :
    (s.lost ++ [c']).Pairwise fun c d => c.next ≤ d.start := by
  have hwindows := h.windows
  rw [conns_of_conn hc] at hwindows
  obtain ⟨hpair, -, hlast⟩ := List.pairwise_append.mp hwindows
  refine List.pairwise_append.mpr ⟨hpair, List.pairwise_singleton _ _, fun d hd e he => ?_⟩
  obtain rfl := List.mem_singleton.mp he
  rw [hstart]
  exact hlast d hd c List.mem_cons_self

/-- The connection that there is goes on. -/
theorem Inv.replace (h : s.Inv J cfg) (hc : s.conn = some c) {c' : FollowConn}
    (hlinked : Linked J cfg s.store.broadcast c') (hstart : c'.start = c.start)
    (hread : c'.read = c.read) : Inv J cfg { s with conn := some c' } := by
  have hreads : (s.lost ++ [c']).flatMap FollowConn.read = s.conns.flatMap FollowConn.read := by
    simp [conns_of_conn hc, hread]
  refine ⟨?_, h.windows_replace hc hstart, ?_, ?_, h.accounted⟩
  · refine List.forall_mem_append.mpr ⟨fun d hd => ?_, List.forall_mem_singleton.mpr hlinked⟩
    exact h.linked d (List.mem_append_left _ hd)
  · show s.sink.sent.Sublist ((s.lost ++ [c']).flatMap FollowConn.read)
    rw [hreads]
    exact h.sublist
  · show _ = ((s.lost ++ [c']).flatMap FollowConn.read).length
    rw [hreads]
    exact h.length

/-- The connection that there is, is linked to the announcements. -/
theorem Inv.linked_conn (h : s.Inv J cfg) (hc : s.conn = some c) :
    Linked J cfg s.store.broadcast c :=
  h.linked c (by rw [conns_of_conn hc]; exact List.mem_append_right _ List.mem_cons_self)

/-- The invariant is kept when a line has been read and is forwarded or not. -/
theorem Inv.forward (h : s.Inv J cfg) (hc : s.conn = some c) {rest : List UInt8}
    {record : Option String}
    (hcarries : ∃ later, Carries J cfg
      { c with buffer := rest, read := c.read ++ record.toList } later) :
    Inv J cfg (s.forward cfg { c with buffer := rest } record) := by
  have hfollows := (h.linked_conn hc).follows
  cases record with
  | none =>
    refine h.replace hc ⟨hfollows, ?_⟩ rfl rfl
    simpa using hcarries
  | some record =>
    set c' : FollowConn := { c with buffer := rest, read := c.read ++ [record] } with hc'
    have hlinked : ∀ d ∈ s.lost ++ [c'], Linked J cfg s.store.broadcast d :=
      List.forall_mem_append.mpr
        ⟨fun d hd => h.linked d (List.mem_append_left _ hd),
          List.forall_mem_singleton.mpr ⟨hfollows, hcarries⟩⟩
    have hwindows : (s.lost ++ [c']).Pairwise fun c d => c.next ≤ d.start :=
      h.windows_replace hc rfl
    have hreads : (s.lost ++ [c']).flatMap FollowConn.read =
        s.conns.flatMap FollowConn.read ++ [record] := by
      simp [conns_of_conn hc, hc']
    have hlength := h.length
    simp only [LogPath.forward]
    split
    · next sink hsink =>
      have hsent : sink.sent = s.sink.sent ++ [record] := TcpSink.sent_of_send hsink
      refine ⟨hlinked, hwindows, ?_, ?_, h.accounted.send hsink⟩
      · show sink.sent.Sublist ((s.lost ++ [c']).flatMap FollowConn.read)
        rw [hreads, hsent]
        exact h.sublist.append (List.Sublist.refl _)
      · show sink.sent.length + s.dropped = ((s.lost ++ [c']).flatMap FollowConn.read).length
        rw [hreads, hsent, List.length_append, List.length_append]
        omega
    · -- The channel is full.
      refine ⟨hlinked, hwindows, ?_, ?_, h.accounted⟩
      · show s.sink.sent.Sublist ((s.lost ++ [c']).flatMap FollowConn.read)
        rw [hreads]
        exact h.sublist.trans (List.sublist_append_left _ _)
      · show s.sink.sent.length + (s.dropped + 1) =
          ((s.lost ++ [c']).flatMap FollowConn.read).length
        rw [hreads, List.length_append, List.length_singleton]
        omega

/-- The invariant is kept by every step. -/
theorem Inv.step (h : s.Inv J cfg) {l : LogPathLabel} (hs : s.step J src cfg l = some s') :
    s'.Inv J cfg := by
  cases step_cases hs with
  | store hstore =>
    obtain ⟨later, hlater⟩ := LogStore.exists_broadcast_append hstore
    refine ⟨fun c hc => ?_, h.windows, h.sublist, h.length, h.accounted⟩
    obtain ⟨hfollows, hcarries⟩ := h.linked c hc
    refine ⟨?_, hcarries⟩
    show Broadcast.Follows _ _ _ _
    rw [hlater]
    exact hfollows.append later
  | connected hc =>
    have hconns := conns_of_none hc
    obtain ⟨hlinked, hwindows, hsublist, hlength, haccounted⟩ := h
    rw [hconns] at hlinked hwindows hsublist hlength
    refine ⟨List.forall_mem_append.mpr ⟨hlinked, List.forall_mem_singleton.mpr ?_⟩,
      List.pairwise_append.mpr ⟨hwindows, List.pairwise_singleton _ _, ?_⟩, ?_, ?_, haccounted⟩
    · exact ⟨Broadcast.follows_length _, [], List.forall_mem_nil _, rfl, rfl⟩
    · intro d hd e he
      rw [List.mem_singleton.mp he]
      exact (hlinked d hd).follows.next_le
    · simpa [conns] using hsublist
    · simpa [conns] using hlength
  | @recv c r next hc hr =>
    obtain ⟨hfollows, pending, hcarries⟩ := h.linked_conn hc
    refine h.replace hc ⟨hfollows.recv hr, _, hcarries.respond ?_⟩ rfl rfl
    rw [Broadcast.values_append, records_append, filterMap_lines_followed]
  | @keepAlive c hc =>
    obtain ⟨hfollows, pending, hcarries⟩ := h.linked_conn hc
    have hresponds : Carries J cfg (LogPath.respond J cfg c .keepAlive)
        (pending ++ cfg.lines J .keepAlive) := hcarries.respond (by
      rw [filterMap_lines]
      exact (List.append_nil _).symm)
    exact h.replace hc ⟨hfollows, _, hresponds⟩ rfl rfl
  | arrived hc n =>
    obtain ⟨hfollows, pending, hcarries⟩ := h.linked_conn hc
    exact h.replace hc ⟨hfollows, pending, hcarries.arrive n⟩ rfl rfl
  | read hc hmark hline =>
    obtain ⟨-, pending, hcarries⟩ := h.linked_conn hc
    exact h.forward hc (hcarries.read hmark hline)
  | lost hc =>
    have hconns : ∀ c, s.conn = some c → (s.loseConn c).conns = s.conns := fun c hc => by
      rw [conns_of_conn hc, conns, loseConn, Option.toList_none, List.append_nil]
    obtain ⟨hlinked, hwindows, hsublist, hlength, haccounted⟩ := h
    rw [← hconns _ hc] at hlinked hwindows hsublist hlength
    exact ⟨hlinked, hwindows, hsublist, hlength, haccounted⟩
  | sink hown hsink =>
    have hsent := TcpSink.sent_of_isOwn hsink hown
    refine ⟨h.linked, h.windows, ?_, ?_, h.accounted.step hsink⟩
    · rw [hsent]
      exact h.sublist
    · rw [hsent]
      exact h.length

/-- A relay that has just been started. -/
theorem inv_start (store : LogStore) (capacity sinkCapacity : ℕ) :
    Inv J cfg (start cfg store capacity sinkCapacity) where
  linked := List.forall_mem_nil _
  windows := .nil
  sublist := List.Sublist.refl _
  length := rfl
  accounted := ⟨rfl, fun _ _ => rfl, fun h => by cases h⟩

/-- Records of entries that are among others, in order. -/
theorem records_sublist {es es' : List LogEntry} (h : es.Sublist es') :
    (cfg.records J es).Sublist (cfg.records J es') := (h.filter _).filterMap _

/-- The records of some connections together are those of their entries together. -/
theorem records_flatMap (cs : List FollowConn) (entries : FollowConn → List LogEntry) :
    (cs.flatMap fun c => cfg.records J (entries c)) = cfg.records J (cs.flatMap entries) := by
  induction cs with
  | nil => rfl
  | cons c cs ih => rw [List.flatMap_cons, List.flatMap_cons, records_append, ih]

/-- What has been read of a connection is the beginning of its records. -/
theorem Linked.isPrefix_read {sent : List LogEntry} (h : Linked J cfg sent c) :
    c.read <+: cfg.records J (values c.received) := by
  obtain ⟨-, pending, hcarries⟩ := h
  rw [hcarries.records]
  exact List.prefix_append _ _

/-- Where no bytes are left, all records of what has been received have been read. -/
theorem Linked.read_eq {sent : List LogEntry} (h : Linked J cfg sent c) (hwire : c.wire = [])
    (hbuffer : c.buffer = []) : c.read = cfg.records J (values c.received) := by
  obtain ⟨-, pending, hcarries⟩ := h
  have hbytes := hcarries.bytes
  rw [hwire, hbuffer, List.append_nil] at hbytes
  cases pending with
  | nil => rw [hcarries.records, List.filterMap_nil, List.append_nil]
  | cons line later =>
    rw [textOf, List.flatMap_cons, Utf8.encode_append, Utf8.encode_append] at hbytes
    exact absurd hbytes (by simp [encode])

variable {store : LogStore} {capacity sinkCapacity : ℕ}

/-- The way of the entries from the store to the sink, in any run. A connection has a stretch of
what is announced, each entry of which was received or missed, and the relay has read the beginning
of the records of what was received, which is all once no bytes are left. Of what it has read, the
channel has taken all but those that found it full, in their order. What it has taken is what the
sink has written, what it holds, and what waits. These are records of entries that were announced,
in their order and none twice. They are the records of everything that was announced since the relay
connected, if it has caught up, and no receiver has missed an entry, no connection was lost, and the
channel was never full. -/
theorem relayed_of_reaches
    (h : Reaches (step J src cfg) Always (start cfg store capacity sinkCapacity) s) :
    (∀ c ∈ s.conns, Accounts (span s.store.broadcast c.start c.next) c.received ∧
      c.read <+: cfg.records J (values c.received) ∧
        (c.wire = [] → c.buffer = [] → c.read = cfg.records J (values c.received))) ∧
      s.sink.sent.Sublist (s.conns.flatMap FollowConn.read) ∧
      s.sink.sent.length + s.dropped = (s.conns.flatMap FollowConn.read).length ∧
      s.sink.sent = s.sink.written ++ s.sink.held ++ s.sink.rx.items ∧
      s.sink.sent.Sublist (cfg.records J s.store.broadcast) ∧
      ∀ c, s.conn = some c → s.CaughtUp c → s.Lossless c →
        s.sink.sent = cfg.records J (s.store.broadcast.drop c.start) := by
  have hinv : s.Inv J cfg := h.invariant (P := Inv J cfg)
    (inv_start store capacity sinkCapacity) fun _ _ _ _ h _ hs => h.step hs
  refine ⟨fun c hc => ?_, hinv.sublist, hinv.length, hinv.accounted.sent, ?_, ?_⟩
  · have hlinked := hinv.linked c hc
    exact ⟨hlinked.follows.accounts, hlinked.isPrefix_read, hlinked.read_eq⟩
  · -- The connections have stretches that follow each other.
    have hspans : ((s.conns.map fun c => (c.start, c.next)).flatMap fun w =>
        span s.store.broadcast w.1 w.2).Sublist (s.store.broadcast.drop 0) := by
      refine Broadcast.flatMap_span_sublist (List.pairwise_map.mpr hinv.windows) fun w hw => ?_
      obtain ⟨c, hc, rfl⟩ := List.mem_map.mp hw
      have hfollows := (hinv.linked c hc).follows
      exact ⟨Nat.zero_le _, hfollows.start_le, hfollows.next_le⟩
    rw [List.flatMap_map, List.drop_zero] at hspans
    have hreads : (s.conns.flatMap FollowConn.read).Sublist
        (s.conns.flatMap fun c => cfg.records J (span s.store.broadcast c.start c.next)) :=
      List.Sublist.flatMap_right _ fun c hc => (hinv.linked c hc).isPrefix_read.sublist.trans
        (records_sublist (hinv.linked c hc).follows.accounts.sublist)
    rw [records_flatMap] at hreads
    exact hinv.sublist.trans (hreads.trans (records_sublist hspans))
  · rintro c hc ⟨hnext, hwire, hbuffer⟩ ⟨hnone, hlost, hdropped⟩
    have hlinked := hinv.linked_conn hc
    have hreads : s.conns.flatMap FollowConn.read = c.read := by
      rw [conns_of_conn hc, hlost, List.nil_append, List.flatMap_singleton]
    have hlength := hinv.length
    rw [hdropped, Nat.add_zero] at hlength
    rw [hinv.sublist.eq_of_length hlength, hreads, hlinked.read_eq hwire hbuffer,
      hlinked.follows.accounts.eq_values hnone, span, hnext, List.take_length]

/-- A request for one service, in format `ndjson`. -/
def webConfig : PathConfig := { services := ["web"] }

/-- An entry of the service, one of another, and one more. -/
def webEntries : List LogEntry :=
  [⟨0, "web", .stdout, "up"⟩, ⟨0, "db", .stdout, "on"⟩, ⟨0, "web", .stderr, "off"⟩]

/-- A relay that follows the service, with a task that pushes the entries. -/
def webPath : LogPath := start webConfig (.new 8 [webEntries]) 8 8

/-- The entries are announced. The first one arrives in two parts, and its write fails. -/
def inParts : List LogPathLabel :=
  [.connect] ++ List.replicate 11 (.store 0) ++ [.recv, .arrive 7, .arrive 200, .read,
    .sink (.connect .ok), .sink .next, .sink (.write .error), .recv, .recv, .arrive 200, .read]

/-- The connection, when everything has been read. -/
def webConn : FollowConn where
  start := 0
  next := 3
  received := webEntries.map .value
  read := webConfig.records .epoch webEntries

/-- Both records of the service have been taken: one is held, and the other waits. -/
theorem relayed_of_inParts : ∃ s : LogPath,
    Reaches (step .epoch .documented webConfig) Always webPath s ∧ s.sink.written = [] ∧
      s.sink.rx.items.length = 1 ∧ s.sink.sent = webConfig.records .epoch s.store.broadcast := by
  have hrun : (runIf (step .epoch .documented webConfig) Always webPath inParts).any
      (fun s : LogPath => s.conn = some webConn && s.store.broadcast.length = 3 && s.lost = [] &&
        s.dropped = 0 && s.sink.written = [] && s.sink.rx.items.length = 1) = true := by
    decide +kernel
  obtain ⟨s, hr, hs⟩ := Reaches.exists_of_runIf _ hrun
  simp only [Bool.and_eq_true, decide_eq_true_eq] at hs
  obtain ⟨⟨⟨⟨⟨hconn, hlength⟩, hlost⟩, hdropped⟩, hwritten⟩, hitems⟩ := hs
  have hnone (n : ℕ) : .lagged n ∉ webConn.received := fun hn => by
    obtain ⟨e, -, he⟩ := List.mem_map.mp hn
    cases he
  have hsent := (relayed_of_reaches hr).2.2.2.2.2 webConn hconn ⟨hlength.symm, rfl, rfl⟩
    ⟨hnone, hlost, hdropped⟩
  rw [show webConn.start = 0 from rfl, List.drop_zero] at hsent
  exact ⟨s, hr, hwritten, hitems, hsent⟩

end LogPath

end Vigil
