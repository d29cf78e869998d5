import Mathlib.Algebra.Order.Ring.Nat
import Vigil.Lib.Broadcast
import Vigil.Lib.Framing
import Vigil.Lib.Runs
import Vigil.Logs.Json

/-!
# The push of log entries

`logs/push.rs`: a task that connects to a target, sends it the entries of one service as they are
announced, each as a line of JSON, and connects again when the connection is lost. It runs beside
the tasks that push entries to the store. The two `spawn_push` functions and the two arms of
`PushStream` differ in the kind of the socket alone.

A connection has the entries from where it subscribed: what is announced before, or between two
connections, is sent to nobody. Of what is announced while it lasts, it leaves out what its receiver
has missed, and at its end the entry whose write has failed. `pushed_of_reaches` says that this is
all: over all connections the target reads entries of the service that were announced, in their
order and none twice.
-/

namespace Vigil

open Broadcast (Received Accounts span values)

namespace LogStore

/-- A connection of a push task. -/
structure PushConn where
  /-- The place where its receiver has begun. -/
  start : ℕ
  /-- The place of its receiver. -/
  next : ℕ
  /-- What the receiver has been given. -/
  received : List (Received LogEntry) := []
  /-- The entries whose writes have succeeded. -/
  written : List LogEntry := []
  /-- The entry whose write is running, or has failed. -/
  unwritten : Option LogEntry := none
  /-- What the target has been sent. -/
  output : List Char := []

/-- Where a push task is. -/
inductive PushPhase
  /-- In `connect`. -/
  | connecting
  /-- In `rx.recv`. -/
  | receiving
  /-- In `write_line`. -/
  | writing
  /-- In the sleep before it connects again. -/
  | sleeping
  deriving DecidableEq

end LogStore

open LogStore (PushConn PushPhase)

/-- A store, and a push task that follows it. -/
structure LogPush where
  store : LogStore
  /-- The number of entries that the broadcast channel keeps. -/
  capacity : ℕ
  service : String
  phase : PushPhase := .connecting
  /-- In milliseconds. -/
  backoff : ℕ := 500
  /-- The connection that there is. -/
  conn : Option PushConn := none
  /-- The connections that were lost, the oldest first. -/
  lost : List PushConn := []
  /-- The sleeps since the latest connection. -/
  sleeps : List ℕ := []

/-- What happens. -/
inductive LogPushLabel
  /-- A task that pushes to the store does its next step. -/
  | store (i : ℕ)
  /-- `connect` returns. -/
  | connect (ok : Bool)
  /-- `rx.recv` returns. -/
  | recv
  /-- `write_line` succeeds. -/
  | write
  /-- `write_line` fails after so many characters of the line. -/
  | fail (sent : ℕ)
  /-- The sleep is over. -/
  | wake

namespace LogPush

variable (J : EntryJson) (s : LogPush)

/-- The line of an entry. -/
def line (entry : LogEntry) : List Char := J.toText entry ++ ['\n']

/-- The longest sleep, in milliseconds. -/
def maxBackoff : ℕ := 30000

/-- One more sleep begins. -/
def sleep : LogPush := { s with phase := .sleeping, sleeps := s.sleeps ++ [s.backoff] }

/-- What the receiver has been given. -/
def receive (c : PushConn) (r : Received LogEntry) (next : ℕ) : LogPush :=
  let c := { c with next, received := c.received ++ [r] }
  match r with
  | .value entry =>
    if entry.service = s.service then
      { s with phase := .writing, conn := some { c with unwritten := some entry } }
    else { s with conn := some c }
  | .lagged _ => { s with conn := some c }

/-- One step. -/
def step : LogPushLabel → Option LogPush
  | .store i => (s.store.step i).map fun store => { s with store }
  | .connect ok =>
    if s.phase = .connecting then
      if ok then
        let start := s.store.broadcast.length
        some { s with
          phase := .receiving, backoff := 500, sleeps := [], conn := some { start, next := start } }
      else some s.sleep
    else none
  | .recv =>
    match s.phase, s.conn with
    | .receiving, some c =>
      (Broadcast.recv s.capacity s.store.broadcast c.next).map fun r => s.receive c r.1 r.2
    | _, _ => none
  | .write =>
    match s.phase, s.conn with
    | .writing, some c =>
      c.unwritten.map fun entry => { s with
        phase := .receiving
        conn := some { c with
          written := c.written ++ [entry]
          unwritten := none
          output := c.output ++ line J entry } }
    | _, _ => none
  | .fail sent =>
    match s.phase, s.conn with
    | .writing, some c =>
      c.unwritten.map fun entry => { s with
        conn := none
        lost := s.lost ++ [{ c with output := c.output ++ (line J entry).take sent }] }.sleep
    | _, _ => none
  | .wake =>
    if s.phase = .sleeping then
      some { s with phase := .connecting, backoff := min (s.backoff * 2) maxBackoff }
    else none

/-- All connections, the oldest first. -/
def conns : List PushConn := s.lost ++ s.conn.toList

/-- A push task that has just been spawned. -/
def spawn (store : LogStore) (capacity : ℕ) (service : String) : LogPush :=
  { store, capacity, service }

variable {J s}

/-! ## Steps -/

/-- What one step does. -/
inductive PushStep (J : EntryJson) (s : LogPush) : LogPush → Prop
  | store {i store} (h : s.store.step i = some store) : PushStep J s { s with store }
  | connected (hp : s.phase = .connecting) :
    PushStep J s { s with
      phase := .receiving, backoff := 500, sleeps := []
      conn := some { start := s.store.broadcast.length, next := s.store.broadcast.length } }
  | refused (hp : s.phase = .connecting) : PushStep J s s.sleep
  | recv {c r next} (hp : s.phase = .receiving) (hc : s.conn = some c)
    (hr : Broadcast.recv s.capacity s.store.broadcast c.next = some (r, next)) :
    PushStep J s (s.receive c r next)
  | write {c entry} (hp : s.phase = .writing) (hc : s.conn = some c)
    (he : c.unwritten = some entry) :
    PushStep J s { s with
      phase := .receiving
      conn := some { c with
        written := c.written ++ [entry], unwritten := none, output := c.output ++ line J entry } }
  | fail {c entry} (hp : s.phase = .writing) (hc : s.conn = some c)
    (he : c.unwritten = some entry) (sent : ℕ) :
    PushStep J s { s with
      conn := none
      lost := s.lost ++ [{ c with output := c.output ++ (line J entry).take sent }] }.sleep
  | wake (hp : s.phase = .sleeping) :
    PushStep J s { s with phase := .connecting, backoff := min (s.backoff * 2) maxBackoff }

/-- Every step is one of those that `PushStep` lists. -/
theorem step_cases {s' : LogPush} {l : LogPushLabel} (h : s.step J l = some s') :
    PushStep J s s' := by
  cases l with
  | store i =>
    obtain ⟨store, hstore, rfl⟩ := Option.map_eq_some_iff.mp h
    exact .store hstore
  | connect ok =>
    simp only [step] at h
    split_ifs at h with hp hok
    · exact Option.some.inj h ▸ .connected hp
    · exact Option.some.inj h ▸ .refused hp
  | recv =>
    simp only [step] at h
    split at h
    · next c hp hc =>
      obtain ⟨⟨r, next⟩, hr, rfl⟩ := Option.map_eq_some_iff.mp h
      exact .recv hp hc hr
    · cases h
  | write =>
    simp only [step] at h
    split at h
    · next c hp hc =>
      obtain ⟨entry, he, rfl⟩ := Option.map_eq_some_iff.mp h
      exact .write hp hc he
    · cases h
  | fail sent =>
    simp only [step] at h
    split at h
    · next c hp hc =>
      obtain ⟨entry, he, rfl⟩ := Option.map_eq_some_iff.mp h
      exact .fail hp hc he sent
    · cases h
  | wake =>
    simp only [step] at h
    split_ifs at h with hp
    exact Option.some.inj h ▸ .wake hp

end LogPush

/-! ## Connections -/

/-- What is announced is announced behind what was announced before. -/
theorem LogStore.exists_broadcast_append {s s' : LogStore} {i : ℕ} (h : s.step i = some s') :
    ∃ later, s'.broadcast = s.broadcast ++ later := by
  obtain ⟨phase, entry, rest, -, hcases⟩ := LogStore.step_cases h
  rcases hcases with ⟨-, rfl⟩ | ⟨-, rfl⟩ | ⟨b, -, rfl⟩ | ⟨-, rfl⟩
  · exact ⟨[], (List.append_nil _).symm⟩
  · exact ⟨[], (List.append_nil _).symm⟩
  · exact ⟨[], (List.append_nil _).symm⟩
  · exact ⟨[entry], rfl⟩

namespace LogStore.PushConn

variable {J : EntryJson} {service : String} {sent : List LogEntry} {c : PushConn}

/-- What a connection has of the entries that are announced. -/
structure Follows (service : String) (sent : List LogEntry) (c : PushConn) : Prop
    extends Broadcast.Follows sent c.start c.next c.received where
  entries : c.written ++ c.unwritten.toList =
    (values c.received).filter fun e => e.service = service

/-- A connection follows the announcements, however many more there are. -/
theorem Follows.append (h : c.Follows service sent) (later : List LogEntry) :
    c.Follows service (sent ++ later) :=
  ⟨h.toFollows.append later, h.entries⟩

/-- The lines of the entries that have been written. -/
def lines (J : EntryJson) (c : PushConn) : List Char :=
  Framing.stream '\n' (c.written.map J.toText)

/-- The target has been sent what was written, and a part of the line that was not. -/
def Sends (J : EntryJson) (c : PushConn) : Prop :=
  ∃ part, c.output = c.lines J ++ part ∧ part <+: c.unwritten.toList.flatMap (LogPush.line J)

/-- The entries that the target reads. -/
def read (J : EntryJson) (c : PushConn) : List LogEntry :=
  (Framing.complete '\n' c.output).filterMap J.fromStr

/-- No entry's text has a line feed in it. -/
theorem notMem_toText (entry : LogEntry) : '\n' ∉ J.toText entry := fun hmem =>
  absurd (J.le_toNat_of_mem_toText entry hmem) (by decide)

/-- The entries whose lines are whole are read back, and a part of a line is not read. -/
theorem filterMap_complete (entries : List LogEntry) {part : List Char} (hpart : '\n' ∉ part) :
    (Framing.complete '\n' (Framing.stream '\n' (entries.map J.toText) ++ part)).filterMap
      J.fromStr = entries := by
  have hclean : ∀ f ∈ entries.map J.toText, '\n' ∉ f := by
    intro f hf
    obtain ⟨entry, -, rfl⟩ := List.mem_map.mp hf
    exact notMem_toText entry
  rw [Framing.complete_stream_append hclean hpart, List.filterMap_map]
  have hsome : J.fromStr ∘ J.toText = some := funext J.fromStr_toText
  rw [hsome, List.filterMap_some]

/-- The target reads what was written, or also the entry whose write has failed: the failure may
come after the line has been sent. -/
theorem Sends.read_cases (h : c.Sends J) :
    c.read J = c.written ∨ c.read J = c.written ++ c.unwritten.toList := by
  obtain ⟨part, houtput, hpart⟩ := h
  rw [read, houtput, lines]
  cases hun : c.unwritten with
  | none =>
    rw [hun] at hpart
    rw [List.prefix_nil.mp hpart]
    exact .inl (filterMap_complete _ List.not_mem_nil)
  | some entry =>
    rw [hun, Option.toList_some, List.flatMap_singleton, LogPush.line, List.prefix_concat_iff]
      at hpart
    rcases hpart with rfl | hpart
    · refine .inr ?_
      have hstream : Framing.stream '\n' (c.written.map J.toText) ++ (J.toText entry ++ ['\n']) =
          Framing.stream '\n' ((c.written ++ [entry]).map J.toText) ++ [] := by
        simp [Framing.stream]
      rw [hstream]
      exact filterMap_complete _ List.not_mem_nil
    · exact .inl (filterMap_complete _ fun hmem => notMem_toText entry (hpart.subset hmem))

/-- The target reads entries that were announced while the connection lasted. -/
theorem Follows.read_sublist (h : c.Follows service sent) (hsends : c.Sends J) :
    (c.read J).Sublist
      ((span sent c.start c.next).filter fun e => e.service = service) := by
  have hall : (c.written ++ c.unwritten.toList).Sublist
      ((span sent c.start c.next).filter fun e => e.service = service) := by
    rw [h.entries]
    exact h.accounts.sublist.filter _
  rcases hsends.read_cases with hread | hread <;> rw [hread]
  · exact (List.sublist_append_left _ _).trans hall
  · exact hall

end LogStore.PushConn

namespace LogPush

open Runs

variable {J : EntryJson} {s s' : LogPush}

/-! ## Runs -/

/-- The sleep after so many others since the latest connection. -/
def sleepOf (n : ℕ) : ℕ := min (500 * 2 ^ n) maxBackoff

/-- The next sleep is twice as long, up to the longest. -/
theorem sleepOf_succ (n : ℕ) : sleepOf (n + 1) = min (sleepOf n * 2) maxBackoff := by
  rw [sleepOf, sleepOf, Nat.pow_succ]
  omega

/-- What the connections have of the entries that are announced. -/
structure Connected (J : EntryJson) (service : String) (sent : List LogEntry)
    (conns : List PushConn) : Prop where
  follows : ∀ c ∈ conns, c.Follows service sent
  sends : ∀ c ∈ conns, c.Sends J
  windows : conns.Pairwise fun c d => c.next ≤ d.start

/-- A connection behind others is in order if and only if they are, it follows the announcements, it
sends them, and it begins where the others have ended. -/
theorem connected_concat_iff {service : String} {sent : List LogEntry} {conns : List PushConn}
    {c : PushConn} : Connected J service sent (conns ++ [c]) ↔ Connected J service sent conns ∧
      c.Follows service sent ∧ c.Sends J ∧ ∀ d ∈ conns, d.next ≤ c.start := by
  constructor
  · rintro ⟨hfollows, hsends, hwindows⟩
    obtain ⟨hpair, -, hlast⟩ := List.pairwise_append.mp hwindows
    rw [List.forall_mem_append, List.forall_mem_singleton] at hfollows hsends
    exact ⟨⟨hfollows.1, hsends.1, hpair⟩, hfollows.2, hsends.2,
      fun d hd => hlast d hd c List.mem_cons_self⟩
  · rintro ⟨⟨hfollows, hsends, hpair⟩, hc, hc', hlast⟩
    refine ⟨?_, ?_, List.pairwise_append.mpr ⟨hpair, List.pairwise_singleton _ _, ?_⟩⟩
    · exact List.forall_mem_append.mpr ⟨hfollows, List.forall_mem_singleton.mpr hc⟩
    · exact List.forall_mem_append.mpr ⟨hsends, List.forall_mem_singleton.mpr hc'⟩
    · exact fun d hd e he => List.mem_singleton.mp he ▸ hlast d hd

/-- What every state of a run satisfies. -/
structure Inv (J : EntryJson) (s : LogPush) : Prop where
  connected : Connected J s.service s.store.broadcast s.conns
  /-- There is a connection only while the task uses it. -/
  idle : s.phase = .connecting ∨ s.phase = .sleeping → s.conn = none
  /-- An entry is unwritten only while it is being written. -/
  receiving : ∀ c, s.conn = some c → s.phase = .receiving → c.unwritten = none
  /-- The target has been sent whole lines. -/
  output : ∀ c, s.conn = some c → c.output = c.lines J
  /-- The sleeps grow with each since the latest connection. -/
  backoff : ∃ k, s.backoff = sleepOf k ∧
    s.sleeps = (List.range (if s.phase = .sleeping then k + 1 else k)).map sleepOf

/-- A connection whose output is the lines of what has been written. -/
theorem sends_of_lines {c : PushConn} (h : c.output = c.lines J) : c.Sends J :=
  ⟨[], by rw [List.append_nil]; exact h, List.nil_prefix⟩

/-- The connections, with the one that there is. -/
theorem conns_of_conn {c : PushConn} (h : s.conn = some c) : s.conns = s.lost ++ [c] := by
  rw [conns, h, Option.toList_some]

/-- The connections before, if there is none. -/
theorem conns_of_none (h : s.conn = none) : s.conns = s.lost := by
  rw [conns, h, Option.toList_none, List.append_nil]

/-- A connection that has received an announcement follows them from its new place. -/
theorem follows_received {service : String} {sent : List LogEntry} {c : PushConn}
    (h : c.Follows service sent) (hnone : c.unwritten = none) {capacity : ℕ}
    {r : Received LogEntry} {next : ℕ}
    (hr : Broadcast.recv capacity sent c.next = some (r, next)) (unwritten : Option LogEntry)
    (hun : unwritten.toList = (values [r]).filter fun e => e.service = service) :
    PushConn.Follows service sent { c with next, received := c.received ++ [r], unwritten } where
  toFollows := h.toFollows.recv hr
  entries := by
    have hentries := h.entries
    rw [hnone, Option.toList_none, List.append_nil] at hentries
    rw [hun, hentries, Broadcast.values_append, List.filter_append]

/-- The connection that there is goes on. -/
theorem Inv.replace (h : s.Inv J) {c c' : PushConn} (hc : s.conn = some c)
    (hfollows : c'.Follows s.service s.store.broadcast) (hsends : c'.Sends J)
    (hstart : c'.start = c.start) :
    Connected J s.service s.store.broadcast (s.lost ++ [c']) := by
  obtain ⟨hlost, -, -, hlast⟩ := connected_concat_iff.mp (conns_of_conn hc ▸ h.connected)
  exact connected_concat_iff.mpr ⟨hlost, hfollows, hsends, hstart ▸ hlast⟩

/-- The invariant is kept when the receiver is given something. -/
theorem Inv.recv (h : s.Inv J) {c : PushConn} {r : Received LogEntry} {next : ℕ}
    (hp : s.phase = .receiving) (hc : s.conn = some c)
    (hr : Broadcast.recv s.capacity s.store.broadcast c.next = some (r, next)) :
    (s.receive c r next).Inv J := by
  obtain ⟨-, hfollows, -⟩ := connected_concat_iff.mp (conns_of_conn hc ▸ h.connected)
  have hnone := h.receiving c hc hp
  have hlines := h.output c hc
  obtain ⟨k, hk, hsleeps⟩ := h.backoff
  rw [if_neg (by rw [hp]; exact nofun)] at hsleeps
  -- Nothing is to be written.
  have hpass (hr' : ((values [r]).filter fun e => e.service = s.service) = []) : ({ s with
      conn := some { c with next, received := c.received ++ [r] } } : LogPush).Inv J := by
    have hfollows' := follows_received hfollows hnone hr c.unwritten
      (by rw [hr', hnone, Option.toList_none])
    refine ⟨h.replace hc hfollows' (sends_of_lines hlines) rfl, fun hidle => ?_,
      fun d hd _ => ?_, fun d hd => ?_, h.backoff⟩
    · rw [hp] at hidle
      exact absurd hidle (by simp)
    · obtain rfl := Option.some.inj hd
      exact hnone
    · obtain rfl := Option.some.inj hd
      exact hlines
  cases r with
  | lagged n => exact hpass rfl
  | value entry =>
    simp only [receive]
    split_ifs with hservice
    · have hfollows' := follows_received hfollows hnone hr (some entry)
        (by simp [hservice])
      refine ⟨h.replace hc hfollows' ⟨[], ?_, List.nil_prefix⟩ rfl, fun hidle => ?_,
        fun d hd hrec => ?_, fun d hd => ?_, k, hk, hsleeps⟩
      · rw [List.append_nil]
        exact hlines
      · rcases hidle with hidle | hidle <;> cases hidle
      · cases hrec
      · obtain rfl := Option.some.inj hd
        exact hlines
    · exact hpass (by simp [hservice])

/-- The invariant is kept by every step. -/
theorem Inv.step (h : s.Inv J) {l : LogPushLabel} (hs : s.step J l = some s') : s'.Inv J := by
  cases step_cases hs with
  | store hstore =>
    obtain ⟨later, hlater⟩ := LogStore.exists_broadcast_append hstore
    refine ⟨⟨fun c hc => ?_, h.connected.sends, h.connected.windows⟩, h.idle, h.receiving, h.output,
      h.backoff⟩
    show c.Follows s.service _
    rw [hlater]
    exact (h.connected.follows c hc).append later
  | connected hp =>
    have hlost : Connected J s.service s.store.broadcast s.lost :=
      conns_of_none (h.idle (.inl hp)) ▸ h.connected
    refine ⟨connected_concat_iff.mpr ⟨hlost, ?_, ⟨[], rfl, List.nil_prefix⟩, fun d hd => ?_⟩,
      fun hidle => ?_, fun c hc _ => ?_, fun c hc => ?_, 0, rfl, rfl⟩
    · exact ⟨Broadcast.follows_length _, rfl⟩
    · exact (hlost.follows d hd).next_le
    · rcases hidle with hidle | hidle <;> cases hidle
    · exact Option.some.inj hc ▸ rfl
    · exact Option.some.inj hc ▸ rfl
  | refused hp =>
    obtain ⟨k, hk, hsleeps⟩ := h.backoff
    have hnone := h.idle (.inl hp)
    refine ⟨h.connected, fun _ => hnone, fun c hc => ?_, h.output, k, hk, ?_⟩
    · exact absurd (hnone.symm.trans hc) nofun
    · rw [if_neg (by rw [hp]; exact nofun)] at hsleeps
      show s.sleeps ++ [s.backoff] = (List.range (k + 1)).map sleepOf
      rw [List.range_succ, List.map_append, hsleeps, hk]
      rfl
  | recv hp hc hr => exact h.recv hp hc hr
  | @write c entry hp hc he =>
    obtain ⟨-, hfollows, -⟩ := connected_concat_iff.mp (conns_of_conn hc ▸ h.connected)
    obtain ⟨k, hk, hsleeps⟩ := h.backoff
    rw [if_neg (by rw [hp]; exact nofun)] at hsleeps
    set c' : PushConn := { c with
      written := c.written ++ [entry], unwritten := none, output := c.output ++ line J entry }
    have hlines : c'.output = c'.lines J := by
      show c.output ++ line J entry = Framing.stream '\n' ((c.written ++ [entry]).map J.toText)
      rw [h.output c hc]
      simp [PushConn.lines, Framing.stream, line]
    have hfollows' : c'.Follows s.service s.store.broadcast := by
      refine ⟨hfollows.toFollows, ?_⟩
      rw [← hfollows.entries, he]
      exact List.append_nil _
    refine ⟨h.replace hc hfollows' (sends_of_lines hlines) rfl, fun hidle => ?_,
      fun d hd _ => ?_, fun d hd => ?_, k, hk, hsleeps⟩
    · rcases hidle with hidle | hidle <;> cases hidle
    · exact Option.some.inj hd ▸ rfl
    · exact Option.some.inj hd ▸ hlines
  | @fail c entry hp hc he sent =>
    obtain ⟨-, hfollows, -⟩ := connected_concat_iff.mp (conns_of_conn hc ▸ h.connected)
    obtain ⟨k, hk, hsleeps⟩ := h.backoff
    rw [if_neg (by rw [hp]; exact nofun)] at hsleeps
    set c' : PushConn := { c with output := c.output ++ (line J entry).take sent }
    have hfollows' : c'.Follows s.service s.store.broadcast :=
      ⟨hfollows.toFollows, hfollows.entries⟩
    have hsends : c'.Sends J := by
      refine ⟨(line J entry).take sent, ?_, ?_⟩
      · show c.output ++ _ = c.lines J ++ _
        rw [h.output c hc]
      · show _ <+: c.unwritten.toList.flatMap (line J)
        rw [he, Option.toList_some, List.flatMap_singleton]
        exact List.take_prefix _ _
    have hconns : Connected J s.service s.store.broadcast (s.lost ++ [c']) :=
      h.replace hc hfollows' hsends rfl
    refine ⟨?_, fun _ => rfl, fun d hd => ?_, fun d hd => ?_, k, hk, ?_⟩
    · show Connected J s.service s.store.broadcast (s.lost ++ [c'] ++ [])
      rw [List.append_nil]
      exact hconns
    · cases hd
    · cases hd
    · show s.sleeps ++ [s.backoff] = (List.range (k + 1)).map sleepOf
      rw [List.range_succ, List.map_append, hsleeps, hk]
      rfl
  | wake hp =>
    obtain ⟨k, hk, hsleeps⟩ := h.backoff
    have hnone := h.idle (.inr hp)
    refine ⟨h.connected, fun _ => hnone, fun c hc => ?_, h.output, k + 1, ?_, ?_⟩
    · exact absurd (hnone.symm.trans hc) nofun
    · rw [sleepOf_succ, ← hk]
    · rw [if_pos hp] at hsleeps
      exact hsleeps

/-- A push task that has just been spawned. -/
theorem inv_spawn (store : LogStore) (capacity : ℕ) (service : String) :
    (spawn store capacity service).Inv J where
  connected := ⟨List.forall_mem_nil _, List.forall_mem_nil _, .nil⟩
  idle _ := rfl
  receiving c hc := by cases hc
  output c hc := by cases hc
  backoff := ⟨0, rfl, rfl⟩

/-- In a run the service of the push target never changes. -/
theorem service_of_reaches {s₀ : LogPush} (h : Reaches (step J) Always s₀ s) :
    s.service = s₀.service := by
  refine h.constant LogPush.service fun s l s' _ _ hs => ?_
  cases step_cases hs with
  | recv =>
    unfold receive
    split
    · split_ifs <;> rfl
    · rfl
  | _ => rfl

variable {store : LogStore} {capacity : ℕ} {service : String}

/-- What a push target gets, in any run. Each connection has a stretch of what is announced: every
entry of it was received or missed by the receiver, and those of the service that were received have
all been written, but the one whose write is running or has failed; if nothing was missed, these are
all the entries of the service in the stretch. What the target reads of it is what was written, or
that last one too. Over all connections it reads entries of the service that were announced, in
their order, and none twice. -/
theorem pushed_of_reaches (h : Reaches (step J) Always (spawn store capacity service) s) :
    (∀ c ∈ s.conns, Accounts (span s.store.broadcast c.start c.next) c.received ∧
      c.written ++ c.unwritten.toList = ((values c.received).filter fun e => e.service = service) ∧
        ((∀ n, .lagged n ∉ c.received) → c.written ++ c.unwritten.toList =
          ((span s.store.broadcast c.start c.next).filter fun e => e.service = service)) ∧
        (c.read J = c.written ∨ c.read J = c.written ++ c.unwritten.toList)) ∧
      (s.conns.flatMap (PushConn.read J)).Sublist
        (s.store.broadcast.filter fun e => e.service = service) := by
  obtain ⟨hfollows, hsends, hwindows⟩ := (h.invariant (P := Inv J)
    (inv_spawn store capacity service) fun _ _ _ _ h _ hs => h.step hs).connected
  rw [show s.service = service from service_of_reaches h] at hfollows
  refine ⟨fun c hc => ⟨(hfollows c hc).accounts, (hfollows c hc).entries, fun hnone => ?_,
    (hsends c hc).read_cases⟩, ?_⟩
  · rw [(hfollows c hc).entries, (hfollows c hc).accounts.eq_values hnone]
  · have hspans : ((s.conns.map fun c => (c.start, c.next)).flatMap fun w =>
        span s.store.broadcast w.1 w.2).Sublist (s.store.broadcast.drop 0) := by
      refine Broadcast.flatMap_span_sublist (List.pairwise_map.mpr hwindows) fun w hw => ?_
      obtain ⟨c, hc, rfl⟩ := List.mem_map.mp hw
      exact ⟨Nat.zero_le _, (hfollows c hc).start_le, (hfollows c hc).next_le⟩
    rw [List.flatMap_map, List.drop_zero] at hspans
    refine (List.Sublist.flatMap_right _ fun c hc =>
      (hfollows c hc).read_sublist (hsends c hc)).trans ?_
    rw [← List.filter_flatMap]
    exact hspans.filter _

/-- A target that is lost after the first entry, and is there again for the third. -/
theorem pushed_of_two_connections : ∃ s : LogPush,
    Reaches (step EntryJson.epoch) Always (spawn (.new 1 [[⟨0, "a", .stdout, "up"⟩,
      ⟨0, "a", .stdout, "on"⟩, ⟨0, "a", .stdout, "off"⟩]]) 4 "a") s ∧
      s.conns.map PushConn.written = [[⟨0, "a", .stdout, "up"⟩], [⟨0, "a", .stdout, "off"⟩]] ∧
        (s.conns.flatMap (PushConn.read EntryJson.epoch)).Sublist
          (s.store.broadcast.filter fun e => e.service = "a") := by
  have hrun : (runIf (step EntryJson.epoch) Always (spawn (.new 1 [[⟨0, "a", .stdout, "up"⟩,
      ⟨0, "a", .stdout, "on"⟩, ⟨0, "a", .stdout, "off"⟩]]) 4 "a")
        [.connect true, .store 0, .store 0, .store 0, .store 0, .recv, .write, .store 0, .store 0,
          .store 0, .recv, .fail 3, .wake, .connect true, .store 0, .store 0, .store 0, .recv,
          .write]).isSome = true := by decide
  have hr := Reaches.getD_runIf (d := spawn (.new 1 []) 4 "a") hrun
  exact ⟨_, hr, by decide, (pushed_of_reaches hr).2⟩

/-- The sleeps since the latest connection are of half a second, and then each twice as long as the
one before, up to half a minute. -/
theorem sleeps_of_reaches (h : Reaches (step J) Always (spawn store capacity service) s) (n d : ℕ)
    (hd : s.sleeps[n]? = some d) : d = min (500 * 2 ^ n) 30000 := by
  obtain ⟨k, -, hsleeps⟩ := (h.invariant (P := Inv J)
    (inv_spawn store capacity service) fun _ _ _ _ h _ hs => h.step hs).backoff
  rw [hsleeps, List.getElem?_map] at hd
  obtain ⟨m, hm, rfl⟩ := Option.map_eq_some_iff.mp hd
  obtain ⟨hlt, rfl⟩ := List.getElem?_eq_some_iff.mp hm
  rw [List.getElem_range]
  rfl

end LogPush

end Vigil
