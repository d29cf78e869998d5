import Mathlib.Data.List.Infix
import Mathlib.Tactic.Common
import Vigil.Lib.Channel
import Vigil.Lib.Runs

/-!
# The TCP sink

`run` of the relay's `tcp_sink.rs`: the task that takes lines from the channel and writes them to a
connection. It connects in its outer loop and writes in its inner one. A line that is not written is
put back into `pending` and is the first one on the next connection. The channel, the connection,
and the timeouts are free to do what they like at every point.

`Accounted` is the invariant of both loops: what has been sent is what has been written, the line
that is held, and what waits in the channel, in this order. `written_prefix` draws the conclusions.
-/

namespace Vigil

open Runs

/-- `SinkConfig`, without the keepalive. A timeout of zero is none. -/
structure SinkConfig where
  connectTimeoutMs : ℕ := 0
  writeTimeoutMs : ℕ := 0
  idleTimeoutMs : ℕ := 0
  reconnectDelayMs : ℕ := 0
  reconnectMaxMs : ℕ := 0

/-- Where the task is. -/
inductive SinkPhase
  /-- `TcpStream::connect`. -/
  | connecting
  /-- `sleep(backoff)`. -/
  | sleeping
  /-- The head of the inner loop. -/
  | connected
  /-- `write_all` of the line. -/
  | writing (line : String)
  | returned
  deriving DecidableEq, Repr

/-- How an operation on the socket ends. -/
inductive SinkOutcome
  | ok
  | error
  /-- Its timeout expires. -/
  | elapsed
  deriving DecidableEq, Repr

/-- The sink's task and its channel. -/
structure TcpSink where
  rx : Channel String
  /-- All senders are gone. -/
  sendersGone : Bool := false
  /-- The line that failed to write. -/
  pending : Option String := none
  backoffMs : ℕ
  phase : SinkPhase := .connecting
  /-- The lines that have been put into the channel. The relay does not keep them. -/
  sent : List String := []
  /-- The lines whose `write_all` has succeeded. The relay does not keep them. -/
  written : List String := []

/-- What happens. -/
inductive SinkLabel
  /-- A source sends a line. -/
  | send (line : String)
  /-- The last sender is dropped. -/
  | close
  | connect (r : SinkOutcome)
  /-- The sleep is over. -/
  | wake
  /-- The inner loop takes the pending line, or receives. -/
  | next
  /-- The idle timeout expires. -/
  | idle
  | write (r : SinkOutcome)

namespace TcpSink

/-- The start of `run` on a channel. -/
def start (cfg : SinkConfig) (capacity : ℕ) : TcpSink where
  rx := { capacity }
  backoffMs := cfg.reconnectDelayMs

/-- A timeout may expire if there is one. -/
def mayEnd (timeoutMs : ℕ) (r : SinkOutcome) : Bool := r ≠ .elapsed || 0 < timeoutMs

/-- One step. -/
def step (cfg : SinkConfig) (s : TcpSink) : SinkLabel → Option TcpSink
  | .send line =>
    if s.sendersGone then none
    else
      match s.rx.trySend line with
      | .ok rx => some { s with rx, sent := s.sent ++ [line] }
      | .error _ => none
  | .close => some { s with sendersGone := true }
  | .connect r =>
    if s.phase = .connecting ∧ mayEnd cfg.connectTimeoutMs r then
      if r = .ok then some { s with phase := .connected, backoffMs := cfg.reconnectDelayMs }
      else some { s with phase := .sleeping }
    else none
  | .wake =>
    if s.phase = .sleeping then
      some { s with phase := .connecting, backoffMs := min (s.backoffMs * 2) cfg.reconnectMaxMs }
    else none
  | .next =>
    if s.phase = .connected then
      match s.pending, s.rx.recv with
      | some line, _ => some { s with pending := none, phase := .writing line }
      | none, some (line, rx) => some { s with rx, phase := .writing line }
      | none, none =>
        if s.sendersGone then some { s with phase := .returned, rx := { s.rx with closed := true } }
        else none
    else none
  | .idle =>
    -- The timeout drops the `recv`, which takes nothing from the channel.
    if s.phase = .connected ∧ s.pending = none ∧ 0 < cfg.idleTimeoutMs then
      some { s with phase := .connecting }
    else none
  | .write r =>
    match s.phase with
    | .writing line =>
      if mayEnd cfg.writeTimeoutMs r then
        if r = .ok then some { s with phase := .connected, written := s.written ++ [line] }
        else some { s with phase := .connecting, pending := some line }
      else none
    | _ => none

/-- The line that has been received and not been written. -/
def held (s : TcpSink) : List String :=
  match s.phase with
  | .writing line => [line]
  | _ => s.pending.toList

/-- Every line that was sent is written, held, or in the channel, in this order. -/
structure Accounted (s : TcpSink) : Prop where
  sent : s.sent = s.written ++ s.held ++ s.rx.items
  /-- The slot is empty while a line is being written. -/
  pending : ∀ line, s.phase = .writing line → s.pending = none
  /-- Nothing is left when the task returns. -/
  returned : s.phase = .returned → s.sendersGone = true ∧ s.held = [] ∧ s.rx.items = []

variable {cfg : SinkConfig} {s s' : TcpSink}

/-- The account is kept when a sender sends a line. -/
theorem Accounted.send (h : s.Accounted) {line : String}
    (hs : step cfg s (.send line) = some s') : s'.Accounted := by
  simp only [step] at hs
  split_ifs at hs with hgone
  split at hs
  · next rx hrx =>
    obtain ⟨-, rfl⟩ := Channel.trySend_eq_ok_iff.mp hrx
    obtain rfl := Option.some.inj hs
    refine ⟨?_, h.pending, fun hret => absurd (h.returned hret).1 hgone⟩
    change s.sent ++ [line] = s.written ++ s.held ++ (s.rx.items ++ [line])
    rw [h.sent, List.append_assoc _ s.rx.items]
  · cases hs

/-- The inner loop takes a line, or returns. -/
theorem Accounted.next (h : s.Accounted) (hs : step cfg s .next = some s') : s'.Accounted := by
  simp only [step] at hs
  by_cases hphase : s.phase = .connected
  swap
  · rw [if_neg hphase] at hs
    cases hs
  rw [if_pos hphase] at hs
  have hsent := h.sent
  have hheld : s.held = s.pending.toList := by rw [held, hphase]
  split at hs
  · -- The pending line goes first.
    next line hpending =>
    obtain rfl := Option.some.inj hs
    rw [hheld, hpending] at hsent
    exact ⟨hsent, fun _ _ => rfl, nofun⟩
  · next line rx hpending hrecv =>
    obtain ⟨rest, hitems, rfl⟩ := Channel.recv_eq_some_iff.mp hrecv
    obtain rfl := Option.some.inj hs
    rw [hheld, hpending, hitems] at hsent
    refine ⟨?_, fun _ _ => hpending, nofun⟩
    rw [hsent, held]
    simp
  · next hpending hrecv =>
    split_ifs at hs with hgone
    obtain rfl := Option.some.inj hs
    have hitems : s.rx.items = [] := by
      unfold Channel.recv at hrecv
      split at hrecv
      · assumption
      · cases hrecv
    refine ⟨?_, nofun, fun _ => ⟨hgone, ?_, hitems⟩⟩
    · rw [hheld] at hsent
      exact hsent
    · rw [held, hpending]
      rfl

/-- A write succeeds, or the line is put back. -/
theorem Accounted.write (h : s.Accounted) {r : SinkOutcome}
    (hs : step cfg s (.write r) = some s') : s'.Accounted := by
  simp only [step] at hs
  split at hs
  · next line hphase =>
    have hsent := h.sent
    rw [held, hphase] at hsent
    have hpending := h.pending line hphase
    split_ifs at hs <;> obtain rfl := Option.some.inj hs
    · refine ⟨?_, nofun, nofun⟩
      rw [hsent, held, hpending]
      simp
    · -- The line moves into the empty slot.
      exact ⟨hsent, nofun, nofun⟩
  · cases hs

/-- A step from one phase to another that takes no line and writes none. -/
theorem Accounted.of_phase (h : s.Accounted) {phase : SinkPhase} {backoffMs : ℕ}
    (hold : s.held = s.pending.toList) (hwriting : ∀ line, phase ≠ .writing line)
    (hreturned : phase ≠ .returned) : Accounted { s with phase, backoffMs } := by
  refine ⟨?_, fun line hl => absurd hl (hwriting line), fun hr => absurd hr hreturned⟩
  have hnew : held { s with phase, backoffMs } = s.pending.toList := by
    unfold held
    split
    · next line hl => exact absurd hl (hwriting line)
    · rfl
  rw [hnew, ← hold]
  exact h.sent

/-- The account is kept by every step. -/
theorem Accounted.step {l : SinkLabel} (h : s.Accounted) (hs : step cfg s l = some s') :
    s'.Accounted := by
  cases l with
  | send line => exact h.send hs
  | close =>
    obtain rfl := Option.some.inj hs
    exact ⟨h.sent, h.pending, fun hret => ⟨rfl, (h.returned hret).2⟩⟩
  | connect r =>
    simp only [TcpSink.step] at hs
    split_ifs at hs with hphase <;> obtain rfl := Option.some.inj hs
    · exact h.of_phase (by rw [held, hphase.1]) nofun nofun
    · exact h.of_phase (by rw [held, hphase.1]) nofun nofun
  | wake =>
    simp only [TcpSink.step] at hs
    split_ifs at hs with hphase
    obtain rfl := Option.some.inj hs
    exact h.of_phase (by rw [held, hphase]) nofun nofun
  | next => exact h.next hs
  | idle =>
    simp only [TcpSink.step] at hs
    split_ifs at hs with hphase
    obtain rfl := Option.some.inj hs
    exact h.of_phase (by rw [held, hphase.1]) nofun nofun
  | write r => exact h.write hs

/-- Whatever the sources, the connections, the writes, and the timeouts do: the lines written are
the first ones that were sent, each once; at most one line is held; and when the task has returned,
the channel is closed and every line that was sent has been written. -/
theorem written_prefix {capacity : ℕ} (hr : Reaches (step cfg) Always (start cfg capacity) s) :
    s.sent = s.written ++ s.held ++ s.rx.items ∧ s.held.length ≤ 1 ∧
      (s.phase = .returned → s.sendersGone = true ∧ s.written = s.sent) := by
  have h : s.Accounted :=
    hr.invariant ⟨rfl, fun _ _ => rfl, nofun⟩ fun _ _ _ _ h _ hs => h.step hs
  refine ⟨h.sent, ?_, fun hret => ?_⟩
  · unfold held
    split
    · exact le_rfl
    · cases s.pending <;> simp
  · obtain ⟨hgone, hheld, hitems⟩ := h.returned hret
    refine ⟨hgone, ?_⟩
    rw [h.sent, hheld, hitems, List.append_nil, List.append_nil]

/-- The second of two lines is written on a second connection. -/
def secondConnection : TcpSink :=
  (runIf (step {}) Always (start {} 8)
    [.send "x\n", .connect .ok, .next, .write .ok, .send "y\n", .next, .write .error, .close,
      .connect .error, .wake, .connect .ok, .next, .write .ok, .next]).getD (start {} 8)

/-- In the sample run with two connections, what was sent is what was written, is held, or is in the
channel. -/
theorem written_prefix_secondConnection :
    secondConnection.sent =
        secondConnection.written ++ secondConnection.held ++ secondConnection.rx.items ∧
      secondConnection.held.length ≤ 1 ∧
      (secondConnection.phase = .returned →
        secondConnection.sendersGone = true ∧ secondConnection.written = secondConnection.sent) :=
  written_prefix (.getD_runIf (by decide))

example : secondConnection.phase = .returned ∧ secondConnection.written = ["x\n", "y\n"] := by
  decide

end TcpSink

end Vigil
