import Vigil.Lib.Runs
import Vigil.Check.Actor
import Vigil.Overlord.Checks
import Mathlib.Logic.Function.Basic

/-!
# The check actors and the overlord

The tasks of the check actors (`run` of `check/actor/mod.rs`), the overlord as far as it has to do
with them (`sync_actors`, `reload_layers`, `stop_all`, `query_checks`, `handle_check_event`), and
the channels between them, one action at a time and in any order. An actor's mailbox has room for 16
commands and the channel of the check events for 256; a send waits while its channel is full, and a
send to a task that has returned is dropped.

What the overlord's handlers do with services is one action that takes any time
(`BoardInstr.services`). `select!` is `biased` in an actor, so that its timers go off only while its
mailbox is empty.

The configurations and the spawns are those of `CheckRegistry`: a board is one with the tasks behind
its actors (`Board.registry`), and its reloads are the registry's (`Board.registry_sync`).
-/

namespace Vigil.Check

open Runs

/-- `check::Cmd`. -/
inductive Cmd
  | getStatus
  | shutdown
  deriving DecidableEq, Repr

/-- The capacity of an actor's mailbox. -/
def mailboxCapacity : ℕ := 16

/-- The capacity of the channel of the check events. -/
def eventCapacity : ℕ := 256

/-- `CheckInfo`. -/
structure CheckInfo where
  name : String
  level : CheckLevel
  status : CheckStatus
  failures : UInt32
  threshold : UInt32
  nextRunInSecs : Option ℕ
  deriving DecidableEq

/-- Where a check actor is in `run`. -/
inductive TaskPhase
  /-- In the loop of the initial delay. -/
  | delay
  /-- In the `select!` of the main loop. -/
  | idle
  /-- In `perform`. -/
  | probing
  /-- After a probe, with the report that it is sending and those that follow. -/
  | sending (status : CheckStatus) (rest : List CheckStatus)
  | ended
  deriving DecidableEq, Repr

/-- A check actor's task, its mailbox, and its answer to the command that is waited for. -/
structure CheckTask where
  config : CheckConfig
  services : IndexMap String ServiceConfig
  initial : CheckStatus
  actor : Actor
  phase : TaskPhase := .delay
  /-- The commands that wait, the oldest first. -/
  mailbox : List Cmd := []
  /-- The overlord has the handle. -/
  held : Bool := true
  lastTickAt : ℕ := 0
  answer : Option CheckInfo := none
  /-- The results of its probes, in order. -/
  results : List Bool := []

/-- The families of `MetricsStore` that are about checks. -/
structure CheckMetrics where
  checkUp : String → Option Bool := fun _ => none
  successCount : String → ℕ := fun _ => 0
  failureCount : String → ℕ := fun _ => 0

/-- The actions of the overlord's handlers. -/
inductive BoardInstr
  /-- What the handler does with services. -/
  | services
  /-- `entry.handle.tx.send(check::Cmd::GetStatus(tx)).await`. -/
  | ask (id : ℕ)
  /-- `rx.await`. -/
  | receive (id : ℕ)
  /-- `reply.send(infos)`. -/
  | reply (names : List String)
  /-- `reload_layers`, up to its first `await`. -/
  | sync (plan : MergedPlan)
  /-- A check that is no longer in the plan. -/
  | drop (name : String)
  /-- The shutdown that `stop_all` sends. -/
  | tell (id : ℕ)
  /-- The overlord's task returns. -/
  | finish

/-- The overlord's checks, the tasks of their actors, and the channel of the check events. -/
structure Board where
  now : ℕ := 0
  plan : MergedPlan
  checks : IndexMap String CheckEntry := ∅
  /-- The tasks, in the order of their spawns. -/
  tasks : List CheckTask := []
  /-- The channel, the oldest event first. -/
  events : List (String × CheckStatus) := []
  /-- The alert sender's status of each check. -/
  lastStatus : String → Option CheckStatus := fun _ => none
  metrics : CheckMetrics := {}
  /-- What is left of the overlord's handler. -/
  todo : List BoardInstr := []
  /-- What `query_checks` has collected. -/
  infos : List CheckInfo := []
  /-- The answers to the queries, the newest first. -/
  answers : List (List String × List CheckInfo) := []
  ended : Bool := false

/-- What happens. -/
inductive BoardLabel
  /-- Time passes. -/
  | pass (d : ℕ)
  /-- An actor takes a command, or finds its channel closed. -/
  | take (i : ℕ)
  /-- The initial delay of an actor is over. -/
  | elapse (i : ℕ)
  /-- An actor's tick fires. -/
  | tick (i : ℕ)
  /-- An actor's probe has a result. -/
  | probed (i : ℕ) (ok : Bool)
  /-- The channel takes the report that an actor is sending. -/
  | report (i : ℕ)
  /-- The overlord does the next action of its handler. -/
  | overlord
  /-- The overlord takes `GetChecks`. -/
  | query (names : List String)
  /-- The overlord takes another command, or a service event, and loads these plans on the way. -/
  | command (plans : List MergedPlan)
  /-- The overlord takes a shutdown, or an event that ends the daemon. -/
  | shutdown
  /-- The overlord takes a check event. A policy of a service may end the daemon. -/
  | event (exits : Bool)

/-! ## The actors -/

namespace CheckTask

variable (t : CheckTask)

/-- `check::spawn`. -/
def new (name : String) (config : CheckConfig) (services : IndexMap String ServiceConfig)
    (initial : CheckStatus) : CheckTask where
  config
  services
  initial
  actor := .start name config initial

/-- The answer to `GetStatus`. -/
def info (now : ℕ) : CheckInfo :=
  if t.phase = .delay then
    { name := t.actor.name
      level := t.config.level
      status := .up
      failures := 0
      threshold := t.config.threshold.getD defaultThreshold
      nextRunInSecs := none }
  else
    let next := t.lastTickAt + t.config.periodMs
    { name := t.actor.name
      level := t.config.level
      status := t.actor.status
      failures := t.actor.failures
      threshold := t.actor.threshold
      nextRunInSecs := if now ≤ next then some ((next - now) / 1000) else none }

/-- The task returns, and its mailbox goes with it. -/
def finish : CheckTask := { t with phase := .ended, mailbox := [] }

/-- The `rx.recv()` branch of both loops. -/
def take (now : ℕ) : Option CheckTask :=
  if t.phase = .delay ∨ t.phase = .idle then
    match t.mailbox with
    | .getStatus :: rest => some { t with mailbox := rest, answer := some (t.info now) }
    | .shutdown :: _ => some t.finish
    | [] => if t.held then none else some t.finish
  else none

/-- Nothing is to be received, so that the other branch of a loop may go on. -/
def waits : Bool := t.mailbox.isEmpty && t.held

/-- The end of the initial delay. The timer panics if the period is zero. -/
def elapse (now : ℕ) : Option CheckTask :=
  if t.phase = .delay ∧ t.waits then
    some (if t.config.periodMs = 0 then t.finish
      else { t with phase := .idle, lastTickAt := now })
  else none

/-- A tick fires. -/
def tick (now : ℕ) : Option CheckTask :=
  if t.phase = .idle ∧ t.waits then some { t with phase := .probing, lastTickAt := now } else none

/-- The phase with these reports to send. -/
def afterProbe : List CheckStatus → TaskPhase
  | [] => .idle
  | status :: rest => .sending status rest

/-- A probe has a result. -/
def probed (ok : Bool) : Option CheckTask :=
  if t.phase = .probing then
    some { t with
      actor := (t.actor.tick ok).1
      phase := afterProbe (t.actor.tick ok).2
      results := t.results ++ [ok] }
  else none

/-- The reports that are still to be sent. -/
def outbox : List CheckStatus :=
  match t.phase with
  | .sending status rest => status :: rest
  | _ => []

/-- The next report has been sent. -/
def reported : CheckTask := { t with phase := afterProbe t.outbox.tail }

/-- Put a command into the mailbox, if there is room. A task that has returned drops it. -/
def push (c : Cmd) : Option CheckTask :=
  if t.phase = .ended then some t
  else if t.mailbox.length < mailboxCapacity then some { t with mailbox := t.mailbox ++ [c] }
  else none

/-- `try_send(Shutdown)`, whose failure is ignored, and the end of the handle. -/
def release : CheckTask := { (t.push .shutdown).getD t with held := false }

/-- Receive the answer. If the task has returned without one, receiving fails at once. -/
def takeAnswer : Option CheckTask :=
  if t.answer.isSome || t.phase = .ended then some { t with answer := none } else none

end CheckTask

/-! ## The metrics -/

namespace CheckMetrics

variable (m : CheckMetrics)

/-- `set_check_up`. -/
def setCheckUp (name : String) (up : Bool) : CheckMetrics :=
  { m with checkUp := Function.update m.checkUp name (some up) }

/-- `record_check_success`, or `record_check_failure`. -/
def recordCheck (name : String) (ok : Bool) : CheckMetrics :=
  if ok then
    { m with successCount := Function.update m.successCount name (m.successCount name + 1) }
  else { m with failureCount := Function.update m.failureCount name (m.failureCount name + 1) }

/-- What an actor records where its main loop begins. -/
def begun (t : CheckTask) : CheckMetrics :=
  m.setCheckUp t.actor.name (decide (t.actor.status = .up))

/-- What an actor records of a probe: its result, and the status if it changes. -/
def probed (t : CheckTask) (ok : Bool) : CheckMetrics :=
  let m := m.recordCheck t.actor.name ok
  let status := (t.actor.tick ok).1.status
  if status = t.actor.status then m else m.setCheckUp t.actor.name (decide (status = .up))

end CheckMetrics

/-! ## The overlord -/

namespace Board

variable (s : Board)

/-- Replace an actor's task. -/
def setTask (i : ℕ) (t : CheckTask) : Board := { s with tasks := s.tasks.set i t }

/-- `check::spawn`, and the new entry. The status that the actor starts with is the one that the
alert sender has. -/
def spawn (name : String) (config : CheckConfig) : Board :=
  { s with
    checks := s.checks.insert name { id := s.tasks.length, config }
    tasks := s.tasks ++ [.new name config s.plan.services ((s.lastStatus name).getD .up)] }

/-- An actor is told to shut down without waiting, and its entry is removed. -/
def retire (name : String) (entry : CheckEntry) : Board :=
  { s with
    checks := s.checks.shiftRemove name
    tasks := s.tasks.modify entry.id CheckTask.release }

/-- One check's turn in `sync_actors`. -/
def syncCheck (e : String × CheckConfig) : Board :=
  if e.2.startup = .disabled then s
  else
    match s.checks.get? e.1 with
    | some entry => if entry.config = e.2 then s else (s.retire e.1 entry).spawn e.1 e.2
    | none => s.spawn e.1 e.2

/-- `sync_actors` for the checks. -/
def syncActors : Board := s.plan.checks.entries.foldl syncCheck s

/-- `reload_layers` with the plan that `load_plan` returned, up to its first `await`. -/
def sync (plan : MergedPlan) : Board := { s with plan }.syncActors

/-- The checks that the plan no longer has. -/
def removed : List String := s.checks.keys.filter fun name => !s.plan.checks.contains name

/-- The overlord is at its loop head. -/
def atHead : Bool := s.todo.isEmpty && !s.ended

/-- The entries that a query is about. -/
def selected (names : List String) : List (String × CheckEntry) :=
  s.checks.entries.filter fun e => names.isEmpty || names.contains e.1

/-- `query_checks`. -/
def queryChecks (names : List String) : List BoardInstr :=
  (s.selected names).flatMap (fun e => [.ask e.2.id, .receive e.2.id]) ++ [.reply names]

/-- `stop_all`, and the end of the overlord's task. -/
def stopAll : List BoardInstr :=
  .services :: s.checks.entries.map (fun e => .tell e.2.id) ++ [.finish]

/-- The next action of the overlord's handler. -/
def overlordStep : Option Board :=
  match s.todo with
  | [] => none
  | .services :: rest => some { s with todo := rest }
  | .ask i :: rest =>
    s.tasks[i]?.bind fun t => (t.push .getStatus).map fun t => { s.setTask i t with todo := rest }
  | .receive i :: rest =>
    s.tasks[i]?.bind fun t => t.takeAnswer.map fun t' =>
      { s.setTask i t' with todo := rest, infos := s.infos ++ t.answer.toList }
  | .reply names :: rest =>
    some { s with todo := rest, answers := (names, s.infos) :: s.answers }
  | .sync plan :: rest =>
    let s' := s.sync plan
    some { s' with todo := .services :: s'.removed.map .drop ++ .services :: rest }
  | .drop name :: rest =>
    match s.checks.get? name with
    | none => some { s with todo := rest }
    | some e =>
      s.tasks[e.id]?.bind fun t => (t.push .shutdown).map fun t =>
        { s.setTask e.id { t with held := false } with
          checks := s.checks.shiftRemove name
          todo := rest }
  | .tell i :: rest =>
    s.tasks[i]?.bind fun t => (t.push .shutdown).map fun t => { s.setTask i t with todo := rest }
  | .finish :: _ =>
    some { s with
      todo := [], ended := true, tasks := s.tasks.map fun t => { t with held := false } }

/-- What a report of an actor does: it is put into the channel, which is gone once the overlord's
task has returned. -/
def report (i : ℕ) (t : CheckTask) : Option Board :=
  match t.outbox with
  | [] => none
  | status :: _ =>
    if s.ended then some (s.setTask i t.reported)
    else if s.events.length < eventCapacity then
      some { s.setTask i t.reported with events := s.events ++ [(t.actor.name, status)] }
    else none

/-- One step. -/
def step : BoardLabel → Option Board
  | .pass d => some { s with now := s.now + d }
  | .take i => s.tasks[i]?.bind fun t => (t.take s.now).map (s.setTask i)
  | .elapse i =>
    s.tasks[i]?.bind fun t => (t.elapse s.now).map fun t' =>
      { s.setTask i t' with metrics := s.metrics.begun t }
  | .tick i => s.tasks[i]?.bind fun t => (t.tick s.now).map (s.setTask i)
  | .probed i ok =>
    s.tasks[i]?.bind fun t => (t.probed ok).map fun t' =>
      { s.setTask i t' with metrics := s.metrics.probed t ok }
  | .report i => s.tasks[i]?.bind (s.report i)
  | .overlord => s.overlordStep
  | .query names =>
    if s.atHead then some { s with todo := s.queryChecks names, infos := [] } else none
  | .command plans =>
    if s.atHead then
      some { s with todo := plans.flatMap (fun p => [.services, .sync p]) ++ [.services] }
    else none
  | .shutdown => if s.atHead then some { s with todo := s.stopAll } else none
  | .event exits =>
    match s.events with
    | [] => none
    | ev :: rest =>
      if s.atHead then
        some { s with
          events := rest
          lastStatus := Function.update s.lastStatus ev.1 (some ev.2)
          todo := if exits then s.stopAll else [.services] }
      else none

/-- `run` of the overlord, up to its first wait. -/
def start (plan : MergedPlan) : Board := { ({ plan } : Board).syncActors with todo := [.services] }

end Board

end Vigil.Check
