import Mathlib.Data.Rat.Floor
import Vigil.Plan.Service

/-!
# The service actor

The state of a service actor (`service/actor/mod.rs`), the atomic actions that its handlers are made
of, and what each action does to the state. An actor owns its fields and the four variables of its
loop, and nobody else writes them. So a handler is the list of its actions (`Instr`), computed from
the actor's state when the handler is entered, and the only thing that it does not know then, the
outcome of a spawn, is drawn with it. The list leaves room for the world to move between two
actions: an event channel that is full, a process that exits, a clock that goes on.

A process is named by its number among the processes that its actor has spawned. The two timers hold
the duration that they were set with. When they elapse is up to the clock (`Loop.lean`).
-/

namespace Vigil

/-- The lifecycle state of a supervised service. -/
inductive ServiceState
  | inactive
  | starting
  | active
  | stopping
  | backoff
  | error
  deriving DecidableEq, Repr

namespace ServiceState

/-- `is_running`: a service counts as running from `Starting` on. -/
def isRunning : ServiceState → Bool
  | starting | active => true
  | _ => false

end ServiceState

/-- What an actor reports to the overlord. -/
inductive EventKind
  | stateChanged (newState : ServiceState)
  | processExited (success : Bool)
  /-- A service policy asks the daemon to exit with the code. -/
  | daemonShutdown (exitCode : ℤ)
  deriving DecidableEq, Repr

/-- The commands that an actor's mailbox takes. -/
inductive Cmd
  | start
  | stop
  | restart
  | status
  | forwardSignal (signal : Signal)
  | shutdown
  deriving DecidableEq, Repr

/-! ## Defaults, in milliseconds -/

/-- `DEFAULT_KILL_DELAY`. -/
def defaultKillDelay : ℕ := 5000

/-- `DEFAULT_BACKOFF_DELAY`. -/
def defaultBackoffDelay : ℕ := 500

/-- `DEFAULT_BACKOFF_FACTOR`. -/
def defaultBackoffFactor : ℚ := 2

/-- `DEFAULT_BACKOFF_LIMIT`. -/
def defaultBackoffLimit : ℕ := 30000

/-! ## The state -/

/-- The fields of `Actor`, and the variables of its loop: the two timers and `pending_restart`. -/
structure Actor where
  name : String
  config : ServiceConfig
  state : ServiceState := .inactive
  /-- The process handle. -/
  child : Option ℕ := none
  /-- How many processes the actor has spawned; the next one has this number. -/
  spawned : ℕ := 0
  backoffCount : ℕ := 0
  currentBackoff : ℕ := defaultBackoffDelay
  /-- The delay that the backoff timer was set with, while it is armed. -/
  backoffSleep : Option ℕ := none
  /-- The delay that the kill timer was set with, while it is armed. -/
  stopDeadline : Option ℕ := none
  pendingRestart : Bool := false

/-- What a process is spawned with. -/
structure SpawnSpec where
  command : Option String
  /-- The variables that are set. -/
  environment : String → Option String
  user : Option String
  userId : Option ℕ
  group : Option String
  groupId : Option ℕ
  workingDir : Option String
  logsForward : LogsForward

/-- The part of a configuration that `do_start` reads. -/
def ServiceConfig.spawnSpec (c : ServiceConfig) : SpawnSpec where
  command := c.command
  environment := c.environment.get?
  user := c.user
  userId := c.userId
  group := c.group
  groupId := c.groupId
  workingDir := c.workingDir
  logsForward := c.logsForward.getD .enabled

namespace Actor

variable (a : Actor)

/-- `stop_signal`. -/
def stopSignal : Signal := a.config.stopSignal.getD .sigterm

/-- `kill_delay`. -/
def killDelay : ℕ := durationOr a.config.killDelay defaultKillDelay

/-- The backoff limit, as `next_backoff` and `backoff_limit_exceeded` read it. -/
def backoffLimit : ℕ := durationOr a.config.backoffLimit defaultBackoffLimit

/-- `next_backoff`, the delay that it stores for the next time: the present delay times the factor,
truncated to a `u64`, and at most the limit. -/
def nextBackoff : ℕ :=
  min (min ⌊(a.currentBackoff : ℚ) * a.config.backoffFactor.getD defaultBackoffFactor⌋.toNat u64Max)
    a.backoffLimit

/-- `backoff_limit_exceeded`. -/
def backoffLimitExceeded : Bool := 0 < a.backoffCount && a.backoffLimit ≤ a.currentBackoff

/-- The actor as it is spawned. -/
def new (name : String) (config : ServiceConfig) : Actor where
  name
  config

end Actor

/-! ## Actions -/

/-- The atomic actions of the handlers. -/
inductive Instr
  /-- `transition`: set the state, then send it to the overlord. In `ofRestart` the model notes that
  the state is a step of a restart whose spawn succeeds; the actor and the overlord never read it.
  -/
  | transition (s : ServiceState) (ofRestart : Bool)
  /-- Any other `event_tx.send(..).await`. -/
  | send (k : EventKind)
  /-- Enter `do_start`. -/
  | enter
  /-- The spawn in `do_start`, when it succeeds: `self.child = Some(child)`. -/
  | spawn
  /-- `self.child = None` after the exit of the held process has been collected. -/
  | collect
  /-- `reset_backoff`. -/
  | resetBackoff
  /-- `next_backoff`. -/
  | nextBackoff
  /-- `*stop_deadline = Some(sleep(self.kill_delay()))`. -/
  | armStop
  /-- `*stop_deadline = None`. -/
  | disarmStop
  /-- `*backoff_sleep = Some(sleep(delay))`. -/
  | armBackoff (delay : ℕ)
  /-- `*backoff_sleep = None`. -/
  | disarmBackoff
  /-- `*pending_restart = b`. -/
  | setPending (b : Bool)
  /-- `send_stop_signal`. -/
  | stopSignal
  /-- `send_sigkill`. -/
  | sigkill
  /-- `send_signal`. -/
  | signal (sig : Signal)
  /-- `reply.send(Ok(()))` or `reply.send(Err(..))`. -/
  | reply (ok : Bool)
  /-- `sleep(d).await`. -/
  | sleep (d : ℕ)
  /-- The rest of a `sleep`, until the time. -/
  | wake (time : ℕ)
  /-- `self.child.take()` and `c.wait().await`. -/
  | wait
  /-- The actor's task returns. -/
  | finish
  deriving DecidableEq, Repr

namespace Actor

/-- What an action does to the actor. -/
def exec (a : Actor) : Instr → Actor
  | .transition s _ => { a with state := s }
  | .spawn => { a with child := some a.spawned, spawned := a.spawned + 1 }
  | .collect | .wait => { a with child := none }
  | .resetBackoff =>
    { a with
      backoffCount := 0
      currentBackoff := durationOr a.config.backoffDelay defaultBackoffDelay }
  | .nextBackoff =>
    { a with backoffCount := (a.backoffCount + 1) % 2^32, currentBackoff := a.nextBackoff }
  | .armStop => { a with stopDeadline := some a.killDelay }
  | .disarmStop => { a with stopDeadline := none }
  | .armBackoff delay => { a with backoffSleep := some delay }
  | .disarmBackoff => { a with backoffSleep := none }
  | .setPending b => { a with pendingRestart := b }
  | _ => a

/-- What an action lets the world see of it. -/
inductive Effect
  /-- The state was set. -/
  | stateSet (s : ServiceState)
  /-- `do_start` was entered. -/
  | entered
  /-- A process was spawned. -/
  | spawned (p : ℕ) (spec : SpawnSpec)
  /-- A process's exit was collected. -/
  | collected (p : ℕ)
  /-- The stop signal was sent to a process group. -/
  | stopSignalled (p : ℕ) (sig : Signal)
  /-- `SIGKILL` was sent to a process group. -/
  | killed (p : ℕ)
  /-- A forwarded signal was sent to a process group. -/
  | signalled (p : ℕ) (sig : Signal)
  /-- A command was answered. -/
  | replied (ok : Bool)

/-- The effect of an action, if it has one. Signals go to the held process. -/
def effect (a : Actor) : Instr → Option Effect
  | .transition s _ => some (.stateSet s)
  | .enter => some .entered
  | .spawn => some (.spawned a.spawned a.config.spawnSpec)
  | .collect | .wait => a.child.map .collected
  | .stopSignal => a.child.map fun p => .stopSignalled p a.stopSignal
  | .sigkill => a.child.map .killed
  | .signal sig => a.child.map fun p => .signalled p sig
  | .reply ok => some (.replied ok)
  | _ => none

/-- The event that an action sends to the overlord, if it sends one, and whether it is a step of a
restart whose spawn succeeds. -/
def sends : Instr → Option (EventKind × Bool)
  | .transition s r => some (.stateChanged s, r)
  | .send k => some (k, false)
  | _ => none

/-! ## Scripts -/

variable (a : Actor)

/-- Whether `do_start` succeeds. It fails without a command; whether parsing the command, resolving
the credentials, and the spawn itself succeed is `ok`. -/
def canSpawn (ok : Bool) : Bool := a.config.command.isSome && ok

/-- `do_start` with the two ways in which its callers go on. -/
def doStart (ok : Bool) (onOk onErr : List Instr) : List Instr :=
  if a.canSpawn ok then
    .enter :: .spawn :: .transition .active false :: onOk
  else .enter :: onErr

/-- `handle_start`. -/
def handleStart (ok : Bool) : List Instr :=
  if a.state.isRunning then [.reply true]
  else if a.state = .stopping then [.reply false]
  else .transition .starting false ::
    a.doStart ok [.resetBackoff, .disarmStop, .reply true] [.transition .error false, .reply false]

/-- `handle_stop`. -/
def handleStop : List Instr :=
  match a.state with
  | .inactive | .error | .stopping => [.reply true]
  | .backoff => [.disarmBackoff, .transition .inactive false, .reply true]
  | .starting | .active => [.stopSignal, .transition .stopping false, .armStop, .reply true]

/-- `handle_restart`. Without a running process it is `handle_start`, whose answer it passes on. -/
def handleRestart (ok : Bool) : List Instr :=
  if a.state.isRunning || a.state = .stopping then
    [.stopSignal, .transition .stopping false, .armStop, .disarmBackoff, .setPending true,
      .reply true]
  else a.handleStart ok

/-- The exit policy that applies. -/
def exitPolicy (success : Bool) : Option OnExit :=
  if success then a.config.onSuccess else a.config.onFailure

/-- Whether the exit policy that applies is to restart the service. -/
def restartsOn (success : Bool) : Bool := (a.exitPolicy success).getD .restart = .restart

/-- The part of `handle_child_exit` for a service that is not being stopped. -/
def applyExitPolicy (success : Bool) : List Instr :=
  match a.exitPolicy success with
  | some .ignore => [.transition .inactive false]
  | some .shutdown =>
    [.transition .inactive false, .send (.daemonShutdown (if success then 0 else 10))]
  | some .failureShutdown => [.transition .inactive false, .send (.daemonShutdown 10)]
  | some .successShutdown => [.transition .inactive false, .send (.daemonShutdown 0)]
  | some .restart | none =>
    if a.backoffLimitExceeded then [.transition .error false]
    else [.nextBackoff, .transition .backoff false, .armBackoff a.currentBackoff]

/-- `handle_child_exit`. -/
def handleChildExit (success ok : Bool) : List Instr :=
  .send (.processExited success) :: .collect :: .disarmStop ::
    (if a.state = .stopping then
      if a.pendingRestart then
        .transition .inactive (a.canSpawn ok) :: .setPending false ::
          .transition .starting false ::
          a.doStart ok [.resetBackoff] [.transition .error false]
      else [.transition .inactive false]
    else a.applyExitPolicy success)

/-- The kill timer's branch of the loop: `handle_kill_deadline`, and the timer is spent. -/
def handleKillDeadline : List Instr :=
  if a.child.isSome then [.sigkill, .disarmStop] else [.disarmStop]

/-- The backoff timer's branch of the loop: `handle_backoff_expired`, and the timer is spent. -/
def handleBackoffExpired (ok : Bool) : List Instr :=
  .transition .starting false ::
    a.doStart ok [.disarmStop, .disarmBackoff]
      [.transition .error false, .disarmStop, .disarmBackoff]

/-- `cleanup`, after which the task returns. -/
def cleanup : List Instr :=
  if a.child.isSome then [.stopSignal, .sleep 500, .sigkill, .wait, .finish] else [.finish]

/-- What a turn of the loop starts with: one of the branches of its `select!`. `ok` is the outcome
of the spawn, where the branch comes to one. -/
inductive Input
  | cmd (c : Cmd) (ok : Bool)
  | childExit (success ok : Bool)
  | killDeadline
  | backoffExpired (ok : Bool)
  deriving DecidableEq, Repr

/-- A turn of the loop. -/
def script : Input → List Instr
  | .cmd .start ok => a.handleStart ok
  | .cmd .stop _ => a.handleStop
  | .cmd .restart ok => a.handleRestart ok
  | .cmd .status _ => []
  | .cmd (.forwardSignal sig) _ => [.signal sig]
  | .cmd .shutdown _ => a.cleanup
  | .childExit success ok => a.handleChildExit success ok
  | .killDeadline => a.handleKillDeadline
  | .backoffExpired ok => a.handleBackoffExpired ok

end Actor

end Vigil
