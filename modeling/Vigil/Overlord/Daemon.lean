import Vigil.Overlord.State
import Vigil.Service.Loop

/-!
# The daemon

The overlord, the service actors that it has spawned, and the channels between them, one action at a
time and in any order. An actor's mailbox has room for 32 commands and the event channel for 256
events; a send waits while its channel is full, and a send to a task that has returned is dropped.
Commands to the overlord, check events, process exits, and the passing of time come from outside.

Actors are numbered in the order of their spawns and stay in the list after they have returned. A
process is named by its actor and its number there.

`select!` is `biased` in the overlord and in the actors, and `Biased` says which steps keep to its
order. The theorems about all runs do not need it, and the runs that show that something can happen
keep to it.
-/

namespace Vigil

open Actor (Input)

/-- The capacity of an actor's mailbox. -/
def mailboxCapacity : ℕ := 32

/-- The capacity of the event channel. -/
def eventCapacity : ℕ := 256

/-- An actor's task, its mailbox, and its answer to the command that is waited for. -/
structure Slot where
  task : Task
  /-- The commands that wait, the oldest first. -/
  mailbox : List Cmd := []
  answer : Option Bool := none

/-- How far a task of `stop_all` is: it sends a stop, awaits the answer, and sends a shutdown. -/
inductive StopPhase
  | stop
  | await
  | shutdown
  | done
  deriving DecidableEq, Repr

/-- A task of `stop_all`. -/
structure StopTask where
  name : String
  id : ℕ
  phase : StopPhase := .stop
  deriving DecidableEq

/-- The exit of a process. -/
structure Exit where
  id : ℕ
  process : ℕ
  success : Bool
  deriving DecidableEq

/-- What the overlord has done. -/
inductive Entry
  /-- A command was put into a mailbox. -/
  | sent (name : String) (id : ℕ) (c : Cmd) (why : Reason)
  /-- An event was handled. -/
  | handled (ev : Event)
  /-- A plan was loaded that starts the services with the daemon. -/
  | loaded (enabled : List String)
  /-- The task returned, or called `process::exit` with the code. -/
  | ended (code : Option ℤ)
  deriving DecidableEq

/-- The state of the daemon. -/
structure Daemon where
  now : ℕ := 0
  overlord : Overlord
  /-- What is left of the overlord's handler. -/
  todo : List Overlord.Instr := []
  stopTasks : List StopTask := []
  slots : List Slot := []
  /-- The event channel, the oldest event first. -/
  events : List Event := []
  exits : List Exit := []
  /-- The overlord's task has returned, or called `process::exit`. -/
  ended : Bool := false
  /-- What the overlord has done, the newest first. -/
  log : List Entry := []

namespace Slot

variable (slot : Slot)

/-- A new actor. -/
def new (e : String × ServiceConfig) : Slot where
  task := .new e.1 e.2

/-- Put a command into the mailbox, if there is room. A task that has returned drops it. -/
def push (c : Cmd) : Option Slot :=
  if slot.task.ended then some slot
  else if slot.mailbox.length < mailboxCapacity then
    some { slot with mailbox := slot.mailbox ++ [c] }
  else none

/-- Receive the answer. If the task has returned without one, receiving fails at once. -/
def takeAnswer : Option Slot :=
  if slot.answer.isSome || slot.task.ended then some { slot with answer := none } else none

/-- The answer after the next action. -/
def nextAnswer : Option Bool :=
  match slot.task.todo with
  | .reply ok :: _ => some ok
  | _ => slot.answer

/-- The mailbox after an input. -/
def nextMailbox : Input → List Cmd
  | .cmd _ _ => slot.mailbox.tail
  | _ => slot.mailbox

end Slot

namespace Daemon

/-- What can happen. -/
inductive Label
  /-- Time passes. -/
  | tick (d : ℕ)
  /-- A process exits. -/
  | exit (e : Exit)
  /-- An actor does its next action. -/
  | act (id : ℕ)
  /-- The event channel takes the event that an actor is sending. -/
  | deliver (id : ℕ)
  /-- An actor takes an input. -/
  | input (id : ℕ) (inp : Input)
  /-- The overlord does the next action of its handler. `load` is what `load_plan` returns. -/
  | overlord (load : Option Plan)
  /-- The overlord takes a command. -/
  | command (c : Overlord.Cmd)
  /-- The overlord takes a service event. -/
  | event
  /-- The overlord takes a check event. -/
  | check (name : String) (status : CheckStatus)
  /-- A task of `stop_all` does its next action. -/
  | stopTask (i : ℕ)

/-- `run`, up to its first wait: `sync_actors`, and the state change of `autostart`. -/
def init (plan : Plan) : Daemon :=
  let synced := Overlord.syncActors { plan } 0
  { overlord := synced.1.autostart.1
    todo := synced.1.autostart.2
    slots := synced.2.map .new
    log := [.loaded synced.1.enabledNames] }

variable (s : Daemon)

/-- The process has exited. -/
def exited (id p : ℕ) : Bool := s.exits.any fun e => e.id = id && e.process = p

/-- The overlord is at its loop head. -/
def atHead : Bool := s.todo.isEmpty && !s.ended

/-- Replace an actor's slot. -/
def setSlot (id : ℕ) (slot : Slot) : Daemon := { s with slots := s.slots.set id slot }

/-- Whether what an actor does next has come about: `c.wait().await` returns when the process has
exited. -/
def canAct (id : ℕ) (t : Task) : Bool :=
  match t.todo with
  | .wait :: _ => t.actor.child.all (s.exited id)
  | _ => true

/-- Whether an input has come in: a command is at the head of the mailbox, and the held process has
exited. The timers are the actor's own. -/
def admits (id : ℕ) (slot : Slot) : Input → Bool
  | .cmd c _ => slot.mailbox.head? = some c
  | .childExit success _ => slot.task.actor.child.any fun p => s.exits.contains ⟨id, p, success⟩
  | _ => true

/-- The next action of the overlord's handler. -/
def overlordStep (load : Option Plan) : Option Daemon :=
  match s.todo with
  | [] => none
  | .request name c why :: rest =>
    match s.overlord.services.get? name with
    | none => some { s with todo := rest }
    | some e => some { s with todo := .sendTo name e.id c why :: .await e.id :: rest }
  | .sendTo name id c why :: rest =>
    s.slots[id]?.bind fun slot => (slot.push c).map fun slot =>
      { s.setSlot id slot with todo := rest, log := .sent name id c why :: s.log }
  | .await id :: rest =>
    s.slots[id]?.bind fun slot => slot.takeAnswer.map fun slot =>
      { s.setSlot id slot with todo := rest }
  | .enable name :: rest => some { s with overlord := s.overlord.enable name, todo := rest }
  | .reload :: rest =>
    match load with
    | none => some { s with todo := rest }
    | some plan =>
      let r := s.overlord.reloadLayers plan s.slots.length
      some { s with
        overlord := r.1
        slots := s.slots ++ r.2.1.map .new
        todo := r.2.2 ++ rest
        log := .loaded r.1.enabledNames :: s.log }
  | .stopAll :: rest =>
    some { s with
      stopTasks := s.overlord.services.entries.map fun e => { name := e.1, id := e.2.id }
      todo := rest }
  | .join :: rest =>
    if s.stopTasks.all fun t => t.phase = .done then some { s with todo := rest } else none
  | .finish code :: _ => some { s with todo := [], ended := true, log := .ended code :: s.log }

/-- The next action of a task of `stop_all`. -/
def stopTaskStep (i : ℕ) : Option Daemon :=
  s.stopTasks[i]?.bind fun t => s.slots[t.id]?.bind fun slot =>
    match t.phase with
    | .stop => (slot.push .stop).map fun slot =>
      { s.setSlot t.id slot with stopTasks := s.stopTasks.set i { t with phase := .await } }
    | .await => slot.takeAnswer.map fun slot =>
      { s.setSlot t.id slot with stopTasks := s.stopTasks.set i { t with phase := .shutdown } }
    | .shutdown => (slot.push .shutdown).map fun slot =>
      { s.setSlot t.id slot with stopTasks := s.stopTasks.set i { t with phase := .done } }
    | .done => none

/-- A step of the daemon. -/
def step : Label → Option Daemon
  | .tick d => some { s with now := s.now + d }
  | .exit e =>
    if s.slots[e.id]?.any (fun slot => e.process < slot.task.actor.spawned) &&
        !s.exited e.id e.process then
      some { s with exits := e :: s.exits }
    else none
  | .act id =>
    s.slots[id]?.bind fun slot =>
      if s.canAct id slot.task then
        (slot.task.act s.now).map fun t =>
          s.setSlot id { slot with task := t, answer := slot.nextAnswer }
      else none
  | .deliver id =>
    s.slots[id]?.bind fun slot => slot.task.outbox.bind fun (kind, ofRestart) =>
      if s.events.length < eventCapacity then
        slot.task.deliver.map fun t =>
          { s.setSlot id { slot with task := t } with
            events := s.events ++ [⟨id, slot.task.actor.name, kind, ofRestart⟩] }
      else none
  | .input id inp =>
    s.slots[id]?.bind fun slot =>
      if s.admits id slot inp then
        (slot.task.take s.now inp).map fun t =>
          s.setSlot id { slot with task := t, mailbox := slot.nextMailbox inp }
      else none
  | .overlord load => s.overlordStep load
  | .command c => if s.atHead then some { s with todo := s.overlord.handleCmd c } else none
  | .event =>
    match s.events with
    | [] => none
    | ev :: rest =>
      if s.atHead then
        some { s with
          overlord := (s.overlord.handleSvcEvent ev).1
          todo := (s.overlord.handleSvcEvent ev).2
          events := rest
          log := .handled ev :: s.log }
      else none
  | .check name status =>
    if s.atHead then some { s with todo := s.overlord.handleCheckEvent name status } else none
  | .stopTask i => s.stopTaskStep i

/-- Whether a step keeps to the order of `biased` `select!`: in an actor, commands come before the
exit, the exit before the kill timer, and that before the backoff timer, and in the overlord,
service events come before check events. A command to the overlord comes in when it is taken. -/
def Biased : Label → Prop
  | .input id (.childExit _ _) => ∀ slot ∈ s.slots[id]?, slot.mailbox = []
  | .input id .killDeadline => ∀ slot ∈ s.slots[id]?, slot.mailbox = [] ∧
    slot.task.actor.child.any (s.exited id) = false
  | .input id (.backoffExpired _) => ∀ slot ∈ s.slots[id]?, slot.mailbox = [] ∧
    slot.task.actor.child.any (s.exited id) = false ∧ slot.task.ready s.now .killDeadline = false
  | .check _ _ => s.events = []
  | _ => True

instance (l : Label) : Decidable (s.Biased l) := by
  unfold Biased
  split <;> infer_instance

/-- A plan with the one service `web`. -/
def webPlan (config : ServiceConfig) : Plan where
  services := IndexMap.insert ∅ "web" config

/-- What the overlord and the actor do for the start of a service. -/
def startLabels (id : ℕ) : List Label :=
  [.overlord none, .overlord none, .input id (.cmd .start true), .act id, .deliver id, .act id,
    .act id, .act id, .deliver id, .act id, .act id, .act id, .overlord none]

end Daemon

end Vigil
