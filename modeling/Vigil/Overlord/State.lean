import Vigil.Service.Actor

/-!
# The overlord

The overlord's state as far as it concerns services (`overlord/mod.rs`), and what its handlers do
with it (`lifecycle.rs`, `events.rs`, `handlers.rs`).

The overlord takes events at its loop head only, so while a handler runs no snapshot changes, and
which services a handler will talk to is settled when it is entered. A handler is therefore a change
of the state and a list of actions (`Overlord.Instr`), such as a command to an actor and the wait
for its answer, between which the actors go on. Only `reload_layers` changes the state in the middle
of a handler, and it is an action of its own.
-/

namespace Vigil

/-- What the overlord keeps of a service: the handle and the snapshot. -/
structure ServiceEntry where
  /-- The actor behind the handle. -/
  id : ℕ
  /-- The state in the snapshot. -/
  state : ServiceState := .inactive
  /-- The actor whose report the snapshot is. The overlord does not keep it: an event names the
  service and not the actor, and an earlier actor of the service may still have events in the
  channel. -/
  reporter : ℕ

/-- An event in the channel. -/
structure Event where
  /-- The actor that sent it. The overlord never reads it. -/
  src : ℕ
  service : String
  kind : EventKind
  /-- The mark of `Instr.transition`. The overlord never reads it. -/
  ofRestart : Bool
  deriving DecidableEq

/-- Why the overlord sends a command to an actor. -/
inductive Reason
  /-- An API request. -/
  | operator
  /-- `autostart` or `try_start_pending`. -/
  | autostart
  /-- The stop cascade after an event, which may be a step of a restart. -/
  | cascade (service : String) (ofRestart : Bool)
  /-- An `on-check-failure` policy. -/
  | checkFailure (check : String)
  /-- The service is no longer in the plan. -/
  | removal
  /-- A signal that is passed on. -/
  | forward
  deriving DecidableEq

/-- The actions of `POST /v1/services`. -/
inductive ServiceAction
  | start
  | stop
  | restart
  | autostart
  | replan
  deriving DecidableEq, Repr

/-- `vigil_types::api::CheckStatus`. -/
inductive CheckStatus
  | up
  | down
  deriving DecidableEq, Repr

/-- The overlord's services, its plan, and the services that wait for their dependencies. -/
structure Overlord where
  plan : Plan := {}
  services : IndexMap String ServiceEntry := ∅
  pendingAutostart : List String := []

namespace Overlord

/-- The commands that the overlord takes. -/
inductive Cmd
  | services (action : ServiceAction) (names : List String)
  | reloadLayers
  | forwardSignal (signal : Signal)
  | shutdown
  /-- The commands that only read. -/
  | query
  deriving DecidableEq

/-- The actions of the overlord's handlers. -/
inductive Instr
  /-- `svc_cmd`. -/
  | request (name : String) (c : Vigil.Cmd) (why : Reason)
  /-- `handle.tx.send(..).await`. -/
  | sendTo (name : String) (id : ℕ) (c : Vigil.Cmd) (why : Reason)
  /-- `reply_rx.await`. -/
  | await (id : ℕ)
  /-- `svc.startup = Startup::Enabled` in the plan. -/
  | enable (name : String)
  /-- `reload_layers`. -/
  | reload
  /-- `stop_all`, up to the spawn of its tasks. -/
  | stopAll
  /-- `while set.join_next().await.is_some() {}`. -/
  | join
  /-- The task returns, or calls `process::exit` with the code. -/
  | finish (code : Option ℤ)
  deriving DecidableEq

variable (o : Overlord)

/-- A service is running as far as the overlord knows. -/
def isRunning (name : String) : Bool := (o.services.get? name).any fun e => e.state.isRunning

/-- The services that list `name` in `before`. -/
def befores (name : String) : List String :=
  (o.plan.services.entries.filter fun e => decide (e.1 ≠ name) && e.2.before.contains name).map
    Prod.fst

/-- The ordering dependencies of a service with the configuration: `after`, `requires`, and the
reverse of `before`. -/
def deps (name : String) (config : ServiceConfig) : List String :=
  config.after ++ config.requires ++ o.befores name

/-- `after_deps_running`. -/
def afterDepsRunning (name : String) : Bool :=
  match o.plan.services.get? name with
  | none => true
  | some config => (o.deps name config).all o.isRunning

/-- The services that the plan starts with the daemon. -/
def enabledNames : List String :=
  (o.plan.services.entries.filter fun e => decide (e.2.startup = .enabled)).map Prod.fst

/-- One service's turn in `sync_actors`: with the map, and the actors that have been spawned, the
first of which has the number `next`. -/
def syncActor (next : ℕ) (acc : IndexMap String ServiceEntry × List (String × ServiceConfig))
    (e : String × ServiceConfig) : IndexMap String ServiceEntry × List (String × ServiceConfig) :=
  if acc.1.contains e.1 then acc
  else
    let id := next + acc.2.length
    (acc.1.insert e.1 { id, reporter := id }, acc.2 ++ [e])

/-- `sync_actors` for the services: every service of the plan that has no actor gets one. Returns
the new actors, in the order of their numbers. -/
def syncActors (next : ℕ) : Overlord × List (String × ServiceConfig) :=
  let r := o.plan.services.entries.foldl (syncActor next) (o.services, [])
  ({ o with services := r.1 }, r.2)

/-- The request for an automatic start. -/
def startRequest (name : String) : Instr := .request name .start .autostart

/-- `if !pending.contains(&name) { pending.push(name) }`. -/
def pushPending (pending : List String) (name : String) : List String :=
  if name ∈ pending then pending else pending ++ [name]

/-- `pending.retain(|n| n != &name)`. -/
def dropPending (pending : List String) (name : String) : List String :=
  pending.filter fun n => decide (n ≠ name)

/-- `autostart`. -/
def autostart : Overlord × List Instr :=
  let deferred := o.enabledNames.filter fun name => !o.afterDepsRunning name
  ({ o with pendingAutostart := deferred.foldl pushPending o.pendingAutostart },
    (o.enabledNames.filter o.afterDepsRunning).map startRequest)

/-- `try_start_pending`. -/
def tryStartPending : Overlord × List Instr :=
  let ready := o.pendingAutostart.filter o.afterDepsRunning
  ({ o with pendingAutostart := ready.foldl dropPending o.pendingAutostart },
    ready.map startRequest)

/-- The services that are no longer in the plan. -/
def removed : List (String × ServiceEntry) :=
  o.services.entries.filter fun e => !o.plan.services.contains e.1

/-- `reload_layers` with the plan that `load_plan` returned. Returns the new actors as well. -/
def reloadLayers (plan : Plan) (next : ℕ) :
    Overlord × List (String × ServiceConfig) × List Instr :=
  let synced := { o with plan }.syncActors next
  let kept : Overlord :=
    { plan, services := synced.1.services.filter fun e => plan.services.contains e.1 }
  (kept.autostart.1, synced.2,
    synced.1.removed.map (fun e => .sendTo e.1 e.2.id .shutdown .removal) ++ kept.autostart.2)

/-- The services that `requires` makes depend on `name` and that are running as far as the overlord
knows. -/
def runningDependents (name : String) : List String :=
  (o.plan.services.entries.filter fun e => e.2.requires.contains name && o.isRunning e.1).map
    Prod.fst

/-- `stop_all` and the end of the daemon. -/
def shutdown (code : Option ℤ) : List Instr := [.stopAll, .join, .finish code]

/-- `handle_svc_event`, with what the loop does where it returns an exit code. -/
def handleSvcEvent (ev : Event) : Overlord × List Instr :=
  match ev.kind with
  | .stateChanged newState =>
    let o := { o with services := o.services.modify ev.service fun e =>
      { e with state := newState, reporter := ev.src } }
    if newState.isRunning && !o.pendingAutostart.isEmpty then o.tryStartPending
    else if newState = .inactive || newState = .error then
      (o, (o.runningDependents ev.service).map fun name =>
        .request name .stop (.cascade ev.service ev.ofRestart))
    else (o, [])
  | .processExited _ => (o, [])
  | .daemonShutdown exitCode => (o, shutdown (some exitCode))

/-- The loop over the actions in `handle_check_event`. A shutdown policy ends the daemon, so that
the services after it get no turn. -/
def checkActions (check : String) : List (String × OnExit) → List Instr
  | [] => []
  | (name, .restart) :: rest =>
    .request name .restart (.checkFailure check) :: checkActions check rest
  | (_, .ignore) :: rest => checkActions check rest
  | (_, .shutdown) :: _ => shutdown (some 10)
  | (_, .successShutdown) :: _ => shutdown (some 0)
  | (_, .failureShutdown) :: _ => shutdown (some 10)

/-- The services with an `on-check-failure` policy on the check. -/
def onCheckFailure (check : String) : List (String × OnExit) :=
  o.plan.services.entries.filterMap fun e => (e.2.onCheckFailure.get? check).map fun a => (e.1, a)

/-- `handle_check_event`, less the alerts. -/
def handleCheckEvent (check : String) (status : CheckStatus) : List Instr :=
  if status = .down then checkActions check (o.onCheckFailure check) else []

/-- The turn of one service in `handle_services_action`. -/
def serviceAction (action : ServiceAction) (name : String) : List Instr :=
  match action with
  | .start => [.request name .start .operator]
  | .stop => [.request name .stop .operator]
  | .restart => [.request name .restart .operator]
  | .autostart => [.enable name, .request name .start .operator]
  | .replan => [.reload]

/-- `handle_services_action`, up to its answer. -/
def handleServicesAction (action : ServiceAction) (names : List String) : List Instr :=
  (if names.isEmpty then o.plan.services.keys else names).flatMap (serviceAction action)

/-- `forward_signal`. -/
def forwardSignal (signal : Signal) : List Instr :=
  o.services.entries.map fun e => .sendTo e.1 e.2.id (.forwardSignal signal) .forward

/-- What the loop does with a command. -/
def handleCmd : Cmd → List Instr
  | .services action names => o.handleServicesAction action names
  | .reloadLayers => [.reload]
  | .forwardSignal signal => o.forwardSignal signal
  | .shutdown => shutdown none
  | .query => []

/-- `svc.startup = Startup::Enabled`, if the plan has the service. -/
def enable (name : String) : Overlord :=
  { o with plan := { o.plan with
      services := o.plan.services.modify name fun c => { c with startup := .enabled } } }

end Overlord

end Vigil
