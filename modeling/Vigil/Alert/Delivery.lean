import Vigil.Alert.Sender
import Vigil.Lib.Runs

/-!
# Alert delivery

The alert sender, its delivery workers, and the tasks that send (`alert/mod.rs`,
`alert/delivery/worker.rs`, `alert/delivery/send.rs`). A worker takes the jobs of its channel in
order and hands each to a task of its own, which goes through its attempts and the sleeps between
them at its own pace. When a reload changes the depth of the queue, the channel is replaced and a
second worker starts, while the first goes on with the jobs that are left in the old channel.
-/

namespace Vigil

/-- `resolve`, in the environment of the daemon. -/
def resolve (env : String → Option String) (val : String) : String :=
  match val.toList.dropPrefix? "env:".toList with
  | some var => (env (String.ofList var)).getD ""
  | none => val

namespace AlertConfig

variable (cfg : AlertConfig)

/-- The number of attempts of `http_send`. -/
def maxAttempts : ℕ := max (cfg.retryAttempts.getD 3).toNat 1

/-- The delays of `http_send`, in milliseconds. -/
def backoff : List ℕ :=
  if cfg.retryBackoff = [] then [1000, 2000]
  else cfg.retryBackoff.map fun s => (parseDuration s).toOption.getD 1000

/-- The delay after an attempt. The last one of the list is repeated. -/
def delay (attempt : ℕ) : ℕ := cfg.backoff[attempt]?.getD (cfg.backoff.getLast?.getD 0)

end AlertConfig

/-- What an attempt comes to. -/
inductive Answer
  /-- The endpoint has answered with the status code. -/
  | status (code : ℕ)
  /-- There is no answer. -/
  | error
  deriving DecidableEq, Repr

namespace Answer

/-- `is_success`. -/
def isSuccess : Answer → Bool
  | status code => decide (200 ≤ code ∧ code < 300)
  | error => false

/-- The answers after which there may be another attempt: none, and a `5xx`. -/
def isRetried : Answer → Bool
  | status code => decide (500 ≤ code ∧ code < 600)
  | error => true

end Answer

/-- How far a send is. -/
inductive SendPhase
  | sending
  /-- `sleep`, up to a point in time. -/
  | sleeping (wakeAt : ℕ)
  | delivered
  /-- It has given up. -/
  | failed
  deriving DecidableEq, Repr

/-- A task that runs `http_send`. -/
structure DeliveryTask where
  job : DeliveryJob
  attempt : ℕ := 0
  phase : SendPhase
  deriving DecidableEq

namespace DeliveryTask

/-- The start of `http_send`. An alert without a URL is dropped. -/
def start (env : String → Option String) (job : DeliveryJob) : DeliveryTask where
  job := job
  phase := if resolve env job.config.url = "" then .failed else .sending

variable (t : DeliveryTask)

/-- The task is under way. -/
def Running : Prop := t.phase ≠ .delivered ∧ t.phase ≠ .failed

instance : Decidable t.Running := inferInstanceAs (Decidable (_ ∧ _))

/-- An attempt comes to its end. -/
def answer (now : ℕ) (r : Answer) : Option DeliveryTask :=
  match t.phase with
  | .sending =>
    if r.isSuccess then some { t with phase := .delivered }
    else if r.isRetried ∧ t.attempt + 1 < t.job.config.maxAttempts then
      some { t with phase := .sleeping (now + t.job.config.delay t.attempt) }
    else some { t with phase := .failed }
  | _ => none

/-- A sleep comes to its end, and the next attempt begins. -/
def wake (now : ℕ) : Option DeliveryTask :=
  match t.phase with
  | .sleeping wakeAt =>
    if wakeAt ≤ now then some { t with phase := .sending, attempt := t.attempt + 1 } else none
  | _ => none

end DeliveryTask

/-- An event that has been handled. The daemon does not keep it. -/
structure CheckEvent where
  check : String
  status : CheckStatus
  /-- The alerts that listed the check then. -/
  subscribed : List AlertEntry
  /-- The jobs that it has put into the channel. -/
  jobs : List DeliveryJob

/-- The alert sender and what delivers its jobs. -/
structure Alerting where
  now : ℕ := 0
  sender : AlertSender
  /-- The channels that have been replaced. Each still has its worker. -/
  retired : List (Channel DeliveryJob) := []
  /-- The tasks, in the order of their spawns. -/
  tasks : List DeliveryTask := []
  /-- The events so far. The daemon does not keep them. -/
  events : List CheckEvent := []
  /-- The jobs that have been delivered, in the order of their delivery. The daemon does not keep
  them. -/
  delivered : List DeliveryJob := []

/-- What happens. -/
inductive AlertLabel
  /-- `handle_check_event`. -/
  | event (check : String) (status : CheckStatus)
  /-- `update_alerts`. -/
  | updateAlerts (alerts : IndexMap String AlertConfig)
  /-- `update_queue_limits`. -/
  | updateQueueLimits (queueDepth maxAgeSecs : ℕ)
  /-- The worker takes a job. -/
  | recv
  /-- The worker of a replaced channel takes a job. -/
  | recvRetired (k : ℕ)
  /-- An attempt of a task comes to its end. -/
  | answer (i : ℕ) (r : Answer)
  /-- A task wakes up. -/
  | wake (i : ℕ)
  /-- Some milliseconds pass. -/
  | tick (ms : ℕ)

namespace Alerting

variable (env : String → Option String) (s : Alerting)

/-- The turn of `delivery_worker` with a job: it is discarded if it is too old, and a task is
spawned for it otherwise. -/
def dispatch (job : DeliveryJob) : List DeliveryTask :=
  if s.sender.queue.maxAgeSecs * 1000 < s.now - job.queuedAt then s.tasks
  else s.tasks ++ [.start env job]

/-- One step. -/
def step (s : Alerting) : AlertLabel → Option Alerting
  | .event check status =>
    let sender := (s.sender.handleCheckEvent s.now check status).1
    some { s with
      sender
      events := s.events ++ [{
        check, status
        subscribed := s.sender.subscribed check
        jobs := sender.deliveryTx.items.drop s.sender.deliveryTx.items.length }] }
  | .updateAlerts alerts => some { s with sender := s.sender.updateAlerts alerts }
  | .updateQueueLimits queueDepth maxAgeSecs => do
    let sender ← s.sender.updateQueueLimits queueDepth maxAgeSecs
    return { s with
      sender
      retired :=
        if queueDepth = s.sender.queue.queueDepth then s.retired
        else s.retired ++ [s.sender.deliveryTx] }
  | .recv => do
    let (job, q) ← s.sender.deliveryTx.recv
    return { s with sender := { s.sender with deliveryTx := q }, tasks := s.dispatch env job }
  | .recvRetired k => do
    let r ← s.retired[k]?
    let (job, q) ← r.recv
    return { s with retired := s.retired.set k q, tasks := s.dispatch env job }
  | .answer i r => do
    let t ← s.tasks[i]?
    let t' ← t.answer s.now r
    return { s with
      tasks := s.tasks.set i t'
      delivered := if t'.phase = .delivered then s.delivered ++ [t.job] else s.delivered }
  | .wake i => do
    let t ← s.tasks[i]?
    let t' ← t.wake s.now
    return { s with tasks := s.tasks.set i t' }
  | .tick ms => some { s with now := s.now + ms }

/-- The jobs that wait in the channels. -/
def queued : List DeliveryJob := (s.retired ++ [s.sender.deliveryTx]).flatMap Channel.items

/-- The jobs that have been put into the channels, in order. -/
def sent : List DeliveryJob := s.events.flatMap CheckEvent.jobs

end Alerting

end Vigil
