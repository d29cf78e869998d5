import Vigil.Lib.Channel
import Vigil.Lib.Edges
import Vigil.Overlord.Panics
import Vigil.Overlord.State

/-!
# The alert sender

`AlertSender` of `alert/mod.rs`: the alerts, the last status of each check, and the channel to the
delivery worker. A status that is an edge of its check (`Edges.IsEdge`, with `up` at rest) makes one
job for each alert that lists the check, as far as the channel has room.

A job keeps the configuration of its alert and the body that `format_payload` makes from the check,
the status, and the configuration. The body is represented by the arguments that it is made from.
-/

namespace Vigil

/-- An alert. Its client is made from the configuration alone. -/
structure AlertEntry where
  name : String
  config : AlertConfig
  deriving DecidableEq

/-- A delivery job. -/
structure DeliveryJob where
  config : AlertConfig
  /-- The body's check. -/
  check : String
  /-- The body's status. -/
  status : CheckStatus
  queuedAt : ℕ
  /-- The alert's name. The daemon does not keep it. -/
  alert : String
  /-- The number of jobs before this one. The daemon does not keep it. -/
  seq : ℕ
  deriving DecidableEq

/-- `AlertSender`. -/
structure AlertSender where
  alerts : List AlertEntry := []
  /-- The last known status of each check. -/
  state : IndexMap String CheckStatus := ∅
  deliveryTx : Channel DeliveryJob
  queue : AlertQueue
  /-- The number of jobs that have been put into the channel. The daemon does not keep it. -/
  enqueued : ℕ := 0

namespace AlertSender

variable (a : AlertSender)

/-- `with_queue_limits`, or nothing where it panics. -/
def withQueueLimits (queueDepth maxAgeSecs : ℕ) : Option AlertSender :=
  (AlertQueue.withQueueLimits queueDepth maxAgeSecs).map fun queue =>
    { deliveryTx := { capacity := queue.queueDepth }, queue }

/-- `update_queue_limits`, or nothing where it panics. -/
def updateQueueLimits (queueDepth maxAgeSecs : ℕ) : Option AlertSender :=
  (a.queue.updateQueueLimits queueDepth maxAgeSecs).map fun queue =>
    { a with
      queue
      deliveryTx :=
        if queueDepth = a.queue.queueDepth then a.deliveryTx else { capacity := queue.queueDepth } }

/-- `update_alerts`. -/
def updateAlerts (alerts : IndexMap String AlertConfig) : AlertSender :=
  { a with alerts := alerts.entries.map fun e => ⟨e.1, e.2⟩ }

/-- `check_status`. -/
def checkStatus (check : String) : Option CheckStatus := a.state.get? check

/-- The job for an alert. -/
def job (now : ℕ) (check : String) (status : CheckStatus) (entry : AlertEntry) : DeliveryJob where
  config := entry.config
  check := check
  status := status
  queuedAt := now
  alert := entry.name
  seq := a.enqueued

/-- The turn of one alert in `handle_check_event`, with the names of the alerts that have fired. -/
def notify (now : ℕ) (check : String) (status : CheckStatus) (acc : AlertSender × List String)
    (entry : AlertEntry) : AlertSender × List String :=
  if check ∈ entry.config.onCheck then
    match acc.1.deliveryTx.trySend (acc.1.job now check status entry) with
    | .ok q =>
      ({ acc.1 with deliveryTx := q, enqueued := acc.1.enqueued + 1 }, acc.2 ++ [entry.name])
    | .error _ => acc
  else acc

/-- `handle_check_event`. -/
def handleCheckEvent (now : ℕ) (check : String) (status : CheckStatus) :
    AlertSender × List String :=
  let prev := a.state.get? check
  if prev = some status then (a, [])
  else
    let a' := { a with state := a.state.insert check status }
    if status = .up ∧ prev = none then (a', [])
    else a.alerts.foldl (notify now check status) (a', [])

/-- The alerts that list a check. -/
def subscribed (check : String) : List AlertEntry :=
  a.alerts.filter fun entry => decide (check ∈ entry.config.onCheck)

/-- The jobs of an event that fires for some alerts. -/
def jobsFor (now : ℕ) (check : String) (status : CheckStatus) (entries : List AlertEntry) :
    List DeliveryJob :=
  entries.mapIdx fun k entry =>
    { job a now check status entry with seq := a.enqueued + k }

/-- The status is an edge of its check. -/
def Fires (check : String) (status : CheckStatus) : Prop :=
  Edges.IsEdge .up (a.checkStatus check) status

instance (check : String) (status : CheckStatus) : Decidable (a.Fires check status) :=
  inferInstanceAs (Decidable (Edges.IsEdge _ _ _))

/-- The channel has room for the jobs of an event. -/
def HasRoomFor (n : ℕ) : Prop :=
  a.deliveryTx.closed = false ∧ a.deliveryTx.items.length + n ≤ a.deliveryTx.capacity

instance (n : ℕ) : Decidable (a.HasRoomFor n) := inferInstanceAs (Decidable (_ ∧ _))

/-- The sender after the jobs have been put into the channel. -/
def enqueue (jobs : List DeliveryJob) : AlertSender :=
  { a with
    deliveryTx := { a.deliveryTx with items := a.deliveryTx.items ++ jobs }
    enqueued := a.enqueued + jobs.length }

variable {a}

/-- Jobs are put into the channel after others. -/
theorem enqueue_enqueue (jobs jobs' : List DeliveryJob) :
    (a.enqueue jobs).enqueue jobs' = a.enqueue (jobs ++ jobs') := by
  simp [enqueue, Nat.add_assoc]

/-- The first alert has its job, and those after it have theirs once that one is in the channel. -/
theorem jobsFor_cons (now : ℕ) (check : String) (status : CheckStatus) (entry : AlertEntry)
    (entries : List AlertEntry) : a.jobsFor now check status (entry :: entries) =
      a.job now check status entry ::
        (a.enqueue [a.job now check status entry]).jobsFor now check status entries := by
  unfold jobsFor
  rw [List.mapIdx_cons]
  congr 1
  apply List.mapIdx_eq_mapIdx_iff.mpr
  intro i hi
  simp [job, enqueue]
  omega

/-- With room for all of them, every alert that lists the check gets a job. -/
theorem foldl_notify {now : ℕ} {check : String} {status : CheckStatus} {entries : List AlertEntry}
    {fired : List String}
    (h : a.HasRoomFor (entries.filter fun entry => decide (check ∈ entry.config.onCheck)).length) :
    entries.foldl (notify now check status) (a, fired) =
      (a.enqueue (a.jobsFor now check status
          (entries.filter fun entry => decide (check ∈ entry.config.onCheck))),
        fired ++ (entries.filter fun entry => decide (check ∈ entry.config.onCheck)).map
          AlertEntry.name) := by
  induction entries generalizing a fired with
  | nil => simp [enqueue, jobsFor]
  | cons entry entries ih =>
    rw [List.foldl_cons]
    by_cases hc : check ∈ entry.config.onCheck
    · rw [List.filter_cons_of_pos (by simpa using hc)] at h ⊢
      obtain ⟨hopen, hroom⟩ := h
      rw [List.length_cons] at hroom
      have hsend : a.deliveryTx.trySend (a.job now check status entry) = .ok
          { a.deliveryTx with items := a.deliveryTx.items ++ [a.job now check status entry] } :=
        Channel.trySend_eq_ok_iff.mpr ⟨⟨hopen, by omega⟩, rfl⟩
      have hstep : notify now check status (a, fired) entry =
          (a.enqueue [a.job now check status entry], fired ++ [entry.name]) := by
        unfold notify
        rw [if_pos hc, hsend]
        rfl
      -- The job takes one of the places.
      have hroom' : (a.enqueue [a.job now check status entry]).HasRoomFor
          (entries.filter fun entry => decide (check ∈ entry.config.onCheck)).length := by
        refine ⟨hopen, ?_⟩
        simp only [enqueue, List.length_append, List.length_singleton]
        omega
      rw [hstep, ih hroom', jobsFor_cons]
      rw [enqueue_enqueue, List.append_assoc, List.singleton_append, List.singleton_append,
        List.map_cons]
    · rw [List.filter_cons_of_neg (by simpa using hc)] at h ⊢
      have hstep : notify now check status (a, fired) entry = (a, fired) := by
        rw [notify, if_neg hc]
      rw [hstep, ih h]

/-- The sender has put the jobs into its channel, under the next numbers, and has kept its
settings. -/
structure Enqueues (a a' : AlertSender) (jobs : List DeliveryJob) : Prop where
  deliveryTx : a'.deliveryTx = { a.deliveryTx with items := a.deliveryTx.items ++ jobs }
  enqueued : a'.enqueued = a.enqueued + jobs.length
  seq : jobs.map DeliveryJob.seq = List.range' a.enqueued jobs.length
  alerts : a'.alerts = a.alerts
  queue : a'.queue = a.queue

/-- A step that changes neither the channel nor the alerts puts nothing into the channel. -/
theorem Enqueues.nil {a' : AlertSender} (htx : a'.deliveryTx = a.deliveryTx)
    (henq : a'.enqueued = a.enqueued) (halerts : a'.alerts = a.alerts)
    (hqueue : a'.queue = a.queue) : Enqueues a a' [] where
  deliveryTx := by rw [htx, List.append_nil]
  enqueued := henq
  seq := rfl
  alerts := halerts
  queue := hqueue

/-- Jobs are put into the channel after others. -/
theorem Enqueues.trans {a' a'' : AlertSender} {jobs jobs' : List DeliveryJob}
    (h : Enqueues a a' jobs) (h' : Enqueues a' a'' jobs') : Enqueues a a'' (jobs ++ jobs') where
  deliveryTx := by rw [h'.deliveryTx, h.deliveryTx, List.append_assoc]
  enqueued := by rw [h'.enqueued, h.enqueued, List.length_append]; omega
  seq := by
    rw [List.map_append, h.seq, h'.seq, h.enqueued, List.range'_append_1, List.length_append]
  alerts := h'.alerts.trans h.alerts
  queue := h'.queue.trans h.queue

/-- The turn of one alert puts one job into the channel at most. -/
theorem exists_enqueues_notify (now : ℕ) (check : String) (status : CheckStatus)
    (fired : List String) (entry : AlertEntry) :
    ∃ jobs, Enqueues a (notify now check status (a, fired) entry).1 jobs ∧
      (notify now check status (a, fired) entry).1.state = a.state := by
  unfold notify
  split_ifs with hc
  · cases hsend : a.deliveryTx.trySend (a.job now check status entry) with
    | error e => exact ⟨[], .nil rfl rfl rfl rfl, rfl⟩
    | ok q =>
      obtain ⟨-, rfl⟩ := Channel.trySend_eq_ok_iff.mp hsend
      exact ⟨[a.job now check status entry], ⟨rfl, rfl, rfl, rfl, rfl⟩, rfl⟩
  · exact ⟨[], .nil rfl rfl rfl rfl, rfl⟩

/-- The turns of the alerts put some jobs into the channel and change nothing else. -/
theorem exists_enqueues_foldl (now : ℕ) (check : String) (status : CheckStatus)
    (entries : List AlertEntry) (a : AlertSender) (fired : List String) :
    ∃ jobs, Enqueues a (entries.foldl (notify now check status) (a, fired)).1 jobs ∧
      (entries.foldl (notify now check status) (a, fired)).1.state = a.state := by
  induction entries generalizing a fired with
  | nil => exact ⟨[], .nil rfl rfl rfl rfl, rfl⟩
  | cons entry entries ih =>
    rw [List.foldl_cons]
    obtain ⟨jobs, h, hstate⟩ := exists_enqueues_notify (a := a) now check status fired entry
    generalize notify now check status (a, fired) entry = acc at h hstate
    obtain ⟨a', fired'⟩ := acc
    obtain ⟨jobs', h', hstate'⟩ := ih a' fired'
    exact ⟨jobs ++ jobs', h.trans h', hstate'.trans hstate⟩

/-- An event puts some jobs into the channel, and makes its status the last one of its check. -/
theorem exists_enqueues_handleCheckEvent (a : AlertSender) (now : ℕ) (check : String)
    (status : CheckStatus) :
    ∃ jobs, Enqueues a (a.handleCheckEvent now check status).1 jobs ∧
      ∀ c, (a.handleCheckEvent now check status).1.checkStatus c =
        if c = check then some status else a.checkStatus c := by
  unfold handleCheckEvent
  -- The turns of the alerts leave the last statuses alone.
  have hinsert : ∀ a' : AlertSender, a'.state = a.state.insert check status →
      ∀ c, a'.checkStatus c = if c = check then some status else a.checkStatus c := by
    intro a' h c
    rw [checkStatus, h, IndexMap.get?_insert]
    rfl
  by_cases hprev : a.state.get? check = some status
  · refine ⟨[], ?_, fun c => ?_⟩
    · simp only [hprev, if_true]
      exact .nil rfl rfl rfl rfl
    · simp only [hprev, if_true]
      split_ifs with hc
      · rw [hc]
        exact hprev
      · rfl
  · simp only [hprev, if_false]
    split_ifs with hup
    · exact ⟨[], .nil rfl rfl rfl rfl, hinsert _ rfl⟩
    · obtain ⟨jobs, h, hstate⟩ := exists_enqueues_foldl now check status a.alerts
        { a with state := a.state.insert check status } []
      exact ⟨jobs, ⟨h.deliveryTx, h.enqueued, h.seq, h.alerts, h.queue⟩, hinsert _ hstate⟩

/-- What an event makes of the sender, if the channel has room for the jobs that it fires: the
status is the check's last one, and there is one job for each alert that lists the check if the
event is an edge, and none otherwise. -/
theorem handleCheckEvent_eq {now : ℕ} {check : String} {status : CheckStatus}
    (h : a.Fires check status → a.HasRoomFor (a.subscribed check).length) :
    (a.handleCheckEvent now check status).1.deliveryTx.items = a.deliveryTx.items ++
        (if a.Fires check status then a.jobsFor now check status (a.subscribed check) else []) ∧
      (a.handleCheckEvent now check status).2 =
        if a.Fires check status then (a.subscribed check).map AlertEntry.name else [] := by
  unfold handleCheckEvent
  by_cases hprev : a.state.get? check = some status
  · have hf : ¬a.Fires check status := fun hf => hf.1 hprev
    simp [hprev, hf]
  · simp only [hprev, if_false]
    by_cases hup : status = .up ∧ a.state.get? check = none
    · have hf : ¬a.Fires check status := fun hf => hf.2 hup.2 hup.1
      rw [if_pos hup, if_neg hf, if_neg hf]
      exact ⟨(List.append_nil _).symm, rfl⟩
    · have hf : a.Fires check status := ⟨hprev, fun hn hs => hup ⟨hs, hn⟩⟩
      have hfold := @foldl_notify { a with state := a.state.insert check status } now check
        status _ [] (h hf)
      rw [if_neg hup, if_pos hf, if_pos hf, hfold]
      exact ⟨rfl, rfl⟩

end AlertSender

end Vigil
