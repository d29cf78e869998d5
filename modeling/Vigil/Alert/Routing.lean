import Vigil.Alert.Delivery

/-!
# Which events send which alerts

The routing law of `handle_check_event` over whole runs: any events of any checks, with reloads of
the alerts, changes of the queue, and the work of the delivery in between. As long as the channel
has room, an event sends one job for each alert that lists its check if it is an edge of its check,
and none otherwise; what is an edge depends on the earlier events of the check alone.
-/

namespace Vigil

open Runs

/-- The statuses of a check's events, in order. -/
def statuses (check : String) (events : List CheckEvent) : List CheckStatus :=
  (events.filter fun e => decide (e.check = check)).map CheckEvent.status

/-- One more event adds its status to those of its check, and nothing to those of the others. -/
theorem statuses_append_singleton (check : String) (events : List CheckEvent) (e : CheckEvent) :
    statuses check (events ++ [e]) =
      statuses check events ++ if e.check = check then [e.status] else [] := by
  unfold statuses
  rw [List.filter_append, List.map_append]
  by_cases h : e.check = check <;> simp [h]

/-- The job is the alert's for the event. -/
def DeliveryJob.IsFor (e : CheckEvent) (entry : AlertEntry) (job : DeliveryJob) : Prop :=
  job.alert = entry.name ∧ job.config = entry.config ∧ job.check = e.check ∧ job.status = e.status

/-- The event has sent what it should after the events before it: one job for each alert that listed
its check if it is an edge, and nothing otherwise. -/
def CheckEvent.Routed (before : List CheckEvent) (e : CheckEvent) : Prop :=
  List.Forall₂ (DeliveryJob.IsFor e)
    (if Edges.IsEdge .up (statuses e.check before).getLast? e.status then e.subscribed else [])
    e.jobs

/-- The alert listed the check at each of the check's events. -/
def Subscribed (alert check : String) (events : List CheckEvent) : Prop :=
  ∀ e ∈ events, e.check = check → ∃ entry ∈ e.subscribed, entry.name = alert

/-- The statuses that an alert was sent about a check. -/
def sentStatuses (alert check : String) (events : List CheckEvent) : List CheckStatus :=
  ((events.flatMap CheckEvent.jobs).filter fun job =>
    decide (job.alert = alert ∧ job.check = check)).map DeliveryJob.status

namespace Alerting

/-- The channel has room for the jobs of an event that fires. -/
def Roomy (s : Alerting) : AlertLabel → Prop
  | .event check status =>
    s.sender.Fires check status → s.sender.HasRoomFor (s.sender.subscribed check).length
  | _ => True

instance (s : Alerting) (l : AlertLabel) : Decidable (s.Roomy l) := by
  cases l <;> unfold Roomy <;> infer_instance

end Alerting

/-! ## What one event sends -/

/-- The jobs that are made for the alerts are theirs. -/
theorem AlertSender.forall₂_jobsFor {a : AlertSender} {now : ℕ} {e : CheckEvent}
    {entries : List AlertEntry} :
    List.Forall₂ (DeliveryJob.IsFor e) entries (a.jobsFor now e.check e.status entries) := by
  induction entries generalizing a with
  | nil => exact .nil
  | cons entry entries ih =>
    rw [jobsFor_cons]
    exact .cons ⟨rfl, rfl, rfl, rfl⟩ ih

/-- The jobs about a check that an alert gets from an event, by the alerts that get one. -/
theorem filter_jobs_eq {e : CheckEvent} {entries : List AlertEntry} {jobs : List DeliveryJob}
    (h : List.Forall₂ (DeliveryJob.IsFor e) entries jobs) (alert check : String) :
    (jobs.filter fun job => decide (job.alert = alert ∧ job.check = check)).map DeliveryJob.status =
      (entries.filter fun entry => decide (entry.name = alert ∧ e.check = check)).map
        fun _ => e.status := by
  induction h with
  | nil => rfl
  | @cons entry job entries jobs hfor _ ih =>
    obtain ⟨halert, -, hcheck, hstatus⟩ := hfor
    rw [List.filter_cons, List.filter_cons, halert, hcheck]
    split_ifs
    · rw [List.map_cons, List.map_cons, ih, hstatus]
    · exact ih

/-- Among alerts of different names, one that is there is there once. -/
theorem map_filter_name_eq {entries : List AlertEntry} {alert : String}
    (hnodup : (entries.map AlertEntry.name).Nodup) (hmem : ∃ entry ∈ entries, entry.name = alert)
    (status : CheckStatus) :
    (entries.filter fun entry => decide (entry.name = alert)).map (fun _ => status) = [status] := by
  have hcount : (entries.map AlertEntry.name).count alert = 1 :=
    List.count_eq_one_of_mem hnodup (List.mem_map.mpr hmem)
  have hlen : (entries.filter fun entry => decide (entry.name = alert)).length = 1 := by
    rw [← hcount, List.count, List.countP_map, List.countP_eq_length_filter]
    congr 2
  rw [List.map_const', hlen]
  rfl

/-- One more event sends an alert that lists the check its status if that is an edge of the check's
statuses. -/
theorem sentStatuses_append_singleton {events : List CheckEvent} {e : CheckEvent}
    {alert check : String} (hrouted : e.Routed events)
    (hnodup : (e.subscribed.map AlertEntry.name).Nodup)
    (hsub : e.check = check → ∃ entry ∈ e.subscribed, entry.name = alert) :
    sentStatuses alert check (events ++ [e]) = sentStatuses alert check events ++
      if e.check = check ∧ Edges.IsEdge .up (statuses check events).getLast? e.status then
        [e.status] else [] := by
  unfold sentStatuses
  rw [List.flatMap_append, List.flatMap_singleton, List.filter_append, List.map_append,
    filter_jobs_eq hrouted]
  congr 1
  by_cases hcheck : e.check = check
  · subst hcheck
    by_cases hedge : Edges.IsEdge .up (statuses e.check events).getLast? e.status
    · rw [if_pos hedge, if_pos ⟨rfl, hedge⟩]
      simp only [and_true]
      exact map_filter_name_eq hnodup (hsub rfl) e.status
    · rw [if_neg hedge, if_neg fun h => hedge h.2]
      rfl
  · rw [if_neg fun h : e.check = check ∧ _ => hcheck h.1]
    simp [hcheck]

/-- Every event has sent what it should, to alerts of different names. -/
def AllRouted (events : List CheckEvent) : Prop :=
  ∀ before e after, events = before ++ e :: after →
    e.Routed before ∧ (e.subscribed.map AlertEntry.name).Nodup ∧
      ∀ entry ∈ e.subscribed, e.check ∈ entry.config.onCheck

/-- One more event that has sent what it should. -/
theorem AllRouted.append_singleton {events : List CheckEvent} {e : CheckEvent}
    (h : AllRouted events) (he : e.Routed events)
    (hnodup : (e.subscribed.map AlertEntry.name).Nodup)
    (hsub : ∀ entry ∈ e.subscribed, e.check ∈ entry.config.onCheck) :
    AllRouted (events ++ [e]) := by
  intro before e' after heq
  rcases List.eq_nil_or_concat after with rfl | ⟨after', last, rfl⟩
  · obtain ⟨rfl, hlast⟩ := List.append_inj' heq rfl
    obtain rfl := List.singleton_inj.mp hlast
    exact ⟨he, hnodup, hsub⟩
  · rw [List.concat_eq_append, ← List.cons_append, ← List.append_assoc] at heq
    exact h before e' after' (List.append_inj' heq rfl).1

/-- What an alert has been sent about a check whose events it has always been listed for: the edges
of the check. -/
theorem sentStatuses_eq {events : List CheckEvent} {alert check : String}
    (h : AllRouted events) (hsub : Subscribed alert check events) :
    sentStatuses alert check events = Edges.edges .up (statuses check events) := by
  -- By induction on the events, the last one first.
  induction events using List.reverseRecOn with
  | nil => rfl
  | append_singleton events e ih =>
    have hprefix : AllRouted events := by
      rintro before e' after rfl
      exact h before e' (after ++ [e]) (by simp)
    obtain ⟨hrouted, hnodup, -⟩ := h events e [] rfl
    have hsub' : Subscribed alert check events := fun e' he' =>
      hsub e' (List.mem_append_left _ he')
    rw [sentStatuses_append_singleton hrouted hnodup (hsub e (by simp)), ih hprefix hsub',
      statuses_append_singleton]
    by_cases hcheck : e.check = check
    · rw [if_pos hcheck, Edges.edges_append_singleton]
      simp [hcheck]
    · rw [if_neg hcheck, if_neg fun hc => hcheck hc.1, List.append_nil, List.append_nil]

namespace Alerting

/-! ## The runs -/

/-- What holds throughout a run in which the channel has room. -/
structure Lawful (s : Alerting) : Prop where
  /-- The alerts have different names. -/
  nodup : (s.sender.alerts.map AlertEntry.name).Nodup
  /-- The sender remembers the last status of each check. -/
  memory : ∀ check, s.sender.checkStatus check = (statuses check s.events).getLast?
  routed : AllRouted s.events

variable {env : String → Option String} {s s' : Alerting}

/-- Steps that change neither the alerts, nor the memory, nor the events. -/
theorem Lawful.of_eq (h : s.Lawful) (halerts : s'.sender.alerts = s.sender.alerts)
    (hstate : s'.sender.state = s.sender.state) (hevents : s'.events = s.events) : s'.Lawful where
  nodup := halerts ▸ h.nodup
  memory check := by rw [AlertSender.checkStatus, hstate, hevents]; exact h.memory check
  routed := hevents ▸ h.routed

/-- An event for which there is room. -/
theorem Lawful.event (h : s.Lawful) {check : String} {status : CheckStatus}
    (hroom : s.Roomy (.event check status)) (hs : step env s (.event check status) = some s') :
    s'.Lawful := by
  obtain ⟨jobs, henq, hmemory⟩ :=
    s.sender.exists_enqueues_handleCheckEvent s.now check status
  have hitems : (s.sender.handleCheckEvent s.now check status).1.deliveryTx.items = _ :=
    (AlertSender.handleCheckEvent_eq hroom).1
  obtain rfl := Option.some.inj hs
  have hedge : s.sender.Fires check status ↔
      Edges.IsEdge .up (statuses check s.events).getLast? status := by
    rw [AlertSender.Fires, h.memory]
  refine ⟨?_, fun c => ?_, h.routed.append_singleton ?_ ?_ ?_⟩
  · exact henq.alerts ▸ h.nodup
  · rw [hmemory c, statuses_append_singleton, h.memory c]
    split_ifs with hc hc' hc'
    · simp
    · exact absurd hc.symm hc'
    · exact absurd hc'.symm hc
    · simp
  · unfold CheckEvent.Routed
    simp only [hitems, List.drop_left, if_congr hedge rfl rfl]
    split_ifs with hfires
    · exact AlertSender.forall₂_jobsFor
    · exact .nil
  · exact (List.Sublist.map _ List.filter_sublist).nodup h.nodup
  · intro entry hentry
    exact of_decide_eq_true (List.mem_filter.mp hentry).2

/-- Every step of a run in which the channel has room keeps the law. -/
theorem Lawful.step {l : AlertLabel} (h : s.Lawful) (hroom : s.Roomy l)
    (hs : step env s l = some s') : s'.Lawful := by
  cases l with
  | event check status => exact h.event hroom hs
  | updateAlerts alerts =>
    obtain rfl := Option.some.inj hs
    refine ⟨?_, h.memory, h.routed⟩
    simp only [AlertSender.updateAlerts, List.map_map]
    exact alerts.nodup
  | updateQueueLimits queueDepth maxAgeSecs =>
    obtain ⟨sender, hsender, hs⟩ := Option.bind_eq_some_iff.mp hs
    obtain ⟨q, -, rfl⟩ := Option.map_eq_some_iff.mp hsender
    obtain rfl := Option.some.inj hs
    exact h.of_eq rfl rfl rfl
  | recv =>
    obtain ⟨⟨job, q⟩, -, hs⟩ := Option.bind_eq_some_iff.mp hs
    obtain rfl := Option.some.inj hs
    exact h.of_eq rfl rfl rfl
  | recvRetired k =>
    obtain ⟨r, -, hs⟩ := Option.bind_eq_some_iff.mp hs
    obtain ⟨⟨job, q⟩, -, hs⟩ := Option.bind_eq_some_iff.mp hs
    obtain rfl := Option.some.inj hs
    exact h.of_eq rfl rfl rfl
  | answer i r =>
    obtain ⟨t, -, hs⟩ := Option.bind_eq_some_iff.mp hs
    obtain ⟨t', -, hs⟩ := Option.bind_eq_some_iff.mp hs
    obtain rfl := Option.some.inj hs
    exact h.of_eq rfl rfl rfl
  | wake i =>
    obtain ⟨t, -, hs⟩ := Option.bind_eq_some_iff.mp hs
    obtain ⟨t', -, hs⟩ := Option.bind_eq_some_iff.mp hs
    obtain rfl := Option.some.inj hs
    exact h.of_eq rfl rfl rfl
  | tick ms =>
    obtain rfl := Option.some.inj hs
    exact h.of_eq rfl rfl rfl

/-- A sender with room for four jobs. -/
def sampleSender : AlertSender where
  deliveryTx := { capacity := 4 }
  queue := ⟨4, 60⟩

/-- An alert is loaded, its check goes down, the queue is replaced, and the check comes up twice. -/
def sampleLabels : List AlertLabel :=
  [.updateAlerts ((∅ : IndexMap String AlertConfig).insert "ops"
      { url := "http://localhost", onCheck := ["web"] }),
    .event "web" .up, .event "web" .down, .updateQueueLimits 8 60, .event "web" .up,
    .event "web" .up]

/-- The state after these steps. -/
def sampleAlerting : Alerting :=
  (runIf (step fun _ => none) Roomy { sender := sampleSender } sampleLabels).getD
    { sender := sampleSender }

example : sentStatuses "ops" "web" sampleAlerting.events = [.down, .up] := by decide

end Alerting

end Vigil
