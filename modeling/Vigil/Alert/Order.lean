import Vigil.Alert.Routing

/-!
# The order of deliveries

Each job is handed to a task of its own, so that alerts do not wait for one another, and nothing
makes the jobs about one check wait for one another either. A job that is retried may be delivered
after a later one (`not_inOrder_overtaken`). What the design gives is `inOrder_of_orderly`: in a run
in which no job is handed to its task while an older one of the same alert and check waits or is
being sent, the deliveries are in the order of the jobs.
-/

namespace Vigil

open Runs

/-- The jobs are of one alert and about one check. -/
def DeliveryJob.SameKey (j k : DeliveryJob) : Prop := j.alert = k.alert ∧ j.check = k.check

instance (j k : DeliveryJob) : Decidable (j.SameKey k) := inferInstanceAs (Decidable (_ ∧ _))

/-- A job comes before another one, if they are of one alert and about one check. -/
def DeliveryJob.Before (j k : DeliveryJob) : Prop := j.SameKey k → j.seq < k.seq

instance (j k : DeliveryJob) : Decidable (j.Before k) := inferInstanceAs (Decidable (_ → _))

/-- The statuses that an alert has delivered about a check, in the order of their delivery. -/
def deliveredStatuses (alert check : String) (delivered : List DeliveryJob) : List CheckStatus :=
  (delivered.filter fun job => decide (job.alert = alert ∧ job.check = check)).map
    DeliveryJob.status

namespace DeliveryTask

variable {t t' : DeliveryTask} {now : ℕ}

/-- An attempt that comes to its end is that of a task under way, and does not change its job. -/
theorem running_of_answer {r : Answer} (h : t.answer now r = some t') :
    t.Running ∧ t'.job = t.job := by
  unfold answer at h
  split at h
  · next hphase =>
    refine ⟨by simp [Running, hphase], ?_⟩
    split_ifs at h <;> cases h <;> rfl
  · cases h

/-- A task that wakes up is under way, and keeps its job. -/
theorem running_of_wake (h : t.wake now = some t') : t.Running ∧ t'.job = t.job := by
  unfold wake at h
  split at h
  · next wakeAt hphase =>
    refine ⟨by simp [Running, hphase], ?_⟩
    split_ifs at h
    cases h
    rfl
  · cases h

end DeliveryTask

namespace Alerting

/-- The deliveries for each alert and check are in the order of the jobs. -/
def InOrder (s : Alerting) : Prop := s.delivered.Pairwise DeliveryJob.Before

instance (s : Alerting) : Decidable s.InOrder :=
  inferInstanceAs (Decidable (List.Pairwise _ _))

/-- Every job has been delivered. -/
def AllDelivered (s : Alerting) : Prop := ∀ j ∈ s.sent, j ∈ s.delivered

instance (s : Alerting) : Decidable s.AllDelivered :=
  inferInstanceAs (Decidable (∀ j ∈ s.sent, j ∈ s.delivered))

/-- No older job of the same alert and check waits, and none is being sent. -/
def Clear (s : Alerting) (job : DeliveryJob) : Prop :=
  (∀ j ∈ s.queued, j.SameKey job → job.seq ≤ j.seq) ∧
    ∀ t ∈ s.tasks, t.job.SameKey job → ¬t.Running

instance (s : Alerting) (job : DeliveryJob) : Decidable (s.Clear job) :=
  inferInstanceAs (Decidable (_ ∧ _))

/-- A worker takes a job only when it is clear. -/
def Orderly (s : Alerting) : AlertLabel → Prop
  | .recv => ∀ r ∈ s.sender.deliveryTx.recv, s.Clear r.1
  | .recvRetired k => ∀ r ∈ (s.retired[k]?).bind Channel.recv, s.Clear r.1
  | _ => True

instance (s : Alerting) (l : AlertLabel) : Decidable (s.Orderly l) :=
  match l with
  | .recv | .recvRetired _ => by unfold Orderly; infer_instance
  | .event _ _ | .updateAlerts _ | .updateQueueLimits _ _ | .answer _ _ | .wake _ | .tick _ =>
    isTrue trivial

/-- A task comes before another one, and is done, if they are of one alert and about one check. -/
def TaskBefore (t u : DeliveryTask) : Prop :=
  t.job.SameKey u.job → t.job.seq < u.job.seq ∧ ¬t.Running

/-- What holds throughout a run in which every job is clear when it is taken. -/
structure Ordered (s : Alerting) : Prop where
  numbered : s.sent.map DeliveryJob.seq = List.range s.sender.enqueued
  queued_sent : s.queued ⊆ s.sent
  tasks_sent : s.tasks.map DeliveryTask.job ⊆ s.sent
  /-- The channels are in order, and so are the jobs in each. -/
  fifo : (s.queued.map DeliveryJob.seq).Pairwise (· < ·)
  /-- What has been taken is older than what waits. -/
  taken : ∀ t ∈ s.tasks, ∀ j ∈ s.queued, t.job.Before j
  tasks : s.tasks.Pairwise TaskBefore
  delivered_done : ∀ j ∈ s.delivered, ∃ t ∈ s.tasks, t.job = j ∧ ¬t.Running
  delivered : s.InOrder

variable {env : String → Option String} {s s' : Alerting}

namespace Ordered

/-- The numbers of the jobs so far are used up. -/
theorem seq_lt (h : s.Ordered) {j : DeliveryJob} (hj : j ∈ s.sent) : j.seq < s.sender.enqueued := by
  have hmem : j.seq ∈ List.range s.sender.enqueued := h.numbered ▸ List.mem_map_of_mem hj
  exact List.mem_range.mp hmem

/-- Steps that leave the jobs, the tasks, and the deliveries alone. -/
theorem of_eq (h : s.Ordered) (hsent : s'.sent = s.sent)
    (henq : s'.sender.enqueued = s.sender.enqueued) (hqueued : s'.queued = s.queued)
    (htasks : s'.tasks = s.tasks) (hdelivered : s'.delivered = s.delivered) : s'.Ordered where
  numbered := by rw [hsent, henq]; exact h.numbered
  queued_sent := by rw [hqueued, hsent]; exact h.queued_sent
  tasks_sent := by rw [htasks, hsent]; exact h.tasks_sent
  fifo := by rw [hqueued]; exact h.fifo
  taken := by rw [htasks, hqueued]; exact h.taken
  tasks := by rw [htasks]; exact h.tasks
  delivered_done := by rw [hdelivered, htasks]; exact h.delivered_done
  delivered := by rw [InOrder, hdelivered]; exact h.delivered

/-- More jobs with the next numbers are put into the last channel. -/
theorem of_append (h : s.Ordered) {jobs : List DeliveryJob} (hsent : s'.sent = s.sent ++ jobs)
    (henq : s'.sender.enqueued = s.sender.enqueued + jobs.length)
    (hseq : jobs.map DeliveryJob.seq = List.range' s.sender.enqueued jobs.length)
    (hqueued : s'.queued = s.queued ++ jobs) (htasks : s'.tasks = s.tasks)
    (hdelivered : s'.delivered = s.delivered) : s'.Ordered := by
  have hnew : ∀ j ∈ jobs, s.sender.enqueued ≤ j.seq := by
    intro j hj
    have hmem : j.seq ∈ List.range' s.sender.enqueued jobs.length :=
      hseq ▸ List.mem_map_of_mem hj
    exact (List.mem_range'_1.mp hmem).1
  constructor
  · rw [hsent, henq, List.map_append, h.numbered, hseq, List.range_eq_range', List.range_eq_range']
    have := List.range'_append_1 (s := 0) (m := s.sender.enqueued) (n := jobs.length)
    rwa [Nat.zero_add] at this
  · rw [hqueued, hsent]
    exact List.append_subset.mpr ⟨List.Subset.trans h.queued_sent (List.subset_append_left _ _),
      List.subset_append_right _ _⟩
  · rw [htasks, hsent]
    exact List.Subset.trans h.tasks_sent (List.subset_append_left _ _)
  · rw [hqueued, List.map_append, List.pairwise_append]
    refine ⟨h.fifo, hseq ▸ List.pairwise_lt_range', fun n hn m hm => ?_⟩
    obtain ⟨j, hj, rfl⟩ := List.mem_map.mp hn
    obtain ⟨k, hk, rfl⟩ := List.mem_map.mp hm
    exact (h.seq_lt (h.queued_sent hj)).trans_le (hnew k hk)
  · rw [htasks, hqueued]
    intro t ht j hj hkey
    rcases List.mem_append.mp hj with hj | hj
    · exact h.taken t ht j hj hkey
    · exact (h.seq_lt (h.tasks_sent (List.mem_map_of_mem ht))).trans_le (hnew j hj)
  · rw [htasks]
    exact h.tasks
  · rw [hdelivered, htasks]
    exact h.delivered_done
  · rw [InOrder, hdelivered]
    exact h.delivered

/-- An event puts the next jobs into the channel. -/
theorem event (h : s.Ordered) {check : String} {status : CheckStatus}
    (hs : step env s (.event check status) = some s') : s'.Ordered := by
  obtain ⟨jobs, henq, -⟩ := s.sender.exists_enqueues_handleCheckEvent s.now check status
  obtain rfl := Option.some.inj hs
  refine h.of_append ?_ henq.enqueued henq.seq ?_ rfl rfl
  · simp [sent, henq.deliveryTx]
  · simp [queued, henq.deliveryTx]

/-- A job is discarded or handed to a task. -/
theorem dispatch_eq (s : Alerting) (env : String → Option String) (job : DeliveryJob) :
    s.dispatch env job = s.tasks ∨ s.dispatch env job = s.tasks ++ [.start env job] := by
  unfold dispatch
  split_ifs
  · exact .inl rfl
  · exact .inr rfl

/-- What waits after a clear job has been taken is younger, if it is of the same alert and check. -/
theorem before_of_clear {queue : List DeliveryJob} {job : DeliveryJob}
    {before after : List DeliveryJob} (hclear : ∀ j ∈ queue, j.SameKey job → job.seq ≤ j.seq)
    (hqueue : queue = before ++ job :: after)
    (hfifo : (queue.map DeliveryJob.seq).Pairwise (· < ·)) :
    ∀ j ∈ before ++ after, job.Before j := by
  subst hqueue
  rw [List.map_append, List.map_cons, List.pairwise_append, List.pairwise_cons] at hfifo
  intro j hj hkey
  rcases List.mem_append.mp hj with hj | hj
  · -- An older job would wait before it.
    have hle := hclear j (List.mem_append_left _ hj) ⟨hkey.1.symm, hkey.2.symm⟩
    exact absurd (hfifo.2.2 _ (List.mem_map_of_mem hj) _ List.mem_cons_self) (by omega)
  · exact hfifo.2.1.1 _ (List.mem_map_of_mem hj)

/-- A worker takes a job that is clear, and discards it or hands it to a task. -/
theorem of_take (h : s.Ordered) {job : DeliveryJob} (before after : List DeliveryJob)
    (hclear : s.Clear job) (hqueued : s.queued = before ++ job :: after)
    (hqueued' : s'.queued = before ++ after) (hsent : s'.sent = s.sent)
    (henq : s'.sender.enqueued = s.sender.enqueued) (htasks : s'.tasks = s.dispatch env job)
    (hdelivered : s'.delivered = s.delivered) : s'.Ordered := by
  have hsub : s'.queued ⊆ s.queued := by
    rw [hqueued, hqueued']
    exact List.append_subset.mpr ⟨List.subset_append_left _ _,
      fun j hj => List.mem_append_right _ (List.mem_cons_of_mem _ hj)⟩
  have hjob : job ∈ s.queued := by
    rw [hqueued]
    exact List.mem_append_right _ List.mem_cons_self
  have hyounger : ∀ j ∈ s'.queued, job.Before j := by
    rw [hqueued']
    exact before_of_clear hclear.1 hqueued h.fifo
  have hdispatch := dispatch_eq s env job
  have hkept : ∀ t ∈ s.tasks, ∀ j ∈ s'.queued, t.job.Before j :=
    fun t ht j hj => h.taken t ht j (hsub hj)
  have hdone : ∀ j ∈ s.delivered, ∃ t ∈ s'.tasks, t.job = j ∧ ¬t.Running := by
    intro j hj
    obtain ⟨t, ht, htj⟩ := h.delivered_done j hj
    refine ⟨t, ?_, htj⟩
    rw [htasks]
    rcases hdispatch with heq | heq
    · exact heq ▸ ht
    · exact heq ▸ List.mem_append_left _ ht
  constructor
  · rw [hsent, henq]
    exact h.numbered
  · rw [hsent]
    exact List.Subset.trans hsub h.queued_sent
  · rw [htasks, hsent]
    rcases hdispatch with heq | heq <;> rw [heq]
    · exact h.tasks_sent
    · rw [List.map_append]
      exact List.append_subset.mpr ⟨h.tasks_sent,
        fun j hj => List.mem_singleton.mp hj ▸ h.queued_sent hjob⟩
  · rw [hqueued', List.map_append]
    refine (hqueued ▸ h.fifo).sublist ?_
    rw [List.map_append, List.map_cons]
    exact List.Sublist.append_left (List.sublist_cons_self _ _) _
  · rw [htasks]
    rcases hdispatch with heq | heq <;> rw [heq]
    · exact hkept
    · intro t ht
      rcases List.mem_append.mp ht with ht | ht
      · exact hkept t ht
      · obtain rfl := List.mem_singleton.mp ht
        exact hyounger
  · rw [htasks]
    rcases hdispatch with heq | heq <;> rw [heq]
    · exact h.tasks
    · rw [List.pairwise_append]
      refine ⟨h.tasks, List.pairwise_singleton _ _, fun t ht u hu hkey => ?_⟩
      obtain rfl := List.mem_singleton.mp hu
      exact ⟨h.taken t ht job hjob hkey, hclear.2 t ht hkey⟩
  · rw [hdelivered]
    exact hdone
  · rw [InOrder, hdelivered]
    exact h.delivered

/-- A task that is under way goes on with its job. -/
theorem tasks_set (h : s.Ordered) {i : ℕ} {t t' : DeliveryTask} (ht : s.tasks[i]? = some t)
    (hrun : t.Running) (hjob : t'.job = t.job) : (s.tasks.set i t').Pairwise TaskBefore := by
  have hpair := List.pairwise_iff_getElem.mp h.tasks
  obtain ⟨hi, hget⟩ := List.getElem?_eq_some_iff.mp ht
  refine List.pairwise_iff_getElem.mpr fun m n hm hn hmn => ?_
  rw [List.length_set] at hm hn
  have hold := hpair m n hm hn hmn
  rw [List.getElem_set, List.getElem_set]
  split_ifs with him hin hin
  · omega
  · -- No later task is of the same alert and check, while this one is under way.
    subst him
    rw [hget] at hold
    intro hkey
    exact absurd hrun (hold (hjob ▸ hkey)).2
  · subst hin
    rw [hget] at hold
    intro hkey
    rw [hjob] at hkey ⊢
    exact hold hkey
  · exact hold

/-- What has been delivered of its alert and check comes before the job of a task under way: that
task is the last of them. -/
theorem before_of_running (h : s.Ordered) {i : ℕ} {t : DeliveryTask} (ht : s.tasks[i]? = some t)
    (hrun : t.Running) {j : DeliveryJob} (hj : j ∈ s.delivered) : j.Before t.job := by
  intro hkey
  obtain ⟨hi, hget⟩ := List.getElem?_eq_some_iff.mp ht
  obtain ⟨u, hu, rfl, hnot⟩ := h.delivered_done j hj
  obtain ⟨m, hm, rfl⟩ := List.mem_iff_getElem.mp hu
  have hpair := List.pairwise_iff_getElem.mp h.tasks
  rcases Nat.lt_trichotomy m i with hlt | rfl | hgt
  · have hold := hpair m i hm hi hlt
    rw [hget] at hold
    exact (hold hkey).1
  · exact absurd (hget ▸ hrun) hnot
  · have hold := hpair i m hi hm hgt
    rw [hget] at hold
    exact absurd hrun (hold ⟨hkey.1.symm, hkey.2.symm⟩).2

/-- A task that is under way goes on, and may deliver its job. -/
theorem of_set (h : s.Ordered) {i : ℕ} {t t' : DeliveryTask} (ht : s.tasks[i]? = some t)
    (hrun : t.Running) (hjob : t'.job = t.job) (hsent : s'.sent = s.sent)
    (henq : s'.sender.enqueued = s.sender.enqueued) (hqueued : s'.queued = s.queued)
    (htasks : s'.tasks = s.tasks.set i t')
    (hdelivered : s'.delivered = s.delivered ∨
      s'.delivered = s.delivered ++ [t.job] ∧ ¬t'.Running) : s'.Ordered := by
  obtain ⟨hi, hget⟩ := List.getElem?_eq_some_iff.mp ht
  have hmem : t ∈ s.tasks := List.mem_of_getElem? ht
  have hjobs : ∀ u ∈ s.tasks.set i t', ∃ v ∈ s.tasks, v.job = u.job := by
    intro u hu
    rcases List.mem_or_eq_of_mem_set hu with hu | rfl
    · exact ⟨u, hu, rfl⟩
    · exact ⟨t, hmem, hjob.symm⟩
  -- What is done is another task, and stays as it is.
  have hdone : ∀ u ∈ s.tasks, ¬u.Running → u ∈ s.tasks.set i t' := by
    intro u hu hnot
    obtain ⟨m, hm, rfl⟩ := List.mem_iff_getElem.mp hu
    have hne : i ≠ m := by
      rintro rfl
      exact hnot (hget ▸ hrun)
    have hset := List.getElem_set_ne (a := t') hne (by rwa [List.length_set])
    exact hset ▸ List.getElem_mem _
  have hkept : ∀ j ∈ s.delivered, ∃ u ∈ s.tasks.set i t', u.job = j ∧ ¬u.Running := by
    intro j hj
    obtain ⟨u, hu, huj, hnot⟩ := h.delivered_done j hj
    exact ⟨u, hdone u hu hnot, huj, hnot⟩
  constructor
  · rw [hsent, henq]
    exact h.numbered
  · rw [hqueued, hsent]
    exact h.queued_sent
  · rw [htasks, hsent]
    intro j hj
    obtain ⟨u, hu, rfl⟩ := List.mem_map.mp hj
    obtain ⟨v, hv, hvu⟩ := hjobs u hu
    exact hvu ▸ h.tasks_sent (List.mem_map_of_mem hv)
  · rw [hqueued]
    exact h.fifo
  · rw [htasks, hqueued]
    intro u hu j hj
    obtain ⟨v, hv, hvu⟩ := hjobs u hu
    exact hvu ▸ h.taken v hv j hj
  · rw [htasks]
    exact h.tasks_set ht hrun hjob
  · rw [htasks]
    rcases hdelivered with heq | ⟨heq, hnot⟩ <;> rw [heq]
    · exact hkept
    · intro j hj
      rcases List.mem_append.mp hj with hj | hj
      · exact hkept j hj
      · obtain rfl := List.mem_singleton.mp hj
        exact ⟨t', List.mem_set hi _, hjob, hnot⟩
  · rcases hdelivered with heq | ⟨heq, -⟩ <;> rw [InOrder, heq]
    · exact h.delivered
    · refine List.pairwise_append.mpr ⟨h.delivered, List.pairwise_singleton _ _, ?_⟩
      intro j hj k hk
      obtain rfl := List.mem_singleton.mp hk
      exact h.before_of_running ht hrun hj

end Ordered

/-- Every step of a run in which a job is clear when it is taken keeps the order. -/
theorem Ordered.step {l : AlertLabel} (h : s.Ordered) (hclear : s.Orderly l)
    (hs : step env s l = some s') : s'.Ordered := by
  cases l with
  | event check status => exact h.event hs
  | updateAlerts alerts =>
    obtain rfl := Option.some.inj hs
    exact h.of_eq rfl rfl rfl rfl rfl
  | updateQueueLimits queueDepth maxAgeSecs =>
    obtain ⟨sender, hsender, hs⟩ := Option.bind_eq_some_iff.mp hs
    obtain ⟨q, -, rfl⟩ := Option.map_eq_some_iff.mp hsender
    obtain rfl := Option.some.inj hs
    refine h.of_eq rfl rfl ?_ rfl rfl
    -- A new channel is empty.
    unfold queued
    split_ifs <;> simp
  | recv =>
    obtain ⟨⟨job, q⟩, hrecv, hs⟩ := Option.bind_eq_some_iff.mp hs
    obtain rfl := Option.some.inj hs
    obtain ⟨rest, hitems, rfl⟩ := Channel.recv_eq_some_iff.mp hrecv
    refine h.of_take (s.retired.flatMap Channel.items) rest (hclear (job, _) hrecv) ?_ ?_
      rfl rfl rfl rfl
    · simp [queued, hitems]
    · simp [queued]
  | recvRetired k =>
    obtain ⟨r, hr, hs⟩ := Option.bind_eq_some_iff.mp hs
    obtain ⟨⟨job, q⟩, hrecv, hs⟩ := Option.bind_eq_some_iff.mp hs
    obtain rfl := Option.some.inj hs
    obtain ⟨rest, hitems, rfl⟩ := Channel.recv_eq_some_iff.mp hrecv
    obtain ⟨hk, hget⟩ := List.getElem?_eq_some_iff.mp hr
    have hsplit : s.retired = s.retired.take k ++ r :: s.retired.drop (k + 1) := by
      rw [← hget, ← List.drop_eq_getElem_cons hk, List.take_append_drop]
    refine h.of_take ((s.retired.take k).flatMap Channel.items)
      (rest ++ (s.retired.drop (k + 1) ++ [s.sender.deliveryTx]).flatMap Channel.items)
      (hclear (job, _) (by rw [hr]; exact hrecv)) ?_ ?_ rfl rfl rfl rfl
    · conv_lhs => rw [queued, hsplit]
      simp [hitems]
    · simp [queued, List.set_eq_take_append_cons_drop, hk]
  | answer i r =>
    obtain ⟨t, ht, hs⟩ := Option.bind_eq_some_iff.mp hs
    obtain ⟨t', ht', hs⟩ := Option.bind_eq_some_iff.mp hs
    obtain rfl := Option.some.inj hs
    obtain ⟨hrun, hjob⟩ := DeliveryTask.running_of_answer ht'
    refine h.of_set ht hrun hjob rfl rfl rfl rfl ?_
    by_cases hphase : t'.phase = .delivered
    · exact .inr ⟨if_pos hphase, fun hrun' => hrun'.1 hphase⟩
    · exact .inl (if_neg hphase)
  | wake i =>
    obtain ⟨t, ht, hs⟩ := Option.bind_eq_some_iff.mp hs
    obtain ⟨t', ht', hs⟩ := Option.bind_eq_some_iff.mp hs
    obtain rfl := Option.some.inj hs
    obtain ⟨hrun, hjob⟩ := DeliveryTask.running_of_wake ht'
    exact h.of_set ht hrun hjob rfl rfl rfl rfl (.inl rfl)
  | tick ms =>
    obtain rfl := Option.some.inj hs
    exact h.of_eq rfl rfl rfl rfl rfl

/-- In every state of a run in which a worker takes a job only when it is clear, the order holds. -/
theorem ordered_of_reaches {queueDepth maxAgeSecs : ℕ} {a : AlertSender}
    (h₀ : AlertSender.withQueueLimits queueDepth maxAgeSecs = some a)
    (hr : Reaches (step env) Orderly { sender := a } s) : s.Ordered := by
  obtain ⟨q, -, rfl⟩ := Option.map_eq_some_iff.mp h₀
  refine hr.invariant ?_ fun _ _ _ _ h hclear hs => h.step hclear hs
  constructor <;> simp [sent, queued, InOrder]

/-- In order, and with every job delivered, what an alert has delivered about a check is what it was
sent about it. -/
theorem Ordered.deliveredStatuses_eq (h : s.Ordered) (hall : s.AllDelivered)
    (alert check : String) :
    deliveredStatuses alert check s.delivered = sentStatuses alert check s.events := by
  unfold deliveredStatuses sentStatuses
  congr 1
  have hsent : s.sent.Pairwise fun j k => j.seq < k.seq := by
    have hlt := List.pairwise_lt_range (n := s.sender.enqueued)
    rw [← h.numbered] at hlt
    exact List.pairwise_map.mp hlt
  have hmem : ∀ j, j ∈ s.delivered ↔ j ∈ s.sent := by
    refine fun j => ⟨fun hj => ?_, hall j⟩
    obtain ⟨t, ht, rfl, -⟩ := h.delivered_done j hj
    exact h.tasks_sent (List.mem_map_of_mem ht)
  -- Both lists are in order and have the same jobs.
  have hin : ∀ p q : DeliveryJob, (p ∈ s.delivered.filter fun job =>
      decide (job.alert = alert ∧ job.check = check)) → (q ∈ s.delivered.filter fun job =>
      decide (job.alert = alert ∧ job.check = check)) → p.SameKey q := by
    intro p q hp hq
    have hp := of_decide_eq_true (List.mem_filter.mp hp).2
    have hq := of_decide_eq_true (List.mem_filter.mp hq).2
    exact ⟨hp.1.trans hq.1.symm, hp.2.trans hq.2.symm⟩
  have hdel : (s.delivered.filter fun job =>
      decide (job.alert = alert ∧ job.check = check)).Pairwise fun j k => j.seq < k.seq :=
    (h.delivered.sublist List.filter_sublist).imp_of_mem fun hp hq hb => hb (hin _ _ hp hq)
  refine List.Perm.eq_of_pairwise (fun _ _ _ _ hlt hgt => absurd hlt (Nat.lt_asymm hgt)) hdel
    (hsent.sublist List.filter_sublist) ?_
  · refine (List.perm_ext_iff_of_nodup ?_ ?_).mpr fun j => by
      simp only [List.mem_filter, hmem j, sent]
    · exact hdel.imp fun hlt heq => by rw [heq] at hlt; omega
    · exact (hsent.sublist List.filter_sublist).imp fun hlt heq => by rw [heq] at hlt; omega

/-- Where every job is clear when it is taken, the deliveries for each alert and check are in the
order of the jobs, and once every job has been delivered, the last status that an alert has
delivered about a check is the last one that it was sent. -/
theorem inOrder_of_orderly {queueDepth maxAgeSecs : ℕ} {a : AlertSender}
    (h₀ : AlertSender.withQueueLimits queueDepth maxAgeSecs = some a)
    (hr : Reaches (step env) Orderly { sender := a } s) :
    s.InOrder ∧ (s.AllDelivered → ∀ alert check,
      (deliveredStatuses alert check s.delivered).getLast? =
        (sentStatuses alert check s.events).getLast?) := by
  have h := ordered_of_reaches h₀ hr
  exact ⟨h.delivered, fun hall alert check => by rw [h.deliveredStatuses_eq hall]⟩

/-- The alert of the sample, whose check goes down and comes up. -/
def downAndUp : List AlertLabel :=
  [.updateAlerts ((∅ : IndexMap String AlertConfig).insert "ops"
      { url := "http://localhost", onCheck := ["web"] }),
    .event "web" .down, .event "web" .up]

/-- The `down` waits for a second attempt after a `503` while the `up` is delivered, so the receiver
hears last that the check is down. -/
theorem not_inOrder_overtaken :
    ∃ s, Reaches (step fun _ => none) Always { sender := sampleSender } s ∧
      ¬s.InOrder ∧ s.AllDelivered ∧
      (deliveredStatuses "ops" "web" s.delivered).getLast? = some .down ∧
      (sentStatuses "ops" "web" s.events).getLast? = some .up := by
  have h : (runIf (step fun _ => none) Always { sender := sampleSender }
      (downAndUp ++ [.recv, .recv, .answer 0 (.status 503), .answer 1 (.status 200), .tick 1000,
        .wake 0, .answer 0 (.status 200)])).any (fun s : Alerting => decide (¬s.InOrder ∧
          s.AllDelivered ∧ (deliveredStatuses "ops" "web" s.delivered).getLast? = some .down ∧
          (sentStatuses "ops" "web" s.events).getLast? = some .up)) = true := by decide +kernel
  obtain ⟨s, hr, hp⟩ := Reaches.exists_of_runIf _ h
  exact ⟨s, hr, of_decide_eq_true hp⟩

/-- The state of the sample after the `down` and the `up`, the one delivered before the other is
taken. -/
def inTurn : Alerting :=
  (runIf (step fun _ => none) Orderly { sender := sampleSender }
    (downAndUp ++ [.recv, .answer 0 (.status 503), .tick 1000, .wake 0, .answer 0 (.status 200),
      .recv, .answer 1 (.status 200)])).getD { sender := sampleSender }

/-- In the sample run, in which each job is taken when it is clear, the statuses are delivered in
order. -/
theorem inOrder_of_orderly_inTurn :
    inTurn.InOrder ∧ (inTurn.AllDelivered → ∀ alert check,
      (deliveredStatuses alert check inTurn.delivered).getLast? =
        (sentStatuses alert check inTurn.events).getLast?) := by
  have h₀ : AlertSender.withQueueLimits 4 60 = some sampleSender := rfl
  exact inOrder_of_orderly h₀ (.getD_runIf (by decide +kernel))

end Alerting

end Vigil
