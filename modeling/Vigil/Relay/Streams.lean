import Vigil.Relay.Pods

/-!
# One stream for each container

`active` is to hold the pairs of a pod and a container that have a running stream, and an event that
stops a pod aborts the pod's streams. What it holds are the tasks of `try_start`. With the stream
parameter these only wait for the tasks that read the streams, which go on when they are aborted.
And an aborted task is dropped some time later, or, if it is being polled, after it has come to an
await point.

`exclusive_of_reaches` says that no stream is read twice and that a stopped pod's lines are not
forwarded, as long as a stream is started for a container only when no earlier task for it has a
request or may have one still, and a pod is stopped only when none of its tasks is being polled and
those that read one stream each have ended or have been aborted. `not_exclusive_of_delete` is a run
in which the streams of a deleted pod go on, and those of its successor are read twice.
-/

namespace Vigil

open Runs

/-- Two tasks do not read one stream, now or later. -/
def PodTask.Apart (t u : PodTask) : Prop :=
  t.live = true → u.live = true → t.key = u.key →
    ∃ p, t.parent? = some p ∧ u.parent? = some p ∧ t.name? ≠ u.name?

/-- If a task is apart from another one, that one is from it. -/
theorem PodTask.Apart.symm {t u : PodTask} (h : t.Apart u) : u.Apart t := fun hu ht hkey => by
  obtain ⟨p, hpt, hpu, hname⟩ := h ht hu hkey.symm
  exact ⟨p, hpu, hpt, hname.symm⟩

namespace PodSource

variable (cfg : PodConfig) (s : PodSource)

/-- The open requests for a container's stream. -/
def requestsOf (key : String × String) (name : StreamName) : ℕ :=
  s.tasks.countP fun t => t.openRequest && t.key = key && t.name? = some name

/-- A stream has one open request at most. What forwards lines has been started since its pod was
last stopped, and the pod is known to run. -/
def Exclusive : Prop :=
  (∀ key name, s.requestsOf key name ≤ 1) ∧
    ∀ t ∈ s.tasks, t.forwarding = true →
      t.stopped = false ∧ s.runningPods.contains t.start.pod = true

/-- No earlier task for a container has a request or may have one still. -/
def vacant (p : PodStart) : Bool :=
  s.tasks.all fun t => t.key ≠ (p.pod, p.container) || !t.live

/-- None of a pod's tasks is being polled, and those that another task has spawned are done or
aborted. -/
def calm (pod : String) : Bool :=
  s.tasks.all fun t => t.start.pod ≠ pod || t.phase = .done ||
    (t.phase ≠ .polling && (t.parent?.isNone || t.aborted))

/-- Streams are started when the container is free, and pods are stopped when they are calm. -/
def Settled (s : PodSource) (l : PodLabel) : Prop :=
  (match l, s.todo with
    | .start, p :: _ => !s.spawns cfg p || s.vacant p
    | l, _ => l.stopped?.all s.calm) = true

instance (s : PodSource) (l : PodLabel) : Decidable (Settled cfg s l) :=
  inferInstanceAs (Decidable (_ = true))

/-- The tasks of a pod that go on are in the table, or wait to be dropped: those that another task
has spawned are done or aborted. -/
def inReach (pod : String) : Bool :=
  s.tasks.all fun t => t.start.pod ≠ pod || t.phase = .done || t.parent?.isNone || t.aborted

/-- Pods are stopped when their tasks are in reach of the table. -/
def InReach (s : PodSource) (l : PodLabel) : Prop := l.stopped?.all s.inReach = true

instance (s : PodSource) (l : PodLabel) : Decidable (InReach s l) :=
  inferInstanceAs (Decidable (_ = true))

variable {cfg s} {s' : PodSource}

/-- The tasks of a calm pod are in reach. -/
theorem inReach_of_calm {pod : String} (h : s.calm pod = true) : s.inReach pod = true := by
  refine List.all_eq_true.mpr fun t ht => ?_
  have hcalm := List.all_eq_true.mp h t ht
  simp only [Bool.or_eq_true, Bool.and_eq_true] at hcalm ⊢
  rcases hcalm with (hpod | hdone) | ⟨-, houter | haborted⟩
  · exact .inl (.inl (.inl hpod))
  · exact .inl (.inl (.inr hdone))
  · exact .inl (.inr houter)
  · exact .inr haborted

/-! ## The table -/

/-- What the table holds, in every run. -/
structure Tabled (s : PodSource) : Prop where
  /-- The table holds every task of `try_start` that runs. -/
  outer : ∀ i t, s.tasks[i]? = some t → t.outer = true → t.phase ≠ .done → t.aborted = false →
    s.active.get? t.key = some i
  keys : ∀ k ∈ s.active.keys, k.1 ∈ s.runningPods.keys
  todo : ∀ p ∈ s.todo, p.pod ∈ s.runningPods.keys
  running : ∀ t ∈ s.tasks, t.stopped = false → t.start.pod ∈ s.runningPods.keys

/-- A task that has not been aborted had not been before. -/
theorem not_aborted {t t' : PodTask} (h : t.Follows t') (ha : t'.aborted = false) :
    t.aborted = false :=
  Bool.eq_false_iff.mpr fun ht => by rw [h.aborted ht] at ha; cases ha

/-- A step that spawns no task and stops no pod keeps the table right. -/
theorem Tabled.quiet (hi : s.Tabled) (h : Quiet s s') : s'.Tabled where
  outer i t' ht' houter hdone haborted := by
    obtain ⟨t, ht, hf, -⟩ := h.tasks.getElem? ht'
    have hrun : t.phase ≠ .done := fun hd => hdone (hf.done hd)
    rw [PodTask.outer, hf.parent?] at houter
    rw [hf.key]
    refine h.active _ i (hi.outer i t ht houter hrun (not_aborted hf haborted)) ?_
    simp [isFinished, ht, hrun]
  keys k hk := h.runningPods _ (hi.keys k (h.keys k hk))
  todo p hp := by
    rcases h.todo p hp with hp | hp
    · exact h.runningPods _ (hi.todo p hp)
    · exact hp
  running t' ht' hstopped := by
    obtain ⟨t, ht, hf, hst⟩ := h.tasks.exists_of_mem ht'
    rw [hf.start]
    exact h.runningPods _ (hi.running t ht (hst ▸ hstopped))

/-- What an event that stops a pod leaves. -/
structure Stops (s s' : PodSource) (pod : String) : Prop where
  tasks : ∀ (i : ℕ) (t' : PodTask), s'.tasks[i]? = some t' → ∃ t : PodTask, s.tasks[i]? = some t ∧
    t.Follows t' ∧ t'.phase = t.phase ∧ t'.stopped = (t.stopped || t.start.pod = pod)
  /-- The tasks in the table are aborted. -/
  aborted : ∀ (i : ℕ) (t' : PodTask), s'.tasks[i]? = some t' → t'.start.pod = pod →
    s.active.get? t'.key = some i → t'.aborted = true
  active : ∀ k i, k.1 ≠ pod → s.active.get? k = some i → s'.active.get? k = some i
  keys : ∀ k ∈ s'.active.keys, k ∈ s.active.keys ∧ k.1 ≠ pod
  runningPods : ∀ q ∈ s.runningPods.keys, q ≠ pod → q ∈ s'.runningPods.keys

/-- A task is marked as one of a pod that has stopped. -/
theorem markStopped_task {pod : String} {i : ℕ} {t' : PodTask}
    (h : (s.markStopped pod).tasks[i]? = some t') : ∃ t, s.tasks[i]? = some t ∧
      t' = { t with stopped := t.stopped || t.start.pod = pod } := by
  rw [markStopped, update, List.getElem?_mapIdx] at h
  obtain ⟨t, ht, rfl⟩ := Option.map_eq_some_iff.mp h
  refine ⟨t, ht, ?_⟩
  split_ifs with hpod <;> simp [hpod]

/-- A pod that is known to run is removed. -/
theorem stops_removePod (pod : String) : Stops s ((s.removePod pod).markStopped pod) pod := by
  have htask : ∀ (i : ℕ) (t' : PodTask),
      ((s.removePod pod).markStopped pod).tasks[i]? = some t' →
        ∃ (t : PodTask) (a : Bool), s.tasks[i]? = some t ∧ (t.aborted = true → a = true) ∧
          (t.start.pod = pod → s.active.get? t.key = some i → a = true) ∧
          t' = { t with aborted := a, stopped := t.stopped || t.start.pod = pod } := by
    intro i t' h
    obtain ⟨u, hu, rfl⟩ := markStopped_task h
    rw [removePod, update, List.getElem?_mapIdx] at hu
    obtain ⟨t, ht, rfl⟩ := Option.map_eq_some_iff.mp hu
    split_ifs with hany
    · exact ⟨t, true, ht, fun _ => rfl, fun _ _ => rfl, rfl⟩
    · -- Its container has no entry with it.
      refine ⟨t, t.aborted, ht, id, fun hpod hget => absurd ?_ hany, rfl⟩
      refine List.any_eq_true.mpr ⟨(t.key, i), IndexMap.get?_eq_some_iff.mp hget, ?_⟩
      rw [PodTask.key, hpod]
      simp
  refine ⟨fun i t' h => ?_, fun i t' h => ?_, fun k i hk hget => ?_, fun k hk => ?_,
    fun q hq hne => ?_⟩
  · obtain ⟨t, a, ht, ha, -, rfl⟩ := htask i t' h
    exact ⟨t, ht, .flags t ha, rfl, rfl⟩
  · obtain ⟨t, a, ht, -, ha, rfl⟩ := htask i t' h
    exact ha
  · change (s.active.filter _).get? k = some i
    rw [IndexMap.get?_filter, hget]
    simp [hk]
  · obtain ⟨i, hget⟩ := IndexMap.mem_keys_iff.mp hk
    change (s.active.filter _).get? k = some i at hget
    rw [IndexMap.get?_filter] at hget
    obtain ⟨hget, hne⟩ := Option.filter_eq_some_iff.mp hget
    exact ⟨IndexMap.mem_keys_of_get? hget, of_decide_eq_true hne⟩
  · obtain ⟨cs, hget⟩ := IndexMap.mem_keys_iff.mp hq
    refine IndexMap.mem_keys_of_get? (v := cs) ?_
    change (s.runningPods.shiftRemove pod).get? q = some cs
    rw [IndexMap.get?_shiftRemove, if_neg hne, hget]

/-- A pod that is not known to run has no task in the table. -/
theorem stops_markStopped {pod : String} (hkeys : ∀ k ∈ s.active.keys, k.1 ∈ s.runningPods.keys)
    (hpod : pod ∉ s.runningPods.keys) : Stops s (s.markStopped pod) pod where
  tasks i t' h := by
    obtain ⟨t, ht, rfl⟩ := markStopped_task h
    exact ⟨t, ht, .flags t id, rfl, rfl⟩
  aborted i t' h htpod hget :=
    absurd (hkeys _ (IndexMap.mem_keys_of_get? hget)) (by rw [PodTask.key, htpod]; exact hpod)
  active _ _ _ hget := hget
  keys k hk := ⟨hk, fun hkpod => hpod (hkpod ▸ hkeys k hk)⟩
  runningPods _ hq _ := hq

/-- An event that stops a pod keeps the table right. -/
theorem Tabled.stops (hi : s.Tabled) {pod : String} (h : Stops s s' pod) (htodo : s'.todo = []) :
    s'.Tabled where
  outer i t' ht' houter hdone haborted := by
    obtain ⟨t, ht, hf, hphase, -⟩ := h.tasks i t' ht'
    rw [PodTask.outer, hf.parent?] at houter
    have hget := hi.outer i t ht houter (hphase ▸ hdone) (not_aborted hf haborted)
    rw [← hf.key] at hget
    refine h.active _ i (fun hpod => ?_) hget
    rw [h.aborted i t' ht' hpod hget] at haborted
    cases haborted
  keys k hk := h.runningPods _ (hi.keys k (h.keys k hk).1) (h.keys k hk).2
  todo := by
    rw [htodo]
    exact List.forall_mem_nil _
  running t' ht' hstopped := by
    obtain ⟨i, ht'⟩ := List.mem_iff_getElem?.mp ht'
    obtain ⟨t, ht, hf, -, hst⟩ := h.tasks i t' ht'
    obtain ⟨hnot, hpod⟩ : t.stopped = false ∧ t.start.pod ≠ pod := by
      simpa [hst] using hstopped
    rw [hf.start]
    exact h.runningPods _ (hi.running t (List.mem_of_getElem? ht) hnot) hpod

/-- A task that `try_start` spawns is put into the table. -/
theorem Tabled.spawns (hi : s.Tabled) {p : PodStart} {todo : List PodStart}
    (htodo : s.todo = p :: todo) (hp : s.spawns cfg p = true) :
    ({ s with todo }.tryStart cfg p).Tabled := by
  have hpod := hi.todo p (htodo ▸ List.mem_cons_self)
  rw [tryStart_of_spawns todo hp]
  refine ⟨fun i t ht houter hdone haborted => ?_, fun k hk => ?_, fun q hq => ?_, ?_⟩
  · rw [List.getElem?_append] at ht
    split_ifs at ht with hlt
    · -- The table has no task for the container, so the older one is for another container.
      have hget := hi.outer i t ht houter hdone haborted
      have hne : t.key ≠ (p.pod, p.container) := fun hk => by
        have hmem := IndexMap.contains_iff.mpr (IndexMap.mem_keys_of_get? (hk ▸ hget))
        simp [PodSource.spawns, hmem] at hp
      rw [IndexMap.get?_insert, if_neg hne]
      exact hget
    · rw [List.getElem?_singleton] at ht
      obtain ⟨hzero, ht⟩ := Option.ite_none_right_eq_some.mp ht
      obtain rfl := Option.some.inj ht
      obtain rfl : i = s.tasks.length := by omega
      rw [IndexMap.get?_insert]
      exact if_pos rfl
  · rcases (IndexMap.mem_keys_insert ..).mp hk with rfl | hk
    · exact hpod
    · exact hi.keys k hk
  · exact hi.todo q (htodo ▸ List.mem_cons_of_mem _ hq)
  · exact List.forall_mem_append.mpr ⟨hi.running, List.forall_mem_singleton.mpr fun _ => hpod⟩

/-- The two tasks that a task spawns. -/
theorem of_mem_children {i : ℕ} {t c : PodTask} (hc : c ∈ children i t) :
    c.key = t.key ∧ c.start = t.start ∧ c.stopped = t.stopped ∧ c.parent? = some i := by
  obtain rfl | rfl := List.mem_pair.mp hc <;> exact ⟨rfl, rfl, rfl, rfl⟩

/-- The task that spawns two others goes on. -/
theorem quiet_of_splits {i : ℕ} {t : PodTask} (ht : s.tasks[i]? = some t)
    (hfresh : t.phase = .fresh) : Quiet s (s.updateAt i fun t => { t with phase := .idle }) := by
  refine quiet_updateAt fun u hu => ⟨.phase u (by decide) nofun fun hd => ?_, rfl⟩
  obtain rfl := Option.some.inj (ht.symm.trans hu)
  cases hfresh.symm.trans hd

/-- The two tasks that a task spawns are in no table. -/
theorem Tabled.splits (hi : s.Tabled) {i : ℕ} {t : PodTask} (ht : s.tasks[i]? = some t)
    (hfresh : t.phase = .fresh) : Tabled { s with
      tasks := (s.tasks.modify i fun t => { t with phase := .idle }) ++ children i t } := by
  have hidle := hi.quiet (quiet_of_splits ht hfresh)
  refine ⟨fun k u hu houter hdone hna => ?_, hi.keys, hi.todo, ?_⟩
  · change (_ ++ _)[k]? = some u at hu
    rw [List.getElem?_append] at hu
    split_ifs at hu with hlt
    · exact hidle.outer k u hu houter hdone hna
    · rw [PodTask.outer, (of_mem_children (List.mem_of_getElem? hu)).2.2.2] at houter
      cases houter
  · refine List.forall_mem_append.mpr ⟨hidle.running, fun c hc hstopped => ?_⟩
    rw [(of_mem_children hc).2.1]
    exact hi.running t (List.mem_of_getElem? ht) ((of_mem_children hc).2.2.1 ▸ hstopped)

/-- After every step the table holds what it is to hold. -/
theorem Tabled.step (hi : s.Tabled) {l : PodLabel} (hs : s.step cfg l = some s') : s'.Tabled := by
  cases effect_of_step hs with
  | quiet h => exact hi.quiet h
  | stops pod initialized hl htodo hs' =>
    rcases hs' with rfl | ⟨hpod, rfl⟩
    · have hi' : Tabled { s with initialized } := ⟨hi.outer, hi.keys, hi.todo, hi.running⟩
      exact hi'.stops (stops_removePod pod) htodo
    · exact hi.stops (stops_markStopped hi.keys hpod) htodo
  | spawns p todo hl htodo hp hs' => exact hs' ▸ hi.spawns htodo hp
  | splits i t ht hk hfresh haborted hs' => exact hs' ▸ hi.splits ht hfresh

/-- At the start the table is empty. -/
theorem tabled_start : Tabled {} :=
  ⟨fun _ _ ht => (by cases ht), List.forall_mem_nil _, List.forall_mem_nil _,
    List.forall_mem_nil _⟩

/-- The table is right in every run. -/
theorem tabled_of_reaches {G : PodSource → PodLabel → Prop} (h : Reaches (step cfg) G {} s) :
    s.Tabled :=
  h.invariant tabled_start fun _ _ _ _ hi _ hs => hi.step hs

/-! ## What is left of a stopped pod -/

/-- What is left of a stopped pod has been aborted. -/
def Quenched (s : PodSource) : Prop :=
  ∀ t ∈ s.tasks, t.stopped = true → t.phase ≠ .done → t.aborted = true

/-- After a quiet step what is left of a stopped pod has been aborted, if it had been before. -/
theorem Quenched.quiet (hq : s.Quenched) (h : Quiet s s') : s'.Quenched := by
  intro t' ht' hstopped hdone
  obtain ⟨t, ht, hf, hst⟩ := h.tasks.exists_of_mem ht'
  exact hf.aborted (hq t ht (hst ▸ hstopped) fun hd => hdone (hf.done hd))

/-- The tasks of a pod that is stopped are in the table and are aborted, if no others are left. -/
theorem Quenched.stops (hq : s.Quenched) (hi : s.Tabled) {pod : String} (h : Stops s s' pod)
    (hreach : s.inReach pod = true) : s'.Quenched := by
  intro t' ht' hstopped hdone
  obtain ⟨i, ht'⟩ := List.mem_iff_getElem?.mp ht'
  obtain ⟨t, ht, hf, hphase, hst⟩ := h.tasks i t' ht'
  have hmem := List.mem_of_getElem? ht
  rw [hphase] at hdone
  by_cases hpod : t.start.pod = pod
  · have hreach := List.all_eq_true.mp hreach t hmem
    simp only [hpod, hdone, ne_eq, not_true_eq_false, decide_false, Bool.false_or,
      Bool.or_eq_true] at hreach
    rcases hreach with houter | haborted
    · -- The table holds it, unless it has been aborted before.
      by_cases ha : t.aborted = true
      · exact hf.aborted ha
      · have hget := hi.outer i t ht houter hdone (Bool.eq_false_iff.mpr ha)
        exact h.aborted i t' ht' (hf.start ▸ hpod) (hf.key ▸ hget)
    · exact hf.aborted haborted
  · rw [hst] at hstopped
    exact hf.aborted (hq t hmem (by simpa [hpod] using hstopped) hdone)

/-- A new task is not one of a stopped pod. -/
theorem Quenched.spawns (hq : s.Quenched) {p : PodStart} (todo : List PodStart)
    (hp : s.spawns cfg p = true) : ({ s with todo }.tryStart cfg p).Quenched := by
  rw [tryStart_of_spawns todo hp]
  exact List.forall_mem_append.mpr ⟨hq, List.forall_mem_singleton.mpr (by simp [newTask])⟩

/-- Nor are the two that a task spawns, since it would have been aborted. -/
theorem Quenched.splits (hq : s.Quenched) {i : ℕ} {t : PodTask} (ht : s.tasks[i]? = some t)
    (hfresh : t.phase = .fresh) (haborted : t.aborted = false) : Quenched { s with
      tasks := (s.tasks.modify i fun t => { t with phase := .idle }) ++ children i t } := by
  have hidle := hq.quiet (quiet_of_splits ht hfresh)
  refine List.forall_mem_append.mpr ⟨hidle, fun c hc hstopped _ => ?_⟩
  rw [(of_mem_children hc).2.2.1] at hstopped
  rw [hq t (List.mem_of_getElem? ht) hstopped (by simp [hfresh])] at haborted
  cases haborted

/-- A step leaves of a stopped pod only what has been aborted, as long as no task goes on that the
table does not hold. -/
theorem Quenched.step (hq : s.Quenched) (hi : s.Tabled) {l : PodLabel} (hG : s.InReach l)
    (hs : s.step cfg l = some s') : s'.Quenched := by
  cases effect_of_step hs with
  | quiet h => exact hq.quiet h
  | stops pod initialized hl htodo hs' =>
    have hreach : s.inReach pod = true := by
      rw [InReach, hl] at hG
      exact hG
    rcases hs' with rfl | ⟨hpod, rfl⟩
    · have hi' : Tabled { s with initialized } := ⟨hi.outer, hi.keys, hi.todo, hi.running⟩
      have hq' : Quenched { s with initialized } := hq
      exact hq'.stops hi' (stops_removePod pod) hreach
    · exact hq.stops hi (stops_markStopped hi.keys hpod) hreach
  | spawns p todo hl htodo hp hs' => exact hs' ▸ hq.spawns todo hp
  | splits i t ht hk hfresh haborted hs' => exact hs' ▸ hq.splits ht hfresh haborted

/-- What is left of a stopped pod has been aborted, in every run in which pods are stopped only
when no task of theirs goes on that the table does not hold. -/
theorem quenched_of_reaches (h : Reaches (step cfg) InReach {} s) : s.Quenched :=
  h.invariant (List.forall_mem_nil _) fun _ _ _ hr hq hG hs =>
    hq.step (tabled_of_reaches hr) hG hs

/-! ## The invariant -/

/-- The invariant. -/
structure Inv (s : PodSource) : Prop extends Tabled s where
  apart : s.tasks.Pairwise PodTask.Apart
  quenched : s.Quenched
  /-- What is left of a stopped pod is not being polled. -/
  still : ∀ t ∈ s.tasks, t.stopped = true → t.phase ≠ .polling

/-- Tasks that are apart stay apart as they go on. -/
theorem pairwise_apart {ts ts' : List PodTask} (hp : ts.Pairwise PodTask.Apart)
    (h : List.Forall₂ PodTask.Follows ts ts') : ts'.Pairwise PodTask.Apart := by
  refine h.pairwise hp fun t u t' u' ht hu hapart htl hul hkey => ?_
  rw [ht.key, hu.key] at hkey
  rw [ht.parent?, hu.parent?, ht.name?, hu.name?]
  exact hapart (ht.live htl) (hu.live hul) hkey

/-- A step that spawns no task and stops no pod. -/
theorem Inv.quiet (hi : s.Inv) (h : Quiet s s') : s'.Inv where
  toTabled := hi.toTabled.quiet h
  apart := pairwise_apart hi.apart (h.tasks.imp fun _ _ ht => ht.1)
  quenched := hi.quenched.quiet h
  still t' ht' hstopped hpolling := by
    obtain ⟨t, ht, hf, hst⟩ := h.tasks.exists_of_mem ht'
    have hdone : t.phase ≠ .done := fun hd => by
      have hd' := hf.done hd
      rw [hpolling] at hd'
      cases hd'
    -- It has been aborted, and is not polled again.
    rcases hf.polling hpolling with hp | ha
    · exact hi.still t ht (hst ▸ hstopped) hp
    · rw [hi.quenched t ht (hst ▸ hstopped) hdone] at ha
      cases ha

/-- The invariant is kept by an event that stops a calm pod. -/
theorem Inv.stops (hi : s.Inv) {pod : String} (h : Stops s s' pod)
    (hfollows : List.Forall₂ PodTask.Follows s.tasks s'.tasks) (htodo : s'.todo = [])
    (hcalm : s.calm pod = true) : s'.Inv where
  toTabled := hi.toTabled.stops h htodo
  apart := pairwise_apart hi.apart hfollows
  quenched := hi.quenched.stops hi.toTabled h (inReach_of_calm hcalm)
  still t' ht' hstopped := by
    obtain ⟨i, ht'⟩ := List.mem_iff_getElem?.mp ht'
    obtain ⟨t, ht, -, hphase, hst⟩ := h.tasks i t' ht'
    have hmem := List.mem_of_getElem? ht
    rw [hphase]
    by_cases hpod : t.start.pod = pod
    · have hcalm := List.all_eq_true.mp hcalm t hmem
      rintro hpolling
      simp [hpod, hpolling] at hcalm
    · rw [hst] at hstopped
      exact hi.still t hmem (by simpa [hpod] using hstopped)

/-- A stream is started for a container that is free. -/
theorem Inv.spawns (hi : s.Inv) {p : PodStart} {todo : List PodStart} (htodo : s.todo = p :: todo)
    (hp : s.spawns cfg p = true) (hvacant : s.vacant p = true) :
    ({ s with todo }.tryStart cfg p).Inv := by
  have htabled := hi.toTabled.spawns htodo hp
  have hquenched := hi.quenched.spawns todo hp
  rw [tryStart_of_spawns todo hp] at htabled hquenched ⊢
  refine ⟨htabled, ?_, hquenched, ?_⟩
  · refine List.pairwise_append.mpr ⟨hi.apart, List.pairwise_singleton _ _,
      fun t ht u hu htl _ hk => ?_⟩
    -- The container is free.
    obtain rfl := List.mem_singleton.mp hu
    have hfree := List.all_eq_true.mp hvacant t ht
    rw [htl, hk] at hfree
    simp [PodTask.key, newTask] at hfree
  · exact List.forall_mem_append.mpr ⟨hi.still, List.forall_mem_singleton.mpr (by simp [newTask])⟩

/-- The invariant is kept when a task spawns one for each of the two streams. -/
theorem Inv.splits (hi : s.Inv) {i : ℕ} {t : PodTask} (ht : s.tasks[i]? = some t)
    (hk : t.kind = .pair) (hfresh : t.phase = .fresh) (haborted : t.aborted = false) :
    Inv { s with
      tasks := (s.tasks.modify i fun t => { t with phase := .idle }) ++ children i t } := by
  have hidle := hi.quiet (quiet_of_splits ht hfresh)
  have hlive : t.live = true := (PodTask.live_of_pair hk).mpr ⟨hfresh, haborted⟩
  refine ⟨hi.toTabled.splits ht hfresh, ?_, hi.quenched.splits ht hfresh haborted, ?_⟩
  · refine List.pairwise_append.mpr ⟨hidle.apart, ?_, fun u hu c hc hul _ hkey => ?_⟩
    · exact List.pairwise_pair.mpr fun _ _ _ => ⟨i, rfl, rfl, by simp [PodTask.name?]⟩
    · -- No other task was live beside the one that splits.
      exfalso
      obtain ⟨j, hj⟩ := List.mem_iff_getElem?.mp hu
      rw [List.getElem?_modify] at hj
      rw [(of_mem_children hc).1] at hkey
      by_cases hij : i = j
      · obtain rfl := hij
        rw [ht] at hj
        obtain rfl : { t with phase := .idle } = u := by simpa using hj
        simp [PodTask.live, hk] at hul
      · obtain hj : s.tasks[j]? = some u := by simpa [hij] using hj
        have hapart := hi.apart.getElem? (fun _ _ => PodTask.Apart.symm) ht hj hij
        obtain ⟨p, hp, -⟩ := hapart hlive hul hkey.symm
        simp [PodTask.parent?, hk] at hp
  · refine List.forall_mem_append.mpr ⟨hidle.still, fun c hc _ hpolling => ?_⟩
    obtain rfl | rfl := List.mem_pair.mp hc <;> cases hpolling

/-- A step that meets the condition keeps the invariant. -/
theorem Inv.step (hi : s.Inv) {l : PodLabel} (hG : Settled cfg s l) (hs : s.step cfg l = some s') :
    s'.Inv := by
  cases effect_of_step hs with
  | quiet h => exact hi.quiet h
  | stops pod initialized hl htodo hs' =>
    have hcalm : s.calm pod = true := by
      rw [Settled, hl] at hG
      · exact hG
      · intro p todo _ hne
        cases htodo.symm.trans hne
    obtain rfl | ⟨hpod, rfl⟩ := hs'
    · have hi' : Inv { s with initialized } :=
        ⟨⟨hi.outer, hi.keys, hi.todo, hi.running⟩, hi.apart, hi.quenched, hi.still⟩
      exact hi'.stops (stops_removePod pod) (follows_stop _ pod).2 htodo hcalm
    · exact hi.stops (stops_markStopped hi.keys hpod) (follows_stop s pod).1 htodo hcalm
  | spawns p todo hl htodo hp hs' =>
    subst hl hs'
    refine hi.spawns htodo hp ?_
    simp only [Settled, htodo] at hG
    simpa [hp] using hG
  | splits i t ht hk hfresh haborted hs' =>
    subst hs'
    exact hi.splits ht hk hfresh haborted

/-- At the start there is no task and no pod. -/
theorem inv_start : Inv {} :=
  ⟨tabled_start, .nil, List.forall_mem_nil _, List.forall_mem_nil _⟩

/-- Under the invariant a stream has one open request at most, and only pods that are known to run
are read. -/
theorem Inv.exclusive (hi : s.Inv) : s.Exclusive := by
  refine ⟨fun key name => ?_, fun t ht hf => ?_⟩
  · refine hi.apart.countP_le_one fun t u ht hu hapart => ?_
    simp only [Bool.and_eq_true, decide_eq_true_eq] at ht hu
    obtain ⟨⟨htopen, htkey⟩, htname⟩ := ht
    obtain ⟨⟨huopen, hukey⟩, huname⟩ := hu
    obtain ⟨p, -, -, hname⟩ := hapart (PodTask.live_of_openRequest htopen)
      (PodTask.live_of_openRequest huopen) (htkey.trans hukey.symm)
    exact hname (htname.trans huname.symm)
  · have hpolling : t.phase = .polling := by
      simp only [PodTask.forwarding, Bool.and_eq_true, decide_eq_true_eq] at hf
      exact hf.2
    have hrunning : t.stopped = false := Bool.eq_false_iff.mpr fun hst =>
      hi.still t ht hst hpolling
    exact ⟨hrunning, IndexMap.contains_iff.mpr (hi.running t ht hrunning)⟩

/-- No stream is read twice, and none of a pod that has been stopped is forwarded, as long as
streams are started for containers that are free, and pods are stopped when they are calm. -/
theorem exclusive_of_reaches (h : Reaches (step cfg) (Settled cfg) {} s) : s.Exclusive :=
  (h.invariant inv_start fun _ _ _ _ hi hG hs => hi.step hG hs).exclusive

/-- One pod and a server without the stream parameter. The stream ends and is started again, and the
pod is deleted while it is at an await point. A new pod has the name, and stops running. -/
def replaced : List PodLabel :=
  [.apply "web" true [""], .start, .poll 0, .request 0, .forward 0, .finish 0,
    .reconcile [("web", [""])], .start, .poll 1, .request 1, .pause 1, .delete "web", .drop 1,
    .apply "web" true [""], .start, .poll 2, .request 2, .forward 2, .pause 2,
    .apply "web" false [""]]

/-- The command line of `replaced`. -/
def outputConfig : PodConfig := { maxLogRequests := 0, useStreamParam := false }

/-- The state that `replaced` leads to. -/
def replacedEnd : PodSource :=
  (runIf (step outputConfig) (Settled outputConfig) {} replaced).getD {}

/-- In it, one stream is left, and it forwards nothing. -/
theorem exclusive_of_reaches_replaced : replacedEnd.Exclusive :=
  @exclusive_of_reaches outputConfig _ (.getD_runIf (by decide +kernel))

/-- A pod is deleted while its two streams are read. The task in the table is dropped, and the one
that reads a stream goes on. After a new pod with the name has been found, there are two of them. -/
theorem not_exclusive_of_delete : ∃ s,
    Reaches (step { maxLogRequests := 0, useStreamParam := true }) Always {} s ∧ ¬s.Exclusive ∧
      1 < s.requestsOf ("web", "") .stdout ∧
      ∃ t ∈ s.tasks, t.stopped = true ∧ t.forwarding = true := by
  have hrun : (runIf (step { maxLogRequests := 0, useStreamParam := true }) Always {}
      [.apply "web" true [""], .start, .poll 0, .poll 1, .request 1, .pause 1, .delete "web",
        .drop 0, .apply "web" true [""], .start, .poll 3, .poll 4, .request 4, .poll 1]).any
        (fun s => s.requestsOf ("web", "") .stdout = 2 &&
            s.tasks.any fun t => t.stopped && t.forwarding) = true := by
    decide +kernel
  obtain ⟨s, hs, hp⟩ := Reaches.exists_of_runIf _ hrun
  rw [Bool.and_eq_true, decide_eq_true_eq] at hp
  obtain ⟨htwo, hany⟩ := hp
  obtain ⟨t, ht, hp⟩ := List.any_eq_true.mp hany
  rw [Bool.and_eq_true] at hp
  refine ⟨s, hs, fun hexcl => ?_, by rw [htwo]; decide, t, ht, hp⟩
  have hle := hexcl.1 ("web", "") .stdout
  omega

end PodSource

end Vigil
