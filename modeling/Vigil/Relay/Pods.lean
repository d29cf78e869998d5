import Vigil.Lib.IndexMap
import Vigil.Lib.Pointwise
import Vigil.Lib.Runs

/-!
# The relay's pod source

`run` and `try_start` of `source_k8s`: the loop that follows the pods of a namespace and keeps a
table of stream tasks, and the tasks. A stream task holds a permit of the semaphore. It reads a log
by itself, or, if the API server has the stream parameter, it spawns two tasks that read one stream
each, and waits for either.

`abort` sets a flag. A task that is at an await point is dropped then without being polled again,
and one that is being polled goes on to its next await point. A task that is dropped drops its
handles on other tasks, and these go on.
-/

namespace Vigil

/-- The stream of a log request, by its label. -/
inductive StreamName
  | stdout
  | stderr
  /-- Both, without the stream parameter. -/
  | output
  deriving DecidableEq, Repr

/-- What a task runs. -/
inductive PodTaskKind
  /-- The body that `try_start` spawns with the stream parameter. -/
  | pair
  /-- `stream_pod`, in the task that `try_start` spawns or in one that such a task has spawned. -/
  | stream (name : StreamName) (parent : Option ℕ)
  deriving DecidableEq, Repr

/-- How far a task is. -/
inductive PodTaskPhase
  /-- It has not been polled. -/
  | fresh
  /-- It is at an await point. -/
  | idle
  /-- It is being polled. -/
  | polling
  /-- It has ended, or has been dropped. -/
  | done
  deriving DecidableEq, Repr

/-- A pod's container whose stream is to be started, and what `stream_params` gives for the pod. The
container is empty for the default one. -/
structure PodStart where
  pod : String
  container : String
  tailLines : Int
  sinceSeconds : Int
  deriving DecidableEq

/-- A task. -/
structure PodTask where
  /-- What it has been started with. -/
  start : PodStart
  kind : PodTaskKind
  phase : PodTaskPhase := .fresh
  /-- `abort` has been called. -/
  aborted : Bool := false
  /-- The log request has been sent. -/
  requested : Bool := false
  /-- The pod has been deleted or has stopped running since. The relay does not keep this. -/
  stopped : Bool := false
  deriving DecidableEq

namespace PodTask

variable (t : PodTask)

/-- The container that the task is for. -/
def key : String × String := (t.start.pod, t.start.container)

/-- The stream that the task reads. -/
def name? : Option StreamName :=
  match t.kind with
  | .pair => none
  | .stream name _ => some name

/-- The task that has spawned it. -/
def parent? : Option ℕ :=
  match t.kind with
  | .stream _ (some p) => some p
  | _ => none

/-- The task has been spawned by `try_start`, and holds a permit until it is done. -/
def outer : Bool := t.parent?.isNone

/-- The task has an open log request. -/
def openRequest : Bool := t.name?.isSome && t.requested && t.phase ≠ .done

/-- The task forwards lines. -/
def forwarding : Bool := t.name?.isSome && t.requested && t.phase = .polling

/-- The task may have a log request now or later, or may still spawn two that may. -/
def live : Bool :=
  match t.kind with
  | .pair => t.phase = .fresh && !t.aborted
  | .stream _ _ => t.phase ≠ .done && (!t.aborted || t.requested || t.phase = .polling)

end PodTask

/-- The command line's part in it. -/
structure PodConfig where
  /-- Zero is no limit. -/
  maxLogRequests : ℕ
  useStreamParam : Bool
  /-- A pattern of `--exclude-pod` matches. -/
  excluded : String → Bool := fun _ => false
  tailLines : Int := -1
  sinceSeconds : Int := 0

/-- The state of `run`, and the tasks that have been spawned. -/
structure PodSource where
  /-- The containers to stream of each pod that is known to run. -/
  runningPods : IndexMap String (List String) := ∅
  /-- The task of each container. -/
  active : IndexMap (String × String) ℕ := ∅
  initialized : List String := []
  /-- The calls of `try_start` that the handling of an event has still to make. -/
  todo : List PodStart := []
  tasks : List PodTask := []

/-- What happens. -/
inductive PodLabel
  /-- `Apply` or `InitApply` of a pod with a name, whether its phase is `Running`, and the
  containers that the selector finds. -/
  | apply (pod : String) (running : Bool) (containers : List String)
  | delete (pod : String)
  | init
  | initDone
  /-- The reconcile tick, which finds the pods in some order. -/
  | reconcile (order : List (String × List String))
  /-- The next call of `try_start`. -/
  | start
  /-- A task is polled. -/
  | poll (i : ℕ)
  /-- `stream_pod` sends its request. -/
  | request (i : ℕ)
  /-- `stream_pod` forwards a line. -/
  | forward (i : ℕ)
  /-- A task that is being polled comes to an await point. -/
  | pause (i : ℕ)
  /-- `stream_pod` returns. -/
  | finish (i : ℕ)
  /-- An aborted task is dropped. -/
  | drop (i : ℕ)
  /-- One of the two tasks `j` that task `i` waits for has ended. -/
  | select (i j : ℕ)

namespace PodSource

variable (cfg : PodConfig) (s : PodSource)

/-- `stream_params`, for one of the pod's containers. -/
def startOf (pod container : String) : PodStart where
  pod
  container
  tailLines := if pod ∈ s.initialized then 0 else cfg.tailLines
  sinceSeconds := cfg.sinceSeconds

/-- The tasks, changed one by one. -/
def update (f : ℕ → PodTask → PodTask) : PodSource := { s with tasks := s.tasks.mapIdx f }

/-- One task, changed. -/
def updateAt (i : ℕ) (f : PodTask → PodTask) : PodSource := { s with tasks := s.tasks.modify i f }

/-- The permits that are not in the semaphore. -/
def permitsHeld : ℕ := s.tasks.countP fun t => t.outer && t.phase ≠ .done

/-- The open log requests. -/
def openRequests : ℕ := s.tasks.countP PodTask.openRequest

/-- `try_start` spawns a task. -/
def spawns (p : PodStart) : Bool :=
  !s.active.contains (p.pod, p.container) &&
    (cfg.maxLogRequests = 0 || s.permitsHeld < cfg.maxLogRequests)

/-- What `try_start` spawns. -/
def newTask (p : PodStart) : PodTask where
  start := p
  kind := if cfg.useStreamParam then .pair else .stream .output none

/-- `try_start`, and the entry in `initialized`. -/
def tryStart (p : PodStart) : PodSource :=
  if s.spawns cfg p then
    { s with
      tasks := s.tasks ++ [newTask cfg p]
      active := s.active.insert (p.pod, p.container) s.tasks.length
      initialized := p.pod :: s.initialized }
  else s

/-- A pod is removed from `runningPods`. Its streams are aborted and removed from the table. -/
def removePod (pod : String) : PodSource :=
  { s.update fun i t =>
      if s.active.entries.any fun e => e.1.1 = pod && e.2 = i then { t with aborted := true }
      else t with
    runningPods := s.runningPods.shiftRemove pod
    active := s.active.filter fun e => e.1.1 ≠ pod }

/-- The pod's tasks are not to forward anything from here on. -/
def markStopped (pod : String) : PodSource :=
  s.update fun _ t => if t.start.pod = pod then { t with stopped := true } else t

/-- A task has ended. -/
def isFinished (i : ℕ) : Bool :=
  match s.tasks[i]? with
  | some t => t.phase = .done
  | none => true

/-- The two tasks that task `i` spawns. -/
def children (i : ℕ) (t : PodTask) : List PodTask :=
  [{ start := t.start, kind := .stream .stdout (some i), stopped := t.stopped },
    { start := t.start, kind := .stream .stderr (some i), stopped := t.stopped }]

/-- One step. -/
def step (s : PodSource) : PodLabel → Option PodSource
  | .apply pod running containers =>
    -- The handling of the last event has come to its end.
    if s.todo ≠ [] then none
    else if running then
      if cfg.excluded pod then some s
      else some { s with
        runningPods := s.runningPods.insert pod containers
        todo := containers.map (s.startOf cfg pod) }
    else if s.runningPods.contains pod then some ((s.removePod pod).markStopped pod)
    else some (s.markStopped pod)
  | .delete pod =>
    if s.todo ≠ [] then none
    else
      let s' := { s with initialized := s.initialized.filter (· ≠ pod) }
      some ((s'.removePod pod).markStopped pod)
  | .init | .initDone => if s.todo ≠ [] then none else some s
  | .reconcile order =>
    -- A `HashMap` is gone through in any order.
    if s.todo = [] ∧ order.isPerm s.runningPods.entries then
      some { s with
        active := s.active.filter fun e => !s.isFinished e.2
        todo := order.flatMap fun e => e.2.map (s.startOf cfg e.1) }
    else none
  | .start =>
    match s.todo with
    | [] => none
    | p :: todo => some ({ s with todo }.tryStart cfg p)
  | .poll i => do
    let t ← s.tasks[i]?
    if t.aborted = false ∧ (t.phase = .fresh ∨ t.phase = .idle) then
      match t.kind with
      | .stream _ _ => some (s.updateAt i fun t => { t with phase := .polling })
      | .pair =>
        -- It spawns two tasks and comes to the `select!`.
        if t.phase = .fresh then
          let s' := s.updateAt i fun t => { t with phase := .idle }
          some { s' with tasks := s'.tasks ++ children i t }
        else none
    else none
  | .request i => do
    let t ← s.tasks[i]?
    if t.phase = .polling then some (s.updateAt i fun t => { t with requested := true }) else none
  | .forward i => do
    let t ← s.tasks[i]?
    if t.forwarding then some s else none
  | .pause i => do
    let t ← s.tasks[i]?
    if t.phase = .polling then some (s.updateAt i fun t => { t with phase := .idle }) else none
  | .finish i => do
    let t ← s.tasks[i]?
    if t.phase = .polling then some (s.updateAt i fun t => { t with phase := .done }) else none
  | .drop i => do
    let t ← s.tasks[i]?
    if t.aborted ∧ (t.phase = .fresh ∨ t.phase = .idle) then
      some (s.updateAt i fun t => { t with phase := .done })
    else none
  | .select i j => do
    let t ← s.tasks[i]?
    let u ← s.tasks[j]?
    if t.kind = .pair ∧ t.phase = .idle ∧ t.aborted = false ∧ u.parent? = some i ∧
        u.phase = .done then
      some (s.update fun k u =>
        if k = i then { u with phase := .done }
        else if u.parent? = some i ∧ k ≠ j then { u with aborted := true }
        else u)
    else none

end PodSource

/-! ## What a step does -/

/-- The pod that an event stops. -/
def PodLabel.stopped? : PodLabel → Option String
  | .apply pod false _ | .delete pod => some pod
  | _ => none

namespace PodTask

/-- What may become of a task in a step. -/
structure Follows (t t' : PodTask) : Prop where
  start : t'.start = t.start
  kind : t'.kind = t.kind
  fresh : t'.phase = .fresh → t.phase = .fresh
  /-- An aborted task is not polled again. -/
  polling : t'.phase = .polling → t.phase = .polling ∨ t.aborted = false
  done : t.phase = .done → t'.phase = .done
  aborted : t.aborted = true → t'.aborted = true
  /-- A task is being polled when it sends its request. -/
  requested : t'.requested = true → t.requested = true ∨ t.phase = .polling

variable {t t' : PodTask}

/-- A task may be aborted, and its pod may be stopped. -/
theorem Follows.flags (t : PodTask) {aborted stopped : Bool}
    (h : t.aborted = true → aborted = true) : t.Follows { t with aborted, stopped } :=
  ⟨rfl, rfl, id, Or.inl, id, h, Or.inl⟩

/-- A task that has been polled may come to any other phase. -/
theorem Follows.phase (t : PodTask) {phase : PodTaskPhase} (hfresh : phase ≠ .fresh)
    (hpolling : phase = .polling → t.aborted = false) (hdone : t.phase = .done → phase = .done) :
    t.Follows { t with phase } :=
  ⟨rfl, rfl, fun h => absurd h hfresh, fun h => .inr (hpolling h), hdone, id, Or.inl⟩

/-- A task stays with its container. -/
theorem Follows.key (h : t.Follows t') : t'.key = t.key := by
  rw [PodTask.key, h.start]
  rfl

/-- A task stays with the stream that it reads. -/
theorem Follows.name? (h : t.Follows t') : t'.name? = t.name? := by
  rw [PodTask.name?, h.kind]
  rfl

/-- A task has been spawned by another one, or by `try_start`. -/
theorem Follows.parent? (h : t.Follows t') : t'.parent? = t.parent? := by
  rw [PodTask.parent?, h.kind]
  rfl

/-- A task that is to spawn two others. -/
theorem live_of_pair (hk : t.kind = .pair) :
    t.live = true ↔ t.phase = .fresh ∧ t.aborted = false := by
  simp [live, hk]

/-- A task that reads a stream is live until it is done, unless it has been aborted before it has
sent its request. -/
theorem live_of_stream {name : StreamName} {parent : Option ℕ} (hk : t.kind = .stream name parent) :
    t.live = true ↔
      t.phase ≠ .done ∧ (t.aborted = false ∨ t.requested = true ∨ t.phase = .polling) := by
  simp [live, hk, or_assoc]

/-- What has no request and will have none stays so. -/
theorem Follows.live (h : t.Follows t') (hl : t'.live = true) : t.live = true := by
  have haborted : t'.aborted = false → t.aborted = false := fun ha =>
    Bool.eq_false_iff.mpr fun ht => by rw [h.aborted ht] at ha; cases ha
  cases hk : t.kind with
  | pair =>
    obtain ⟨hfresh, ha⟩ := (live_of_pair (h.kind.trans hk)).mp hl
    exact (live_of_pair hk).mpr ⟨h.fresh hfresh, haborted ha⟩
  | stream name parent =>
    obtain ⟨hdone, hl⟩ := (live_of_stream (h.kind.trans hk)).mp hl
    refine (live_of_stream hk).mpr ⟨fun hd => hdone (h.done hd), ?_⟩
    -- A request that is sent in the step is that of a task that is being polled.
    rcases hl with ha | hr | hp
    · exact .inl (haborted ha)
    · exact .inr (h.requested hr)
    · rcases h.polling hp with hp | ha
      · exact .inr (.inr hp)
      · exact .inl ha

/-- A task with an open request is live. -/
theorem live_of_openRequest (h : t.openRequest = true) : t.live = true := by
  cases hk : t.kind with
  | pair => simp [openRequest, name?, hk] at h
  | stream name parent =>
    have hopen : t.requested = true ∧ t.phase ≠ .done := by
      simpa [openRequest, name?, hk] using h
    exact (live_of_stream hk).mpr ⟨hopen.2, .inr (.inl hopen.1)⟩

end PodTask

namespace PodSource

/-- A step that spawns no task and stops no pod. -/
structure Quiet (s s' : PodSource) : Prop where
  tasks : List.Forall₂ (fun t t' => t.Follows t' ∧ t'.stopped = t.stopped) s.tasks s'.tasks
  /-- The table loses the tasks that have ended. -/
  active : ∀ k i, s.active.get? k = some i → s.isFinished i = false → s'.active.get? k = some i
  keys : ∀ k ∈ s'.active.keys, k ∈ s.active.keys
  runningPods : ∀ pod ∈ s.runningPods.keys, pod ∈ s'.runningPods.keys
  todo : ∀ p ∈ s'.todo, p ∈ s.todo ∨ p.pod ∈ s'.runningPods.keys

variable {cfg : PodConfig} {s s' : PodSource}

/-- Every task follows itself. -/
theorem forall₂_follows (ts : List PodTask) :
    List.Forall₂ (fun t t' : PodTask => t.Follows t' ∧ t'.stopped = t.stopped) ts ts :=
  List.forall₂_same.mpr fun t _ => ⟨.flags t id, rfl⟩

/-- A step in which only the tasks go on is quiet. -/
theorem quiet_of_tasks {ts : List PodTask}
    (h : List.Forall₂ (fun t t' => t.Follows t' ∧ t'.stopped = t.stopped) s.tasks ts) :
    Quiet s { s with tasks := ts } :=
  ⟨h, fun _ _ h _ => h, fun _ => id, fun _ => id, fun _ => Or.inl⟩

/-- A step that changes nothing is quiet. -/
theorem Quiet.refl (s : PodSource) : Quiet s s := quiet_of_tasks (forall₂_follows s.tasks)

/-- A step in which one task goes on is quiet. -/
theorem quiet_updateAt {i : ℕ} {f : PodTask → PodTask}
    (h : ∀ t, s.tasks[i]? = some t → t.Follows (f t) ∧ (f t).stopped = t.stopped) :
    Quiet s (s.updateAt i f) :=
  quiet_of_tasks (List.forall₂_modify (fun t => ⟨.flags t id, rfl⟩) h)

/-- If `try_start` spawns a task, it puts it into the table and notes the pod. -/
theorem tryStart_of_spawns {p : PodStart} (todo : List PodStart) (hp : s.spawns cfg p = true) :
    { s with todo }.tryStart cfg p = { s with
      todo
      tasks := s.tasks ++ [newTask cfg p]
      active := s.active.insert (p.pod, p.container) s.tasks.length
      initialized := p.pod :: s.initialized } := if_pos hp

/-- What a step does. -/
inductive Effect (cfg : PodConfig) (s : PodSource) (l : PodLabel) (s' : PodSource) : Prop
  | quiet (h : Quiet s s')
  /-- An event stops a pod. -/
  | stops (pod : String) (initialized : List String) (hl : l.stopped? = some pod)
    (htodo : s.todo = [])
    (hs : s' = ({ s with initialized }.removePod pod).markStopped pod ∨
      pod ∉ s.runningPods.keys ∧ s' = s.markStopped pod)
  /-- `try_start` spawns a task. -/
  | spawns (p : PodStart) (todo : List PodStart) (hl : l = .start) (htodo : s.todo = p :: todo)
    (hp : s.spawns cfg p = true) (hs : s' = { s with todo }.tryStart cfg p)
  /-- A task spawns two others. -/
  | splits (i : ℕ) (t : PodTask) (ht : s.tasks[i]? = some t) (hk : t.kind = .pair)
    (hfresh : t.phase = .fresh) (haborted : t.aborted = false)
    (hs : s' = { s with
      tasks := (s.tasks.modify i fun t => { t with phase := .idle }) ++ children i t })

/-- Stopping a pod lets its tasks go on, as stopped ones. -/
theorem follows_stop (s : PodSource) (pod : String) :
    List.Forall₂ PodTask.Follows s.tasks (s.markStopped pod).tasks ∧
      List.Forall₂ PodTask.Follows s.tasks ((s.removePod pod).markStopped pod).tasks := by
  constructor
  · refine List.forall₂_mapIdx fun i t _ => ?_
    split_ifs <;> exact .flags t id
  · simp only [markStopped, update, removePod, List.mapIdx_mapIdx]
    refine List.forall₂_mapIdx fun i t _ => ?_
    simp only [Function.comp]
    split_ifs <;> exact .flags t (by simp)

/-- `Apply` and `InitApply` have the effects that `Effect` lists. -/
theorem effect_of_apply {pod : String} {running : Bool} {containers : List String}
    (h : s.step cfg (.apply pod running containers) = some s') :
    Effect cfg s (.apply pod running containers) s' := by
  rw [step] at h
  split_ifs at h with htodo hrun hex hknown
  · obtain rfl := Option.some.inj h
    exact .quiet (.refl s)
  · -- The pod is known to run before its streams are started.
    obtain rfl := Option.some.inj h
    refine .quiet ⟨forall₂_follows _, fun _ _ h _ => h, fun _ => id, fun q hq => ?_,
      fun p hp => ?_⟩
    · exact (IndexMap.mem_keys_insert ..).mpr (.inr hq)
    · obtain ⟨c, -, rfl⟩ := List.mem_map.mp hp
      exact .inr ((IndexMap.mem_keys_insert ..).mpr (.inl rfl))
  · obtain rfl := Option.some.inj h
    obtain rfl := Bool.eq_false_iff.mpr hrun
    exact .stops pod s.initialized rfl (not_not.mp htodo) (.inl rfl)
  · -- A pod that is not known to run has nothing to abort.
    obtain rfl := Option.some.inj h
    obtain rfl := Bool.eq_false_iff.mpr hrun
    exact .stops pod s.initialized rfl (not_not.mp htodo)
      (.inr ⟨fun hmem => hknown (IndexMap.contains_iff.mpr hmem), rfl⟩)

/-- The reconcile tick has the effects that `Effect` lists. -/
theorem effect_of_reconcile {order : List (String × List String)}
    (h : s.step cfg (.reconcile order) = some s') : Effect cfg s (.reconcile order) s' := by
  obtain ⟨⟨-, horder⟩, h⟩ := Option.ite_none_right_eq_some.mp h
  obtain rfl := Option.some.inj h
  refine .quiet ⟨forall₂_follows _, fun k i hi hf => ?_, fun k hk => ?_, fun _ => id,
    fun p hp => ?_⟩
  · rw [IndexMap.get?_filter, hi, Option.filter_some, hf]
    rfl
  · obtain ⟨i, hi⟩ := IndexMap.mem_keys_iff.mp hk
    rw [IndexMap.get?_filter] at hi
    exact IndexMap.mem_keys_of_get? (Option.filter_eq_some_iff.mp hi).1
  · -- It goes through the pods that are known to run.
    obtain ⟨e, he, hp⟩ := List.mem_flatMap.mp hp
    obtain ⟨c, -, rfl⟩ := List.mem_map.mp hp
    have hmem := (List.isPerm_iff.mp horder).mem_iff.mp he
    exact .inr (List.mem_map.mpr ⟨e, hmem, rfl⟩)

/-- Every step has the effects that `Effect` lists. -/
theorem effect_of_step {l : PodLabel} (h : s.step cfg l = some s') : Effect cfg s l s' := by
  cases l with
  | apply pod running containers => exact effect_of_apply h
  | delete pod =>
    rw [step] at h
    split_ifs at h with htodo
    obtain rfl := Option.some.inj h
    exact .stops pod _ rfl (not_not.mp htodo) (.inl rfl)
  | init | initDone =>
    rw [step] at h
    split_ifs at h with htodo
    obtain rfl := Option.some.inj h
    exact .quiet (.refl s)
  | reconcile order => exact effect_of_reconcile h
  | start =>
    rw [step] at h
    split at h
    · cases h
    · next p todo htodo =>
      obtain rfl := Option.some.inj h
      by_cases hp : s.spawns cfg p = true
      · exact .spawns p todo rfl htodo hp rfl
      · -- The container is in the table, or there is no permit.
        have hnone : { s with todo }.tryStart cfg p = { s with todo } := if_neg hp
        rw [hnone]
        exact .quiet ⟨forall₂_follows _, fun _ _ h _ => h, fun _ => id, fun _ => id, fun q hq =>
          .inl (htodo ▸ List.mem_cons_of_mem _ hq)⟩
  | poll i =>
    obtain ⟨t, ht, h⟩ := Option.bind_eq_some_iff.mp h
    obtain ⟨⟨haborted, hphase⟩, h⟩ := Option.ite_none_right_eq_some.mp h
    split at h
    · obtain rfl := Option.some.inj h
      refine .quiet (quiet_updateAt fun u hu =>
        ⟨.phase u (by decide) (fun _ => ?_) fun hd => ?_, rfl⟩)
      all_goals obtain rfl := Option.some.inj (ht.symm.trans hu)
      · exact haborted
      · rw [hd] at hphase
        simp at hphase
    · next hk =>
      obtain ⟨hfresh, h⟩ := Option.ite_none_right_eq_some.mp h
      exact .splits i t ht hk hfresh haborted (Option.some.inj h).symm
  | request i =>
    obtain ⟨t, ht, h⟩ := Option.bind_eq_some_iff.mp h
    obtain ⟨hp, h⟩ := Option.ite_none_right_eq_some.mp h
    obtain rfl := Option.some.inj h
    refine .quiet (quiet_updateAt fun u hu => ⟨⟨rfl, rfl, id, Or.inl, id, id, fun _ => ?_⟩, rfl⟩)
    obtain rfl := Option.some.inj (ht.symm.trans hu)
    exact .inr hp
  | forward i =>
    obtain ⟨t, ht, h⟩ := Option.bind_eq_some_iff.mp h
    obtain ⟨-, h⟩ := Option.ite_none_right_eq_some.mp h
    obtain rfl := Option.some.inj h
    exact .quiet (.refl s)
  | pause i =>
    obtain ⟨t, ht, h⟩ := Option.bind_eq_some_iff.mp h
    obtain ⟨hp, h⟩ := Option.ite_none_right_eq_some.mp h
    obtain rfl := Option.some.inj h
    refine .quiet (quiet_updateAt fun u hu => ⟨.phase u (by decide) nofun fun hd => ?_, rfl⟩)
    obtain rfl := Option.some.inj (ht.symm.trans hu)
    cases hp.symm.trans hd
  | finish i | drop i =>
    obtain ⟨t, ht, h⟩ := Option.bind_eq_some_iff.mp h
    obtain ⟨-, h⟩ := Option.ite_none_right_eq_some.mp h
    obtain rfl := Option.some.inj h
    exact .quiet (quiet_updateAt fun u _ => ⟨.phase u (by decide) nofun fun _ => rfl, rfl⟩)
  | select i j =>
    obtain ⟨t, ht, h⟩ := Option.bind_eq_some_iff.mp h
    obtain ⟨u, hu, h⟩ := Option.bind_eq_some_iff.mp h
    obtain ⟨-, h⟩ := Option.ite_none_right_eq_some.mp h
    obtain rfl := Option.some.inj h
    refine .quiet (quiet_of_tasks (List.forall₂_mapIdx fun k v _ => ?_))
    -- The task is done, and the sibling of the one that has ended is aborted.
    split_ifs
    · exact ⟨.phase v (by decide) nofun fun _ => rfl, rfl⟩
    · exact ⟨.flags v fun _ => rfl, rfl⟩
    · exact ⟨.flags v id, rfl⟩

end PodSource

end Vigil
