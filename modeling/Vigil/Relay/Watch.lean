import Vigil.Relay.Streams

/-!
# The pods of the cluster

kube's watcher first lists the pods (`Init`, an `InitApply` for each, `InitDone`) and then reports
their changes. When the watch is lost, it lists them again, and a pod that has been deleted in the
meantime is only missing from the new list.

`run` handles `Init` and `InitDone` without a change, so that a list adds to what is known already.
`mem_runningPods_iff` says what `running_pods` is in every run: the pods that are not excluded and
whose latest event of all shows them running. It is what it is to be, the pods whose latest event
since the last `Init` does, if and only if the list misses no pod.

A stream is kept as long as a task has its log request open, whether the table holds the task or
not. In the runs that stop pods only when all their tasks are in reach of the table, `follows_iff`
says when no stream is kept for a pod that is not in the list. In others the streams of a deleted
pod may go on although the list misses no pod (`not_follows_of_detached`).
-/

namespace Vigil

open Runs

/-! ## What the events say -/

/-- Whether an event says of the pod that it is running or that it is not. -/
def PodLabel.shows? (pod : String) : PodLabel → Option Bool
  | .apply name running _ => if name = pod then some running else none
  | .delete name => if name = pod then some false else none
  | _ => none

/-- The label is `Init`. -/
def PodLabel.isInit : PodLabel → Bool
  | .init => true
  | _ => false

/-- What the latest event of the pod says, where `hist` has the last label first. -/
def latest (pod : String) (hist : List PodLabel) : Option Bool := hist.findSome? (·.shows? pod)

/-- What has happened since the last `Init`. -/
def sinceInit (hist : List PodLabel) : List PodLabel := hist.takeWhile fun l => !l.isInit

/-- What has been said since the last `Init` is the latest. -/
theorem latest_of_sinceInit {pod : String} {hist : List PodLabel} {running : Bool}
    (h : latest pod (sinceInit hist) = some running) : latest pod hist = some running := by
  obtain ⟨rest, hrest⟩ := List.takeWhile_prefix (l := hist) fun l : PodLabel => !l.isInit
  rw [← hrest, latest, List.findSome?_append]
  exact Option.or_eq_some_iff.mpr (.inl h)

/-- Where the watcher is. -/
inductive WatchPhase
  | empty
  | listing
  | watching
  deriving DecidableEq, Repr

/-- The events that the watcher emits in a phase, and the phase after each. A list that fails is
begun again. -/
def WatchPhase.next : WatchPhase → PodLabel → Option WatchPhase
  | _, .init => some .listing
  | .listing, .apply _ _ _ => some .listing
  | .listing, .initDone => some .watching
  | .watching, .apply _ _ _ => some .watching
  | .watching, .delete _ => some .watching
  | _, .apply _ _ _ | _, .delete _ | _, .initDone => none
  | phase, _ => some phase

/-- The phase of the watcher after these labels, the last one first, if it emits the events in this
order. -/
def watchPhase : List PodLabel → Option WatchPhase
  | [] => some .empty
  | l :: hist => (watchPhase hist).bind fun phase => phase.next l

namespace PodSource

variable {cfg : PodConfig} {s s' : PodSource}

/-! ## The pods that are known to run -/

/-- Only an event changes what is known to run. -/
theorem runningPods_of_step {l : PodLabel} (h : s.step cfg l = some s')
    (hl : ∀ pod, l.shows? pod = none) : s'.runningPods = s.runningPods := by
  cases l with
  | apply pod running containers => simpa [PodLabel.shows?] using hl pod
  | delete pod => simpa [PodLabel.shows?] using hl pod
  | init | initDone | reconcile order =>
    rw [step] at h
    split_ifs at h
    obtain rfl := Option.some.inj h
    rfl
  | start =>
    rw [step] at h
    split at h
    · cases h
    · obtain rfl := Option.some.inj h
      unfold tryStart
      split_ifs <;> rfl
  | poll i =>
    obtain ⟨t, -, h⟩ := Option.bind_eq_some_iff.mp h
    obtain ⟨-, h⟩ := Option.ite_none_right_eq_some.mp h
    split at h
    · obtain rfl := Option.some.inj h
      rfl
    · split_ifs at h
      obtain rfl := Option.some.inj h
      rfl
  | request i | forward i | pause i | finish i | drop i =>
    obtain ⟨t, -, h⟩ := Option.bind_eq_some_iff.mp h
    obtain ⟨-, h⟩ := Option.ite_none_right_eq_some.mp h
    obtain rfl := Option.some.inj h
    rfl
  | select i j =>
    obtain ⟨t, -, h⟩ := Option.bind_eq_some_iff.mp h
    obtain ⟨u, -, h⟩ := Option.bind_eq_some_iff.mp h
    obtain ⟨-, h⟩ := Option.ite_none_right_eq_some.mp h
    obtain rfl := Option.some.inj h
    rfl

/-- A pod that is removed is not known to run, and the others are as they were. -/
theorem mem_keys_removePod (name pod : String) :
    pod ∈ ((s.removePod name).markStopped name).runningPods.keys ↔
      pod ≠ name ∧ pod ∈ s.runningPods.keys := by
  show pod ∈ (s.runningPods.shiftRemove name).keys ↔ _
  rw [IndexMap.mem_keys_iff, IndexMap.mem_keys_iff]
  simp only [IndexMap.get?_shiftRemove]
  split_ifs with h <;> simp [h]

/-- An event that shows a pod running makes it known, unless it is excluded. -/
theorem mem_runningPods_of_running {name : String} {containers : List String}
    (h : s.step cfg (.apply name true containers) = some s') (pod : String) :
    pod ∈ s'.runningPods.keys ↔
      pod = name ∧ cfg.excluded name = false ∨ pod ∈ s.runningPods.keys := by
  rw [step] at h
  split_ifs at h with htodo hrun hex
  · obtain rfl := Option.some.inj h
    simp [hex]
  · obtain rfl := Option.some.inj h
    rw [IndexMap.mem_keys_insert]
    simp [hex]
  · exact absurd rfl hrun
  · exact absurd rfl hrun

/-- An event that shows a pod stopped makes it unknown. -/
theorem mem_runningPods_of_not_running {name : String} {containers : List String}
    (h : s.step cfg (.apply name false containers) = some s') (pod : String) :
    pod ∈ s'.runningPods.keys ↔ pod ≠ name ∧ pod ∈ s.runningPods.keys := by
  rw [step] at h
  split_ifs at h with htodo hrun hex hknown
  · cases hrun
  · cases hrun
  · obtain rfl := Option.some.inj h
    exact mem_keys_removePod name pod
  · -- It has not been known.
    obtain rfl := Option.some.inj h
    have hnot : name ∉ s.runningPods.keys := fun hmem => hknown (IndexMap.contains_iff.mpr hmem)
    exact ⟨fun hmem => ⟨fun heq => hnot (heq ▸ hmem), hmem⟩, fun hmem => hmem.2⟩

/-- A Delete takes the pod out of those that are known to run. -/
theorem mem_runningPods_of_delete {name : String} (h : s.step cfg (.delete name) = some s')
    (pod : String) : pod ∈ s'.runningPods.keys ↔ pod ≠ name ∧ pod ∈ s.runningPods.keys := by
  rw [step] at h
  split_ifs at h
  obtain rfl := Option.some.inj h
  exact mem_keys_removePod name pod

/-- The latest event for a pod is the newest label if it shows one, and else the one before. -/
theorem latest_cons (pod : String) (l : PodLabel) (hist : List PodLabel) :
    latest pod (l :: hist) = (l.shows? pod).or (latest pod hist) := by
  unfold latest
  rw [List.findSome?_cons]
  cases l.shows? pod <;> rfl

/-- In every run, the pods that are known to run are those that are not excluded and whose latest
event of all shows them running. -/
theorem mem_runningPods_iff {G : PodSource → PodLabel → Prop} {hist : List PodLabel}
    (h : Trace (step cfg) G {} hist s) (pod : String) :
    pod ∈ s.runningPods.keys ↔ cfg.excluded pod = false ∧ latest pod hist = some true := by
  induction h with
  | refl => exact iff_of_false List.not_mem_nil (fun hnone => by cases hnone.2)
  | @tail hist s s' l _ _ hs ih =>
    rw [latest_cons]
    cases l with
    | apply name running containers =>
      by_cases hname : name = pod
      · subst hname
        cases running with
        | true =>
          rw [mem_runningPods_of_running hs, ih]
          cases cfg.excluded name <;> simp [PodLabel.shows?]
        | false =>
          rw [mem_runningPods_of_not_running hs]
          simp [PodLabel.shows?]
      · have hother : pod ≠ name := fun heq => hname heq.symm
        have hshows : (PodLabel.apply name running containers).shows? pod = none := if_neg hname
        rw [hshows, Option.none_or, ← ih]
        cases running with
        | true => rw [mem_runningPods_of_running hs, or_iff_right fun heq => hother heq.1]
        | false => rw [mem_runningPods_of_not_running hs, and_iff_right hother]
    | delete name =>
      rw [mem_runningPods_of_delete hs]
      by_cases hname : name = pod
      · subst hname
        simp [PodLabel.shows?]
      · have hother : pod ≠ name := fun heq => hname heq.symm
        have hshows : (PodLabel.delete name).shows? pod = none := if_neg hname
        rw [hshows, Option.none_or, ← ih, and_iff_right hother]
    | _ => rwa [runningPods_of_step hs (fun _ => rfl)]

/-! ## After a list -/

/-- The pod is not excluded, and its latest event since the last `Init` shows it running. -/
def Listed (cfg : PodConfig) (hist : List PodLabel) (pod : String) : Prop :=
  cfg.excluded pod = false ∧ latest pod (sinceInit hist) = some true

/-- The pods that are known to run are those of the list, and streams are kept for these only: those
in the table, and every log request that is open. -/
structure FollowsCluster (cfg : PodConfig) (hist : List PodLabel) (s : PodSource) : Prop where
  runningPods : ∀ pod, pod ∈ s.runningPods.keys ↔ Listed cfg hist pod
  active : ∀ key ∈ s.active.keys, Listed cfg hist key.1
  requests : ∀ t ∈ s.tasks, t.openRequest = true → Listed cfg hist t.start.pod

/-- The list misses no pod: every pod whose latest event of all shows it running, and that is not
excluded, has an event since the last `Init`. -/
def NoneMissed (cfg : PodConfig) (hist : List PodLabel) : Prop :=
  ∀ pod, cfg.excluded pod = false → latest pod hist = some true →
    latest pod (sinceInit hist) ≠ none

/-- The tasks that have been aborted for pods that are not known to run have been dropped, and have
no request open. -/
def dropped (s : PodSource) : Bool :=
  s.tasks.all fun t => !(t.aborted && t.openRequest) || s.runningPods.contains t.start.pod

/-- An open request is for a pod that is known to run, or it is that of a task that has been aborted
and waits to be dropped. -/
theorem mem_runningPods_of_openRequest (hi : s.Tabled) (hq : s.Quenched)
    (hdropped : s.dropped = true) {t : PodTask} (ht : t ∈ s.tasks) (hopen : t.openRequest = true) :
    t.start.pod ∈ s.runningPods.keys := by
  cases hstopped : t.stopped with
  | false => exact hi.running t ht hstopped
  | true =>
    have hdone : t.phase ≠ .done := by
      simp only [PodTask.openRequest, Bool.and_eq_true, decide_eq_true_eq] at hopen
      exact hopen.2
    have haborted := hq t ht hstopped hdone
    have hgone := List.all_eq_true.mp hdropped t ht
    rw [haborted, hopen] at hgone
    exact IndexMap.contains_iff.mp hgone

/-- Between two reconciles `InitDone` changes nothing. -/
theorem step_initDone (h : s.todo = []) : s.step cfg .initDone = some s := by
  rw [step, if_neg (not_not.mpr h)]

/-- In a run that stops pods only when their tasks are in reach of the table: after `InitDone`, the
pods that are known to run are those of the list, and streams are kept for these only, if and only
if the list misses no pod and the tasks that have been aborted for other pods have been dropped. -/
theorem follows_iff {hist : List PodLabel} (h : Trace (step cfg) InReach {} hist s)
    (hs : s.step cfg .initDone = some s') :
    FollowsCluster cfg (.initDone :: hist) s' ↔
      NoneMissed cfg (.initDone :: hist) ∧ s.dropped = true := by
  have hG : s.InReach .initDone := rfl
  have h' := h.tail hG hs
  have hsame : s' = s := by
    rw [step] at hs
    split_ifs at hs
    exact (Option.some.inj hs).symm
  subst hsame
  have htabled := tabled_of_reaches h'.reaches
  constructor
  · intro hf
    refine ⟨fun pod hex hlatest hnone => ?_, List.all_eq_true.mpr fun t ht => ?_⟩
    · -- A pod that the list misses stays known from before.
      have hknown := (mem_runningPods_iff h' pod).mpr ⟨hex, hlatest⟩
      have hlisted := ((hf.runningPods pod).mp hknown).2
      rw [hnone] at hlisted
      cases hlisted
    · cases hopen : t.aborted && t.openRequest with
      | false => rfl
      | true =>
        obtain ⟨-, hopen⟩ := Bool.and_eq_true_iff.mp hopen
        exact IndexMap.contains_iff.mpr ((hf.runningPods _).mpr (hf.requests t ht hopen))
  · rintro ⟨hmissed, hdropped⟩
    have hpods : ∀ pod, pod ∈ s'.runningPods.keys ↔ Listed cfg (.initDone :: hist) pod := by
      intro pod
      rw [mem_runningPods_iff h']
      refine and_congr_right fun hex => ⟨fun hlatest => ?_, latest_of_sinceInit⟩
      obtain ⟨running, hsince⟩ := Option.ne_none_iff_exists'.mp (hmissed pod hex hlatest)
      -- What has been said since is the latest.
      rw [hsince, ← hlatest, latest_of_sinceInit hsince]
    refine ⟨hpods, fun key hkey => (hpods key.1).mp (htabled.keys key hkey), fun t ht hopen => ?_⟩
    exact (hpods _).mp (mem_runningPods_of_openRequest htabled (quenched_of_reaches h'.reaches)
      hdropped ht hopen)

/-- A server with the stream parameter. -/
def splitConfig : PodConfig := { maxLogRequests := 0, useStreamParam := true }

/-- The two streams of a pod are read. One of them ends, so that the other one is aborted, and the
pod stops. It is not in the next list, and another pod is, one of whose streams is read. -/
def relisted : List PodLabel :=
  [.init, .apply "web" true [""], .start, .initDone, .poll 0, .poll 1, .request 1, .pause 1,
    .poll 2, .request 2, .finish 2, .select 0 2, .apply "web" false [""], .drop 1, .init,
    .apply "api" true [""], .start, .poll 3, .poll 4, .request 4]

/-- The state that `relisted` leads to. -/
def relistedEnd : PodSource := (runIf (step splitConfig) InReach {} relisted).getD {}

/-- After the second list, the other pod is the only one. -/
theorem follows_iff_relisted :
    FollowsCluster splitConfig (.initDone :: relisted.reverse) relistedEnd ↔
      NoneMissed splitConfig (.initDone :: relisted.reverse) ∧ relistedEnd.dropped = true :=
  @follows_iff splitConfig relistedEnd relistedEnd relisted.reverse
    (.getD_runIf (by decide +kernel)) (step_initDone (by decide +kernel))

/-- A pod is found, and the watch is lost. The pod is deleted, so the next list does not have it. -/
def vanished : List PodLabel := [.init, .apply "web" true [""], .start, .initDone, .init]

/-- The state that `vanished` leads to. -/
def vanishedEnd : PodSource := (runIf (step outputConfig) Always {} vanished).getD {}

/-- A pod that is deleted while the watch is lost is known to run after the next list, and its
stream is kept. -/
theorem not_follows_of_deleted : ¬ ∀ cfg hist s s', Trace (step cfg) Always {} hist s →
    watchPhase hist = some .listing → s.step cfg .initDone = some s' →
      FollowsCluster cfg (.initDone :: hist) s' := by
  intro h
  have hrun : Trace (step outputConfig) Always {} vanished.reverse vanishedEnd :=
    .getD_runIf (by decide +kernel)
  have hf := h outputConfig vanished.reverse vanishedEnd vanishedEnd hrun (by decide)
    (step_initDone (by decide +kernel))
  have hkept : ("web", "") ∈ vanishedEnd.active.keys := by decide +kernel
  have hlisted := (hf.active _ hkept).2
  revert hlisted
  decide

/-- A pod is deleted while its streams are read. The task in the table is dropped, and the one that
reads a stream goes on. -/
def detached : List PodLabel :=
  [.init, .apply "web" true [""], .start, .initDone, .poll 0, .poll 1, .request 1, .pause 1,
    .delete "web", .drop 0, .init]

/-- The state that `detached` leads to. -/
def detachedEnd : PodSource := (runIf (step splitConfig) Always {} detached).getD {}

/-- Where a pod is stopped while a task of its streams is out of reach, it is not enough that the
list misses no pod and that all aborted tasks have been dropped: the stream is kept. -/
theorem not_follows_of_detached : Trace (step splitConfig) Always {} detached.reverse detachedEnd ∧
    NoneMissed splitConfig (.initDone :: detached.reverse) ∧ detachedEnd.dropped = true ∧
      ¬FollowsCluster splitConfig (.initDone :: detached.reverse) detachedEnd := by
  have hrun : Trace (step splitConfig) Always {} detached.reverse detachedEnd :=
    .getD_runIf (by decide +kernel)
  have hnone : detachedEnd.runningPods.keys = [] := by decide +kernel
  have h' := hrun.tail trivial (step_initDone (by decide +kernel))
  refine ⟨hrun, fun pod hex hlatest _ => ?_, by decide +kernel, fun hf => ?_⟩
  · have hknown := (mem_runningPods_iff h' pod).mpr ⟨hex, hlatest⟩
    rw [hnone] at hknown
    cases hknown
  · have hany : (detachedEnd.tasks.any fun t => t.openRequest) = true := by decide +kernel
    obtain ⟨t, ht, hopen⟩ := List.any_eq_true.mp hany
    have hknown := (hf.runningPods _).mpr (hf.requests t ht hopen)
    rw [hnone] at hknown
    cases hknown

/-- A pod that the list misses is known until an event names it: every reconcile tick starts its
streams again. -/
theorem mem_todo_of_reconcile {hist : List PodLabel} (h : Trace (step cfg) Always {} hist s)
    {pod : String} (hex : cfg.excluded pod = false) (hlatest : latest pod hist = some true)
    {order : List (String × List String)} (hs : s.step cfg (.reconcile order) = some s') :
    ∃ containers, (pod, containers) ∈ order ∧
      ∀ container ∈ containers, s.startOf cfg pod container ∈ s'.todo := by
  have hknown := (mem_runningPods_iff h pod).mpr ⟨hex, hlatest⟩
  obtain ⟨containers, hget⟩ := IndexMap.mem_keys_iff.mp hknown
  obtain ⟨⟨-, hperm⟩, hs⟩ := Option.ite_none_right_eq_some.mp hs
  obtain rfl := Option.some.inj hs
  have hmem := (List.isPerm_iff.mp hperm).mem_iff.mpr (IndexMap.get?_eq_some_iff.mp hget)
  refine ⟨containers, hmem, fun container hc => ?_⟩
  exact List.mem_flatMap.mpr ⟨_, hmem, List.mem_map.mpr ⟨container, hc, rfl⟩⟩

end PodSource

end Vigil
