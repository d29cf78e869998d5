import Vigil.Relay.Pods

/-!
# The limit on log requests

`--max-log-requests` is the number of permits. A task of `try_start` takes one, and with the stream
parameter it spawns two tasks that send a request each. A task that is dropped gives its permit
back, and the two that it has spawned go on.

`openRequests_le_of_reaches` says that the limit holds as long as `try_start` spawns no task with
the stream parameter that leaves no room for two requests beside those that are open or may still be
sent. Without the parameter it holds. With it, one pod is enough to exceed a limit of one
(`exceeds_limit_of_pair`).
-/

namespace Vigil

open Runs

/-- The log requests that a task, or those that it is still to spawn, may have at a time. -/
def PodTask.weight (t : PodTask) : ℕ :=
  if t.live then
    match t.kind with
    | .pair => 2
    | .stream _ _ => 1
  else 0

namespace PodSource

variable (cfg : PodConfig) (s : PodSource)

/-- The log requests that may be open at a time if no other task is started. -/
def load : ℕ := (s.tasks.map PodTask.weight).sum

/-- A task that `try_start` spawns to send two requests finds room for them. -/
def Within (s : PodSource) (l : PodLabel) : Prop :=
  (match l, s.todo with
    | .start, p :: _ =>
      !cfg.useStreamParam || !s.spawns cfg p || s.load + 2 ≤ cfg.maxLogRequests
    | _, _ => true) = true

instance (s : PodSource) (l : PodLabel) : Decidable (Within cfg s l) :=
  inferInstanceAs (Decidable (_ = true))

variable {cfg s} {s' : PodSource}

/-- The requests that are open are among those that may be. -/
theorem openRequests_le_load : s.openRequests ≤ s.load := by
  unfold openRequests load
  induction s.tasks with
  | nil => exact le_rfl
  | cons t ts ih =>
    rw [List.countP_cons, List.map_cons, List.sum_cons]
    have hone : (if t.openRequest = true then 1 else 0) ≤ t.weight := by
      split_ifs with hopen
      · rw [PodTask.weight, if_pos (PodTask.live_of_openRequest hopen)]
        split <;> omega
      · exact Nat.zero_le _
    omega

/-- A task that is spawned counts in full. -/
theorem weight_newTask (p : PodStart) :
    (newTask cfg p).weight = if cfg.useStreamParam then 2 else 1 := by
  cases hu : cfg.useStreamParam <;> simp [newTask, PodTask.weight, PodTask.live, hu]

/-- The invariant. Without the stream parameter every task holds a permit. -/
structure InLimit (cfg : PodConfig) (s : PodSource) : Prop where
  total : s.load ≤ cfg.maxLogRequests
  single : cfg.useStreamParam = false → ∀ t ∈ s.tasks, t.kind = .stream .output none

/-- Steps of the tasks that are there keep the invariant. -/
theorem InLimit.of_follows (hi : InLimit cfg s)
    (h : List.Forall₂ PodTask.Follows s.tasks s'.tasks) : InLimit cfg s' where
  total := by
    refine le_trans (h.sum_map_le fun t t' ht => ?_) hi.total
    unfold PodTask.weight
    rw [ht.kind]
    by_cases hl : t'.live = true
    · rw [if_pos hl, if_pos (ht.live hl)]
    · rw [if_neg hl]
      exact Nat.zero_le _
  single hu t' ht' := by
    obtain ⟨t, ht, hf⟩ := h.exists_of_mem ht'
    exact hf.kind.trans (hi.single hu t ht)

/-- A task that reads both streams counts as long as it holds its permit. -/
theorem load_le_permitsHeld (h : ∀ t ∈ s.tasks, t.kind = .stream .output none) :
    s.load ≤ s.permitsHeld := by
  unfold load permitsHeld
  generalize s.tasks = ts at h ⊢
  induction ts with
  | nil => exact le_rfl
  | cons t ts ih =>
    obtain ⟨hk, hts⟩ := List.forall_mem_cons.mp h
    rw [List.countP_cons, List.map_cons, List.sum_cons]
    have hone : t.weight ≤ if (t.outer && t.phase ≠ .done) = true then 1 else 0 := by
      unfold PodTask.weight
      split_ifs with hl hheld
      · rw [hk]
      · have hdone := ((PodTask.live_of_stream hk).mp hl).1
        exact absurd (by simp [PodTask.outer, PodTask.parent?, hk, hdone]) hheld
      all_goals exact Nat.zero_le _
    have := ih hts
    omega

/-- `try_start` spawns a task for which there is room. -/
theorem InLimit.spawns (hm : 0 < cfg.maxLogRequests) (hi : InLimit cfg s) {p : PodStart}
    {todo : List PodStart} (htodo : s.todo = p :: todo) (hp : s.spawns cfg p = true)
    (hG : Within cfg s .start) : InLimit cfg ({ s with todo }.tryStart cfg p) := by
  rw [tryStart_of_spawns todo hp]
  refine ⟨?_, fun hu => List.forall_mem_append.mpr ⟨hi.single hu, ?_⟩⟩
  · have hload : ((s.tasks ++ [newTask cfg p]).map PodTask.weight).sum =
        s.load + if cfg.useStreamParam then 2 else 1 := by
      rw [List.map_append, List.sum_append, List.map_singleton, List.sum_singleton, weight_newTask,
        load]
    refine hload.trans_le ?_
    cases hu : cfg.useStreamParam with
    | true =>
      simp only [Within, htodo] at hG
      simpa [hu, hp] using hG
    | false =>
      -- The permit is the task's.
      have hpermits := load_le_permitsHeld (hi.single hu)
      have hfree : s.permitsHeld < cfg.maxLogRequests := by
        simp only [PodSource.spawns, Bool.and_eq_true, Bool.or_eq_true, decide_eq_true_eq] at hp
        omega
      simp only [Bool.false_eq_true, if_false]
      omega
  · rw [List.forall_mem_singleton, newTask, hu]
    rfl

/-- The two tasks count as much as the one that spawns them did. -/
theorem InLimit.splits (hi : InLimit cfg s) {i : ℕ} {t : PodTask} (ht : s.tasks[i]? = some t)
    (hk : t.kind = .pair) (hfresh : t.phase = .fresh) (haborted : t.aborted = false) :
    InLimit cfg { s with
      tasks := (s.tasks.modify i fun t => { t with phase := .idle }) ++ children i t } := by
  -- Without the parameter there is no such task.
  refine ⟨?_, fun hu => absurd (hi.single hu t (List.mem_of_getElem? ht)) (by simp [hk])⟩
  have hbefore : t.weight = 2 := by
    rw [PodTask.weight, if_pos ((PodTask.live_of_pair hk).mpr ⟨hfresh, haborted⟩), hk]
  have hafter : PodTask.weight { t with phase := .idle } = 0 := by
    simp [PodTask.weight, PodTask.live, hk]
  have hchildren : ((children i t).map PodTask.weight).sum = 2 := rfl
  have hsum := List.sum_map_modify (w := PodTask.weight) ht fun t => { t with phase := .idle }
  have hload := hi.total
  unfold load at hload ⊢
  dsimp only
  rw [List.map_append, List.sum_append, hchildren]
  omega

/-- A step that meets the condition keeps the invariant. -/
theorem InLimit.step (hm : 0 < cfg.maxLogRequests) (hi : InLimit cfg s) {l : PodLabel}
    (hG : Within cfg s l) (hs : s.step cfg l = some s') : InLimit cfg s' := by
  cases effect_of_step hs with
  | quiet h => exact hi.of_follows (h.tasks.imp fun _ _ ht => ht.1)
  | stops pod initialized hl htodo hs' =>
    obtain rfl | ⟨-, rfl⟩ := hs'
    · exact hi.of_follows (follows_stop { s with initialized } pod).2
    · exact hi.of_follows (follows_stop s pod).1
  | spawns p todo hl htodo hp hs' =>
    subst hl hs'
    exact hi.spawns hm htodo hp hG
  | splits i t ht hk hfresh haborted hs' =>
    subst hs'
    exact hi.splits ht hk hfresh haborted

/-- At the start there is no task. -/
theorem inLimit_start : InLimit cfg {} := ⟨Nat.zero_le _, fun _ => List.forall_mem_nil _⟩

/-- No more log requests are open than `--max-log-requests` allows, as long as no task is spawned to
send two requests where there is no room for them. -/
theorem openRequests_le_of_reaches (hm : 0 < cfg.maxLogRequests)
    (h : Reaches (step cfg) (Within cfg) {} s) : s.openRequests ≤ cfg.maxLogRequests := by
  have hi : InLimit cfg s := h.invariant inLimit_start fun _ _ _ _ hi hG hs => hi.step hm hG hs
  exact openRequests_le_load.trans hi.total

/-- A server with the stream parameter. -/
def pairConfig (maxLogRequests : ℕ) : PodConfig := { maxLogRequests, useStreamParam := true }

/-- A pod's two streams are open. One ends, the other is aborted, and the next tick starts both
again. -/
def restarted : List PodLabel :=
  [.apply "web" true [""], .start, .poll 0, .poll 1, .request 1, .poll 2, .request 2, .forward 1,
    .finish 1, .pause 2, .select 0 1, .drop 2, .reconcile [("web", [""])], .start, .poll 3, .poll 4,
    .request 4, .poll 5, .request 5]

/-- The state that `restarted` leads to. -/
def restartedEnd : PodSource :=
  (runIf (step (pairConfig 2)) (Within (pairConfig 2)) {} restarted).getD {}

/-- A limit of two leaves room for the two streams of a pod. -/
theorem openRequests_le_of_reaches_restarted : restartedEnd.openRequests ≤ 2 :=
  @openRequests_le_of_reaches (pairConfig 2) _ (by decide) (.getD_runIf (by decide +kernel))

/-- Under a limit of one, a pod has two open requests. -/
theorem exceeds_limit_of_pair : ∃ s, Reaches (step (pairConfig 1)) Always {} s ∧
    ¬s.openRequests ≤ (pairConfig 1).maxLogRequests := by
  have hrun : (runIf (step (pairConfig 1)) Always {} [.apply "web" true [""], .start, .poll 0,
      .poll 1, .request 1, .poll 2, .request 2]).any (fun s => s.openRequests = 2) = true := by
    decide +kernel
  obtain ⟨s, hs, htwo⟩ := Reaches.exists_of_runIf _ hrun
  rw [decide_eq_true_eq] at htwo
  refine ⟨s, hs, ?_⟩
  rw [htwo]
  decide

end PodSource

end Vigil
