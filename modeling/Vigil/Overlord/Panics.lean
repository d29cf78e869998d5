import Vigil.Overlord.Checks

/-!
# Panics

What a configuration may do to the daemon's tasks. Two calls on the way from a plan to its running
panic on some arguments, and nothing between the layer files and the calls looks at the values: the
queue of the alerts, a `channel` of the configured depth, and a check's timer, an `interval` of the
configured period. The first takes the overlord's task down, the second the check's actor. The
services' actors make no such call: the backoff is computed with a float and a saturating cast, and
their timers may be zero.
-/

namespace Vigil

/-- The largest capacity of a tokio channel, `Semaphore::MAX_PERMITS` with a 64-bit `usize`. -/
def maxPermits : ℕ := u64Max / 8

/-- `mpsc::channel`: the capacity of the channel, or nothing where it panics. -/
def channel (capacity : ℕ) : Option ℕ :=
  if 0 < capacity ∧ capacity ≤ maxPermits then some capacity else none

/-- `tokio::time::interval`: the period of the timer, or nothing where it panics. -/
def interval (period : ℕ) : Option ℕ := if period = 0 then none else some period

/-- `DEFAULT_DELIVERY_QUEUE` and the configured depth of the alerts' queue. -/
def MergedPlan.queueDepth (p : MergedPlan) : ℕ := p.alertQueueDepth.getD 256

/-- `DEFAULT_DELIVERY_AGE` and the configured age, in seconds. -/
def MergedPlan.maxAgeSecs (p : MergedPlan) : ℕ := durationOr p.alertMaxQueueTime 60000 / 1000

/-- The queue of an `AlertSender`. -/
structure AlertQueue where
  queueDepth : ℕ
  maxAgeSecs : ℕ

/-- `with_queue_limits`, or nothing where it panics. -/
def AlertQueue.withQueueLimits (queueDepth maxAgeSecs : ℕ) : Option AlertQueue :=
  (channel queueDepth).map fun queueDepth => { queueDepth, maxAgeSecs }

/-- `update_queue_limits`, or nothing where it panics. -/
def AlertQueue.updateQueueLimits (q : AlertQueue) (queueDepth maxAgeSecs : ℕ) : Option AlertQueue :=
  if queueDepth = q.queueDepth then some { q with maxAgeSecs }
  else (channel queueDepth).map fun queueDepth => { queueDepth, maxAgeSecs }

/-- The timer of a check's actor after its delay, or nothing where it panics. -/
def CheckActor.timer (a : CheckActor) : Option ℕ := interval a.config.periodMs

/-- What the overlord has made of the plans that it has applied. -/
structure Applied where
  queue : AlertQueue
  registry : CheckRegistry

namespace Applied

/-- `overlord::spawn` and the first `sync_actors`, or nothing where the overlord panics. -/
def spawn (plan : MergedPlan) : Option Applied :=
  (AlertQueue.withQueueLimits plan.queueDepth plan.maxAgeSecs).map fun queue =>
    { queue, registry := .start plan }

/-- `reload_layers`, or nothing where the overlord panics. -/
def reload (a : Applied) (plan : MergedPlan) : Option Applied :=
  (a.queue.updateQueueLimits plan.queueDepth plan.maxAgeSecs).map fun queue =>
    { queue, registry := a.registry.reload plan }

/-- The first plan and some reloads, or nothing where the overlord panics at one of them. -/
def run (plan : MergedPlan) (plans : List MergedPlan) : Option Applied :=
  (spawn plan).bind fun a => plans.foldlM reload a

/-- The overlord has applied the plans, and all check actors that it has spawned on the way start
their timers. -/
def Unharmed (plan : MergedPlan) (plans : List MergedPlan) : Prop :=
  ∃ a, run plan plans = some a ∧ ∀ actor ∈ a.registry.actors, actor.timer ≠ none

/-- The alerts' queue may have the depth that the plan says. -/
def Queues (p : MergedPlan) : Prop := 0 < p.queueDepth ∧ p.queueDepth ≤ maxPermits

/-- The alerts' queue has a depth that a channel may have. -/
def Open (a : Applied) : Prop := 0 < a.queue.queueDepth ∧ a.queue.queueDepth ≤ maxPermits

/-! ## The queue -/

/-- A channel is made where the capacity is in its bounds. -/
theorem channel_eq_some_iff {n m : ℕ} : channel n = some m ↔ (0 < n ∧ n ≤ maxPermits) ∧ n = m := by
  unfold channel
  split_ifs with h <;> simp [h]

/-- The overlord starts if the first plan's queue is in bounds. -/
theorem spawn_eq_some_iff {plan : MergedPlan} {a : Applied} : spawn plan = some a ↔
    Queues plan ∧ a = ⟨⟨plan.queueDepth, plan.maxAgeSecs⟩, .start plan⟩ := by
  unfold spawn AlertQueue.withQueueLimits Queues
  constructor
  · intro h
    obtain ⟨q, hq, rfl⟩ := Option.map_eq_some_iff.mp h
    obtain ⟨d, hd, rfl⟩ := Option.map_eq_some_iff.mp hq
    obtain ⟨hb, rfl⟩ := channel_eq_some_iff.mp hd
    exact ⟨hb, rfl⟩
  · rintro ⟨hb, rfl⟩
    rw [channel_eq_some_iff.mpr ⟨hb, rfl⟩]
    rfl

/-- A queue in bounds survives a reload if the new plan's is, and only then. -/
theorem reload_eq_some_iff {a b : Applied} {plan : MergedPlan}
    (h : a.Open) : a.reload plan = some b ↔
      Queues plan ∧ b = ⟨⟨plan.queueDepth, plan.maxAgeSecs⟩, a.registry.reload plan⟩ := by
  unfold reload AlertQueue.updateQueueLimits Queues
  by_cases heq : plan.queueDepth = a.queue.queueDepth
  · -- The channel is kept.
    rw [if_pos heq, Option.map_some, Option.some.injEq, heq]
    exact ⟨fun hb => ⟨h, hb.symm⟩, fun hb => hb.2.symm⟩
  · rw [if_neg heq]
    constructor
    · intro hb
      obtain ⟨q, hq, rfl⟩ := Option.map_eq_some_iff.mp hb
      obtain ⟨d, hd, rfl⟩ := Option.map_eq_some_iff.mp hq
      obtain ⟨hbound, rfl⟩ := channel_eq_some_iff.mp hd
      exact ⟨hbound, rfl⟩
    · rintro ⟨hbound, rfl⟩
      rw [channel_eq_some_iff.mpr ⟨hbound, rfl⟩]
      rfl

/-- Reloads succeed only where every plan's queue is in bounds. -/
theorem of_foldlM_reload {a b : Applied} {plans : List MergedPlan}
    (h : a.Open) :
    plans.foldlM reload a = some b → (∀ p ∈ plans, Queues p) ∧
      b.registry = plans.foldl CheckRegistry.reload a.registry := by
  induction plans generalizing a with
  | nil =>
    intro hb
    obtain rfl := Option.some.inj hb
    exact ⟨by simp, rfl⟩
  | cons p plans ih =>
    intro hb
    obtain ⟨c, hc, hb⟩ := Option.bind_eq_some_iff.mp hb
    obtain ⟨hp, rfl⟩ := (reload_eq_some_iff h).mp hc
    have hopen : Open ⟨⟨p.queueDepth, p.maxAgeSecs⟩, a.registry.reload p⟩ := hp
    obtain ⟨hall, hreg⟩ := ih hopen hb
    exact ⟨List.forall_mem_cons.mpr ⟨hp, hall⟩, hreg⟩

/-- Reloads succeed where every plan's queue is in bounds. -/
theorem exists_foldlM_reload {a : Applied} {plans : List MergedPlan}
    (h : a.Open) (hall : ∀ p ∈ plans, Queues p) :
    ∃ b, plans.foldlM reload a = some b := by
  induction plans generalizing a with
  | nil => exact ⟨a, rfl⟩
  | cons p plans ih =>
    obtain ⟨hp, hrest⟩ := List.forall_mem_cons.mp hall
    have hc := (reload_eq_some_iff h).mpr ⟨hp, rfl⟩
    have hopen : Open ⟨⟨p.queueDepth, p.maxAgeSecs⟩, a.registry.reload p⟩ := hp
    obtain ⟨b, hb⟩ := ih hopen hrest
    exact ⟨b, Option.bind_eq_some_iff.mpr ⟨_, hc, hb⟩⟩

/-- The overlord applies a sequence of plans where every plan's queue is in bounds, and only
there. -/
theorem run_iff (plan : MergedPlan) (plans : List MergedPlan) (P : CheckRegistry → Prop) :
    (∃ a, run plan plans = some a ∧ P a.registry) ↔
      (∀ p ∈ plan :: plans, Queues p) ∧ P (CheckRegistry.after plan plans) := by
  rw [List.forall_mem_cons]
  constructor
  · rintro ⟨b, hb, hP⟩
    obtain ⟨a, ha, hb⟩ := Option.bind_eq_some_iff.mp hb
    obtain ⟨hp, rfl⟩ := spawn_eq_some_iff.mp ha
    have hopen : Open ⟨⟨plan.queueDepth, plan.maxAgeSecs⟩, .start plan⟩ := hp
    obtain ⟨hall, hreg⟩ := of_foldlM_reload hopen hb
    rw [hreg] at hP
    exact ⟨⟨hp, hall⟩, hP⟩
  · rintro ⟨⟨hp, hall⟩, hP⟩
    have ha := spawn_eq_some_iff.mpr ⟨hp, rfl⟩
    have hopen : Open ⟨⟨plan.queueDepth, plan.maxAgeSecs⟩, .start plan⟩ := hp
    obtain ⟨b, hb⟩ := exists_foldlM_reload hopen hall
    obtain ⟨-, hreg⟩ := of_foldlM_reload hopen hb
    refine ⟨b, Option.bind_eq_some_iff.mpr ⟨_, ha, hb⟩, ?_⟩
    rw [hreg]
    exact hP

end Applied

/-! ## The timers -/

namespace CheckRegistry

/-- The configurations of all actors that have been spawned. -/
def configs (s : CheckRegistry) : List CheckConfig := s.actors.map CheckActor.config

/-- Telling an actor to end spawns none. -/
@[simp] theorem configs_retire (s : CheckRegistry) (name : String) (e : CheckEntry) :
    (s.retire name e).configs = s.configs := by
  refine List.ext_getElem? fun i => ?_
  simp only [configs, retire, List.getElem?_map, List.getElem?_modify]
  cases s.actors[i]? with
  | none => simp
  | some a => by_cases h : e.id = i <;> simp [h]

/-- A new actor has the configuration that it is spawned with. -/
@[simp] theorem configs_spawn (s : CheckRegistry) (name : String) (config : CheckConfig) :
    (s.spawn name config).configs = s.configs ++ [config] := by
  simp [configs, spawn]

variable (Q : CheckConfig → Prop)

/-- What holds of the configurations of all actors after a check's turn: it held before, and holds
of the check's if that is enabled. -/
theorem forall_configs_syncCheck {s : CheckRegistry} (hs : s.Coherent) (e : String × CheckConfig) :
    (∀ c ∈ (s.syncCheck e).configs, Q c) ↔
      (∀ c ∈ s.configs, Q c) ∧ (e.2.startup = .enabled → Q e.2) := by
  unfold syncCheck
  by_cases hdis : e.2.startup = .disabled
  · simp [hdis]
  · have hen : e.2.startup = .enabled := by
      cases hst : e.2.startup with
      | disabled => exact absurd hst hdis
      | enabled => rfl
    rw [if_neg hdis]
    simp only [hen, forall_const]
    cases hentry : s.checks.get? e.1 with
    | none =>
      simp only [configs_spawn, List.mem_append, List.mem_singleton, or_imp, forall_and, forall_eq]
    | some entry =>
      simp only
      split_ifs with heq
      · -- The actor that goes on has the check's configuration.
        obtain ⟨a, -, ha, -, hconfig⟩ := hs.actorOf_eq hentry
        have hmem : e.2 ∈ s.configs :=
          List.mem_map.mpr ⟨a, List.mem_of_getElem? ha.1, hconfig.trans heq⟩
        exact ⟨fun h => ⟨h, h _ hmem⟩, fun h => h.1⟩
      · simp only [configs_spawn, configs_retire, List.mem_append, List.mem_singleton, or_imp,
          forall_and, forall_eq]

/-- After the turns of some checks, all configurations that have been spawned meet a condition if
those before and those of the enabled checks do, and only then. -/
theorem forall_configs_foldl_syncCheck {s : CheckRegistry} (hs : s.Coherent)
    (es : List (String × CheckConfig)) :
    (∀ c ∈ (es.foldl syncCheck s).configs, Q c) ↔
      (∀ c ∈ s.configs, Q c) ∧ ∀ e ∈ es, e.2.startup = .enabled → Q e.2 := by
  induction es generalizing s with
  | nil => simp
  | cons e es ih =>
    rw [List.foldl_cons, ih (hs.syncCheck e).2.1, forall_configs_syncCheck Q hs,
      List.forall_mem_cons, and_assoc]

/-- Ending actors leaves the configurations that have been spawned as they are. -/
theorem configs_foldl_retire (s : CheckRegistry) (es : List (String × CheckEntry)) :
    (es.foldl (fun s e => s.retire e.1 e.2) s).configs = s.configs := by
  induction es generalizing s with
  | nil => rfl
  | cons e es ih => rw [List.foldl_cons, ih, configs_retire]

/-- Whether all enabled checks of a plan meet a condition may be asked of its map's entries or of
its lookups. -/
theorem forall_entries_iff (p : MergedPlan) :
    (∀ e ∈ p.checks.entries, e.2.startup = .enabled → Q e.2) ↔
      ∀ name c, p.checks.get? name = some c → c.startup = .enabled → Q c := by
  simp only [IndexMap.get?_eq_some_iff, Prod.forall]

/-- What holds of the configurations of all actors after a sequence of reloads holds of the enabled
checks of all plans. -/
theorem forall_configs_foldl_reload {s : CheckRegistry} (hs : s.Coherent)
    (plans : List MergedPlan) :
    (∀ c ∈ (plans.foldl reload s).configs, Q c) ↔ (∀ c ∈ s.configs, Q c) ∧
      ∀ p ∈ plans, ∀ name c, p.checks.get? name = some c → c.startup = .enabled → Q c := by
  induction plans generalizing s with
  | nil => simp
  | cons p plans ih =>
    have hp : Coherent { s with plan := p } := ⟨hs.entry, hs.live⟩
    rw [List.foldl_cons, ih (hs.reload p).2.1, List.forall_mem_cons, ← and_assoc]
    refine and_congr_left fun _ => ?_
    rw [reload, configs_foldl_retire, ← forall_entries_iff]
    exact forall_configs_foldl_syncCheck Q hp p.checks.entries

/-- All actors of a sequence of plans start their timers if every enabled check of every plan has a
period, and only then. -/
theorem forall_timer_iff (plan : MergedPlan) (plans : List MergedPlan) :
    (∀ a ∈ (after plan plans).actors, a.timer ≠ none) ↔ ∀ p ∈ plan :: plans, Ticks p := by
  have htimer : (∀ a ∈ (after plan plans).actors, a.timer ≠ none) ↔
      ∀ c ∈ (after plan plans).configs, c.periodMs ≠ 0 := by
    simp [configs, CheckActor.timer, interval]
  have hstart : (∀ c ∈ (start plan).configs, c.periodMs ≠ 0) ↔ Ticks plan := by
    refine (forall_configs_foldl_syncCheck _ (coherent_empty plan) _).trans ?_
    refine (and_iff_right (by simp [configs])).trans ?_
    exact forall_entries_iff (fun c => c.periodMs ≠ 0) plan
  rw [htimer, after, forall_configs_foldl_reload _ (coherent_start plan).2.1, hstart,
    List.forall_mem_cons]
  rfl

end CheckRegistry

/-- No task panics over a sequence of plans exactly when every plan's queue depth is at least one
and at most the largest capacity of a channel, and every enabled check of every plan has a period
that is not zero. -/
theorem Applied.unharmed_iff (plan : MergedPlan) (plans : List MergedPlan) :
    Unharmed plan plans ↔
      ∀ p ∈ plan :: plans, Queues p ∧ CheckRegistry.Ticks p := by
  unfold Unharmed
  rw [run_iff plan plans fun s => ∀ actor ∈ s.actors, actor.timer ≠ none,
    CheckRegistry.forall_timer_iff]
  exact ⟨fun h p hp => ⟨h.1 p hp, h.2 p hp⟩, fun h =>
    ⟨fun p hp => (h p hp).1, fun p hp => (h p hp).2⟩⟩

/-- A queue depth of zero takes the overlord down at a reload, and a period of zero a check's
actor. -/
theorem Applied.not_unharmed :
    ¬Unharmed {} [{ alertQueueDepth := some 0 }] ∧
      ¬Unharmed { checks :=
        ⟨[("c", { startup := .enabled, period := some "0s" })], by simp⟩ } [] := by
  refine ⟨?_, ?_⟩
  · rintro ⟨a, ha, -⟩
    cases ha
  · rintro ⟨a, ha, htimer⟩
    obtain rfl := Option.some.inj ha
    exact htimer _ List.mem_cons_self (by decide +kernel)

end Vigil
