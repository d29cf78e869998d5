import Vigil.Service.Loop

/-!
# Where signals go

`send_stop_signal`, `send_sigkill` and `send_signal` of `service/actor/signals.rs` take the process
that the actor holds. In any run, with any commands, exits and timers, this is the process that was
spawned last, and the actor has not collected its exit (`Loop.target_of_reaches`). This does not
depend on the actor having one process at a time. If a process is spawned beside another one, the
first of them gets no signal any more, and its exit is never collected.
-/

namespace Vigil

open Actor (Effect)
open Runs

/-- The process that a signal or the collection of an exit is for. -/
def Actor.Effect.target? : Effect → Option ℕ
  | .stopSignalled p _ | .killed p | .signalled p _ | .collected p => some p
  | _ => none

/-- The process that is spawned. -/
def Actor.Effect.spawned? : Effect → Option ℕ
  | .spawned p _ => some p
  | _ => none

/-- The processes that have been spawned, the newest first. -/
def spawnedIn (done : List Effect) : List ℕ := done.filterMap Effect.spawned?

/-- What has been done, the newest first: processes are spawned in the order of their numbers, and
signals and collections are for the newest one, before its exit is collected. -/
inductive Lived : List Effect → Prop
  | nil : Lived []
  | spawned {done : List Effect} (h : Lived done) (spec : SpawnSpec) :
    Lived (.spawned (spawnedIn done).length spec :: done)
  | target {done : List Effect} (h : Lived done) {e : Effect} {p : ℕ} (he : e.target? = some p)
    (hp : (spawnedIn done).head? = some p) (hnot : .collected p ∉ done) : Lived (e :: done)
  | other {done : List Effect} (h : Lived done) {e : Effect} (ht : e.target? = none)
    (hs : e.spawned? = none) : Lived (e :: done)

/-- A signal or a collection spawns nothing. -/
theorem Actor.Effect.spawned?_of_target? {e : Effect} {p : ℕ} (h : e.target? = some p) :
    e.spawned? = none := by
  cases e with
  | spawned => cases h
  | _ => rfl

/-- What has been done up to some time was in order. -/
theorem Lived.of_append {later older : List Effect} (h : Lived (later ++ older)) :
    Lived older := by
  induction later with
  | nil => exact h
  | cons e later ih =>
    cases h with
    | spawned h | target h | other h => exact ih h

/-- The newest effect spawns the next process, or is for the last one before its exit is
collected. -/
theorem Lived.newest {e : Effect} {older : List Effect} (h : Lived (e :: older)) :
    (∀ p, e.spawned? = some p → p = (spawnedIn older).length) ∧
      ∀ p, e.target? = some p →
        (spawnedIn older).head? = some p ∧ Effect.collected p ∉ older := by
  cases h with
  | spawned _ spec => exact ⟨fun p hp => (Option.some.inj hp).symm, fun p hp => by cases hp⟩
  | target _ hq hhead hnot =>
    refine ⟨fun p hp => ?_, fun p hp => ?_⟩
    · rw [Effect.spawned?_of_target? hq] at hp
      cases hp
    · obtain rfl := Option.some.inj (hq.symm.trans hp)
      exact ⟨hhead, hnot⟩
  | other _ ht hs =>
    exact ⟨fun p hp => (by rw [hs] at hp; cases hp), fun p hp => (by rw [ht] at hp; cases hp)⟩

/-- What an actor holds, and what has been done before. -/
structure Holding (a : Actor) (done : List Effect) : Prop where
  lived : Lived done
  spawned : spawnedIn done = (List.range a.spawned).reverse
  child : ∀ p, a.child = some p → (spawnedIn done).head? = some p ∧ Effect.collected p ∉ done
  collected : ∀ p, Effect.collected p ∈ done → p < a.spawned

namespace Holding

variable {a a' : Actor} {done : List Effect}

/-- A new actor holds no process, and nothing has been done. -/
theorem new (name : String) (config : ServiceConfig) : Holding (.new name config) [] where
  lived := .nil
  spawned := rfl
  child p hp := by cases hp
  collected p hp := by cases hp

/-- A process that is held has been spawned. -/
theorem lt_spawned (h : Holding a done) {p : ℕ} (hp : a.child = some p) : p < a.spawned := by
  have hmem := List.mem_of_head? (h.child p hp).1
  rw [h.spawned, List.mem_reverse, List.mem_range] at hmem
  exact hmem

/-- An action without an effect leaves what is held and what has been done in agreement. -/
theorem silent (h : Holding a done) (hchild : a'.child = a.child)
    (hspawned : a'.spawned = a.spawned) : Holding a' done :=
  ⟨h.lived, by rw [hspawned]; exact h.spawned, by rw [hchild]; exact h.child,
    by rw [hspawned]; exact h.collected⟩

/-- An effect that is about no process. -/
theorem other (h : Holding a done) {e : Effect} (ht : e.target? = none) (hs : e.spawned? = none)
    (hchild : a'.child = a.child) (hspawned : a'.spawned = a.spawned) :
    Holding a' (e :: done) := by
  have hspawnedIn : spawnedIn (e :: done) = spawnedIn done := List.filterMap_cons_none hs
  have hmem {p : ℕ} (hp : Effect.collected p ∈ e :: done) : Effect.collected p ∈ done := by
    rcases List.mem_cons.mp hp with rfl | hp
    · cases ht
    · exact hp
  refine ⟨h.lived.other ht hs, ?_, fun p hp => ?_, fun p hp => ?_⟩
  · rw [hspawnedIn, hspawned, h.spawned]
  · rw [hspawnedIn]
    rw [hchild] at hp
    exact ⟨(h.child p hp).1, fun hcollected => (h.child p hp).2 (hmem hcollected)⟩
  · rw [hspawned]
    exact h.collected p (hmem hp)

/-- A signal to the process that is held. -/
theorem signal (h : Holding a done) {e : Effect} {p : ℕ} (ht : e.target? = some p)
    (hne : ∀ q, e ≠ .collected q) (hp : a.child = some p) : Holding a (e :: done) := by
  have hspawnedIn : spawnedIn (e :: done) = spawnedIn done :=
    List.filterMap_cons_none (Effect.spawned?_of_target? ht)
  have hmem {q : ℕ} (hq : Effect.collected q ∈ e :: done) : Effect.collected q ∈ done :=
    (List.mem_cons.mp hq).resolve_left fun heq => hne q heq.symm
  obtain ⟨hhead, hnot⟩ := h.child p hp
  refine ⟨h.lived.target ht hhead hnot, hspawnedIn.trans h.spawned, fun q hq => ?_,
    fun q hq => h.collected q (hmem hq)⟩
  rw [hspawnedIn]
  exact ⟨(h.child q hq).1, fun hcollected => (h.child q hq).2 (hmem hcollected)⟩

/-- The exit of the process that is held is collected. -/
theorem collect (h : Holding a done) (hchild : a'.child = none)
    (hspawned : a'.spawned = a.spawned) :
    Holding a' ((a.child.map Effect.collected).toList ++ done) := by
  cases hp : a.child with
  | none => exact h.silent (hchild.trans hp.symm) hspawned
  | some p =>
    obtain ⟨hhead, hnot⟩ := h.child p hp
    refine ⟨h.lived.target rfl hhead hnot, ?_, fun q hq => ?_, fun q hq => ?_⟩
    · rw [hspawned]
      exact h.spawned
    · rw [hchild] at hq
      cases hq
    · rw [hspawned]
      rcases List.mem_cons.mp hq with hq | hq
      · cases hq
        exact h.lt_spawned hp
      · exact h.collected q hq

/-- An action leaves what is held and what has been done in agreement. -/
theorem exec (h : Holding a done) (i : Instr) :
    Holding (a.exec i) ((a.effect i).toList ++ done) := by
  cases i with
  | spawn =>
    have hlength : (spawnedIn done).length = a.spawned := by
      rw [h.spawned, List.length_reverse, List.length_range]
    have hspawnedIn : spawnedIn (.spawned a.spawned a.config.spawnSpec :: done) =
        a.spawned :: spawnedIn done := rfl
    have hnot : Effect.collected a.spawned ∉ done := fun hmem =>
      absurd (h.collected _ hmem) (Nat.lt_irrefl _)
    refine ⟨?_, ?_, fun p hp => ?_, fun p hp => ?_⟩
    · have hlived := h.lived.spawned a.config.spawnSpec
      rw [hlength] at hlived
      exact hlived
    · show spawnedIn (.spawned a.spawned a.config.spawnSpec :: done) = _
      rw [hspawnedIn, h.spawned]
      show _ = (List.range (a.spawned + 1)).reverse
      rw [List.range_succ, List.reverse_concat]
    · obtain rfl := Option.some.inj hp
      refine ⟨rfl, fun hmem => ?_⟩
      rcases List.mem_cons.mp hmem with hmem | hmem
      · cases hmem
      · exact hnot hmem
    · rcases List.mem_cons.mp hp with hp | hp
      · cases hp
      · exact (h.collected p hp).trans (Nat.lt_succ_self _)
  | collect | wait => exact h.collect rfl rfl
  | stopSignal | sigkill | signal =>
    cases hp : a.child with
    | none =>
      simp only [Actor.effect, hp]
      exact h.silent rfl rfl
    | some p =>
      simp only [Actor.effect, hp]
      exact h.signal rfl (fun q heq => by cases heq) hp
  | transition | enter | reply => exact h.other rfl rfl rfl rfl
  | _ => exact h.silent rfl rfl

end Holding

variable {name : String} {config : ServiceConfig} {now : ℕ} {s : Loop}

/-- In every state of a run, what is held and what has been done agree. -/
theorem Loop.holding_of_reaches (h : Reaches Loop.step Always (Loop.init name config now) s) :
    Holding s.task.actor s.task.done := by
  refine h.invariant (P := fun s : Loop => Holding s.task.actor s.task.done) (.new name config)
    fun s l s' _ hs _ hstep => ?_
  rcases Loop.step_cases hstep with ⟨d, rfl, rfl⟩ | ⟨t, rfl, ht, rfl⟩ | ⟨t, rfl, ht, rfl⟩ |
    ⟨inp, t, rfl, ht, rfl⟩
  · exact hs
  · obtain ⟨-, i, rest, -, -, rfl⟩ := Task.act_eq_some_iff.mp ht
    show Holding _ (Task.done _)
    rw [Task.done_perform]
    exact hs.exec i
  · obtain ⟨k, -, rfl⟩ := Task.deliver_eq_some_iff.mp ht
    exact hs
  · obtain ⟨-, -, rfl⟩ := Task.take_eq_some_iff.mp ht
    exact hs

/-- Whatever commands, exits, spawn failures and timers come, and in whatever order: the processes
of an actor are spawned in the order of their numbers, and a signal, or the collection of an exit,
is for the process that has been spawned last, and comes before its exit has been collected. -/
theorem Loop.target_of_reaches (h : Reaches Loop.step Always (Loop.init name config now) s)
    {later older : List Effect} {e : Effect} (hdone : s.task.done = later ++ e :: older) :
    (∀ p, e.spawned? = some p → p = (spawnedIn older).length) ∧
      ∀ p, e.target? = some p →
        (spawnedIn older).head? = some p ∧ Effect.collected p ∉ older := by
  have hlived := (Loop.holding_of_reaches h).lived
  rw [hdone] at hlived
  exact hlived.of_append.newest

/-- A service is started in `Backoff`, and its backoff timer elapses behind the new process. A
signal is forwarded. -/
def startedTwice : List Loop.Label :=
  [.input (.cmd .start true), .act, .deliver, .act, .act, .act, .deliver, .act, .act, .act,
    .input (.childExit false true), .act, .deliver, .act, .act, .act, .act, .deliver, .act,
    .input (.cmd .start true), .act, .deliver, .act, .act, .act, .deliver, .act, .act, .act,
    .tick 500, .input (.backoffExpired true), .act, .deliver, .act, .act, .act, .deliver, .act,
    .act, .input (.cmd (.forwardSignal .sighup) true), .act]

/-- The last effect is for the third process, although the second one runs. -/
theorem Loop.target_of_startedTwice : ∃ (s : Loop) (e : Effect) (older : List Effect),
    s.task.done = e :: older ∧ e.target? = some 2 ∧ spawnedIn older = [2, 1, 0] ∧
      (spawnedIn older).head? = some 2 ∧ Effect.collected 2 ∉ older := by
  have hrun : (runIf Loop.step Always (Loop.init "web" { command := some "/bin/web" } 0)
      startedTwice).any (fun s : Loop => s.task.done.head?.bind Effect.target? = some 2 &&
        spawnedIn s.task.done.tail = [2, 1, 0]) = true := by
    decide +kernel
  obtain ⟨s, hr, hs⟩ := Reaches.exists_of_runIf _ hrun
  simp only [Bool.and_eq_true, decide_eq_true_eq] at hs
  cases hdone : s.task.done with
  | nil =>
    rw [hdone] at hs
    exact absurd hs.1 (by simp)
  | cons e older =>
    rw [hdone] at hs
    have htarget : e.target? = some 2 := hs.1
    exact ⟨s, e, older, hdone, htarget, hs.2,
      (Loop.target_of_reaches hr (hdone.trans (List.nil_append _).symm)).2 2 htarget⟩

end Vigil
