import Vigil.Lib.Runs
import Vigil.Overlord.Checks

/-!
# The processes of exec probes

The tick loop of `check/actor/mod.rs` and `probe_exec`, as far as they start processes, next to the
overlord that spawns and ends the actors.

A probe's process is owned by the future that waits for it. When the timeout drops the future, the
process is not killed, and the actor goes on to its next tick. An actor that is told to end during a
probe finishes the probe first, while the overlord may spawn its successor at once.
`atMostOne_of_reaches` says that these are the two ways in which a check comes to have two processes
alive.
-/

namespace Vigil.Check

open Runs

/-! ## The system -/

/-- Where an actor is. -/
inductive Phase
  /-- Before its first tick. -/
  | delay
  /-- In the `select!` of its loop. -/
  | idle
  /-- In `perform`, with the process that the probe has started, if any. -/
  | probing (process : Option ℕ)
  | ended
  deriving DecidableEq

/-- A process that a probe has started. -/
structure Probe where
  check : String
  alive : Bool := true
  deriving DecidableEq

/-- The overlord's checks, the phases of their actors, and the processes in the order of their
start. -/
structure Probes where
  registry : CheckRegistry
  phase : ℕ → Phase := fun _ => .delay
  procs : List Probe := []

/-- What happens. -/
inductive ProbesLabel
  /-- The overlord has a new plan. -/
  | load (plan : MergedPlan)
  /-- A check's turn in `sync_actors`. -/
  | sync (name : String)
  /-- The overlord tells a check's actor to end: the plan no longer has the check, or vigild shuts
  down. -/
  | retire (name : String)
  /-- The delay before an actor's first tick is over. -/
  | elapse (i : ℕ)
  /-- An actor receives the shutdown. -/
  | finish (i : ℕ)
  /-- An actor's tick fires. Where it probes with a command, the process is started or not. -/
  | tick (i : ℕ) (started : Bool)
  /-- A process exits. -/
  | exit (p : ℕ)
  /-- A probe returns before its timeout. -/
  | answer (i : ℕ)
  /-- The timeout drops the future of a probe. -/
  | timeout (i : ℕ)

namespace Probes

variable (s : Probes)

/-- The overlord's task before its first `sync_actors`. -/
def start (plan : MergedPlan) : Probes := { registry := { plan } }

/-- An actor in a new phase. -/
def setPhase (i : ℕ) (phase : Phase) : Probes := { s with phase := Function.update s.phase i phase }

/-- A process is alive. -/
def isAlive (p : ℕ) : Bool := (s.procs[p]?.map Probe.alive).getD false

/-- One step. -/
def step : ProbesLabel → Option Probes
  | .load plan => some { s with registry := { s.registry with plan } }
  | .sync name => do
    let config ← s.registry.plan.checks.get? name
    some { s with registry := s.registry.syncCheck (name, config) }
  | .retire name => do
    let entry ← s.registry.checks.get? name
    some { s with registry := s.registry.retire name entry }
  | .elapse i => do
    let a ← s.registry.actors[i]?
    if s.phase i = .delay ∧ a.told = false then
      -- The timer panics if the period is zero.
      some (s.setPhase i (if a.config.periodMs = 0 then .ended else .idle))
    else none
  | .finish i => do
    let a ← s.registry.actors[i]?
    if (s.phase i = .delay ∨ s.phase i = .idle) ∧ a.told then some (s.setPhase i .ended) else none
  | .tick i started => do
    let a ← s.registry.actors[i]?
    if s.phase i = .idle ∧ a.told = false then
      match a.config.probedExec with
      | none => some (s.setPhase i (.probing none))
      | some _ =>
        if started then
          some { s.setPhase i (.probing (some s.procs.length)) with
            procs := s.procs ++ [{ check := a.name }] }
        else
          -- The identity is not resolved, or the process not started, and the probe has failed.
          some s
    else none
  | .exit p => if s.isAlive p then
      some { s with procs := s.procs.modify p fun q => { q with alive := false } }
    else none
  | .answer i =>
    match s.phase i with
    | .probing none => some (s.setPhase i .idle)
    | .probing (some p) => if s.isAlive p then none else some (s.setPhase i .idle)
    | _ => none
  | .timeout i =>
    match s.phase i with
    | .probing _ => some (s.setPhase i .idle)
    | _ => none

/-- A process of a check is alive. -/
def Alive (name : String) (p : ℕ) : Prop :=
  ∃ q, s.procs[p]? = some q ∧ q.check = name ∧ q.alive = true

/-- No check has two processes alive. -/
def AtMostOne : Prop := ∀ name p q, s.Alive name p → s.Alive name q → p = q

/-- A check's turn in `sync_actors` spawns an actor. -/
def spawns (name : String) : Bool :=
  match s.registry.plan.checks.get? name with
  | none => false
  | some config =>
    config.startup ≠ .disabled &&
      match s.registry.checks.get? name with
      | none => true
      | some entry => entry.config ≠ config

/-- The step leaves no process behind: no timeout drops a probe whose process is alive, and no actor
is spawned for a check that has a process alive. -/
def leavesNone : ProbesLabel → Bool
  | .timeout i =>
    match s.phase i with
    | .probing (some p) => !s.isAlive p
    | _ => true
  | .sync name => !(s.spawns name && s.procs.any fun q => q.check = name && q.alive)
  | _ => true

/-- The condition that a step leaves no process behind. -/
def LeavesNone (s : Probes) (l : ProbesLabel) : Prop := s.leavesNone l = true

instance (l : ProbesLabel) : Decidable (LeavesNone s l) := inferInstanceAs (Decidable (_ = true))

/-! ## The invariant -/

/-- An actor is in a probe with a process of its check, and the other actors of the check have been
told to end. -/
structure Holds (name : String) (p i : ℕ) : Prop where
  actor : ∃ a, s.registry.actors[i]? = some a ∧ a.name = name
  probing : s.phase i = .probing (some p)
  others : ∀ j b, s.registry.actors[j]? = some b → b.name = name → j ≠ i → b.told = true

/-- What holds as long as no process is left behind. -/
structure Inv : Prop where
  coherent : s.registry.Coherent
  /-- An actor that is not spawned yet has no phase yet. -/
  fresh : ∀ i, s.registry.actors.length ≤ i → s.phase i = .delay
  held : ∀ name p, s.Alive name p → ∃ i, s.Holds name p i
  atMostOne : s.AtMostOne

variable {s}

/-- A process that is alive has been started by some check. -/
theorem isAlive_iff {p : ℕ} : s.isAlive p = true ↔ ∃ name, s.Alive name p := by
  unfold isAlive Alive
  cases s.procs[p]? with
  | none => simp
  | some q => simp

/-- Some process of a check is alive. -/
theorem any_alive_iff {name : String} :
    (s.procs.any fun q => q.check = name && q.alive) = true ↔ ∃ p, s.Alive name p := by
  simp only [List.any_eq_true, Bool.and_eq_true, decide_eq_true_eq, Alive]
  constructor
  · rintro ⟨q, hq, hname, halive⟩
    obtain ⟨p, hp⟩ := List.mem_iff_getElem?.mp hq
    exact ⟨p, q, hp, hname, halive⟩
  · rintro ⟨p, q, hp, hname, halive⟩
    exact ⟨q, List.mem_of_getElem? hp, hname, halive⟩

namespace Inv

/-- At the start there are no processes. -/
theorem start (plan : MergedPlan) : (start plan).Inv where
  coherent := CheckRegistry.coherent_empty plan
  fresh _ _ := rfl
  held := by
    rintro name p ⟨q, hq, -⟩
    cases hq
  atMostOne := by
    rintro name p q ⟨r, hr, -⟩
    cases hr

/-- The overlord may end any actors, and spawn new ones for checks without a process. -/
theorem withRegistry (h : s.Inv) (r : CheckRegistry) (hcoh : r.Coherent)
    (hkeep : ∀ (i : ℕ) (a : CheckActor), s.registry.actors[i]? = some a →
      ∃ b : CheckActor, r.actors[i]? = some b ∧ b.name = a.name ∧ (a.told = true → b.told = true))
    (hnew : ∀ (i : ℕ) (b : CheckActor), r.actors[i]? = some b → s.registry.actors.length ≤ i →
      ∀ p, ¬s.Alive b.name p) : Inv { s with registry := r } where
  coherent := hcoh
  fresh i hi := by
    refine h.fresh i (Nat.not_lt.mp fun hlt => ?_)
    obtain ⟨b, hb, -⟩ := hkeep i _ (List.getElem?_eq_getElem hlt)
    exact absurd (List.getElem?_eq_some_iff.mp hb).1 (Nat.not_lt.mpr hi)
  held name p hp := by
    obtain ⟨i, hi⟩ := h.held name p hp
    obtain ⟨a, ha, hname⟩ := hi.actor
    obtain ⟨b, hb, hbname, -⟩ := hkeep i a ha
    -- An old actor of the check stays told, and a new one has no process of its check beside it.
    refine ⟨i, ⟨b, hb, hbname.trans hname⟩, hi.probing, fun j c hc hcname hne => ?_⟩
    rcases Nat.lt_or_ge j s.registry.actors.length with hlt | hge
    · obtain ⟨b', hb', hbname', htold⟩ := hkeep j _ (List.getElem?_eq_getElem hlt)
      obtain rfl : b' = c := Option.some.inj (hb'.symm.trans hc)
      exact htold (hi.others j _ (List.getElem?_eq_getElem hlt) (hbname'.symm.trans hcname) hne)
    · exact absurd (hcname.symm ▸ hp) (hnew j c hc hge p)
  atMostOne := h.atMostOne

/-- An actor in a probe has been spawned. -/
theorem lt_of_probing (h : s.Inv) {i : ℕ} {process : Option ℕ}
    (hi : s.phase i = .probing process) : i < s.registry.actors.length := by
  by_contra hge
  cases hi.symm.trans (h.fresh i (Nat.not_lt.mp hge))

/-- An actor that holds no process may go to any phase. -/
theorem setPhase (h : s.Inv) {i : ℕ} (phase : Phase) (hi : i < s.registry.actors.length)
    (hloses : ∀ p, s.phase i = .probing (some p) → ∀ name, ¬s.Alive name p) :
    (s.setPhase i phase).Inv where
  coherent := h.coherent
  fresh j hj := by
    have hne : j ≠ i := fun heq => absurd (heq ▸ hi) (Nat.not_lt.mpr hj)
    exact (Function.update_of_ne hne _ _).trans (h.fresh j hj)
  held name p hp := by
    obtain ⟨j, hj⟩ := h.held name p hp
    -- What the actor has held is dead, so that another actor holds the process.
    have hne : j ≠ i := fun heq => hloses p (heq ▸ hj.probing) name hp
    exact ⟨j, hj.actor, (Function.update_of_ne hne _ _).trans hj.probing, hj.others⟩
  atMostOne := h.atMostOne

/-- A process that exits is not alive. -/
theorem alive_of_modify {p : ℕ} {name : String} {r : ℕ}
    (h : Alive { s with procs := s.procs.modify p fun q => { q with alive := false } } name r) :
    s.Alive name r := by
  obtain ⟨q, hq, hname, halive⟩ := h
  rw [List.getElem?_modify, Option.map_eq_map, Option.map_eq_some_iff] at hq
  obtain ⟨q', hq', rfl⟩ := hq
  split_ifs at hname halive
  exact ⟨q', hq', hname, halive⟩

/-- A process may exit at any time. -/
theorem exit (h : s.Inv) (p : ℕ) :
    Inv { s with procs := s.procs.modify p fun q => { q with alive := false } } where
  coherent := h.coherent
  fresh := h.fresh
  held name r hr := by
    -- Whoever holds a process that is alive has held it before.
    obtain ⟨i, hi⟩ := h.held name r (alive_of_modify hr)
    exact ⟨i, hi.actor, hi.probing, hi.others⟩
  atMostOne name p q hp hq := h.atMostOne name p q (alive_of_modify hp) (alive_of_modify hq)

/-- An actor whose tick fires has no process of its check alive. -/
theorem not_alive_of_idle (h : s.Inv) {i : ℕ} {a : CheckActor}
    (ha : s.registry.actors[i]? = some a) (hidle : s.phase i = .idle) (hlive : a.told = false)
    (p : ℕ) : ¬s.Alive a.name p := by
  intro hp
  obtain ⟨j, hj⟩ := h.held a.name p hp
  by_cases hij : i = j
  · subst hij
    cases hidle.symm.trans hj.probing
  · exact Bool.noConfusion (hlive.symm.trans (hj.others i a ha rfl hij))

/-- The invariant is kept by a tick that starts a process. -/
theorem tick (h : s.Inv) {i : ℕ} {a : CheckActor} (ha : s.registry.actors[i]? = some a)
    (hidle : s.phase i = .idle) (hlive : a.told = false) :
    Inv { s.setPhase i (.probing (some s.procs.length)) with
      procs := s.procs ++ [{ check := a.name }] } := by
  have hnone := h.not_alive_of_idle ha hidle hlive
  have hlt := (List.getElem?_eq_some_iff.mp ha).1
  have hphase := h.setPhase (.probing (some s.procs.length)) hlt
    fun p hp => by cases hidle.symm.trans hp
  -- What is alive afterwards was alive before, or has just been started.
  have halive : ∀ {name p}, Alive { s.setPhase i (.probing (some s.procs.length)) with
      procs := s.procs ++ [{ check := a.name }] } name p →
      s.Alive name p ∨ name = a.name ∧ p = s.procs.length := by
    rintro name p ⟨q, hq, hname, hq'⟩
    rcases Nat.lt_or_ge p s.procs.length with hp | hp
    · exact .inl ⟨q, (List.getElem?_append_left hp).symm.trans hq, hname, hq'⟩
    · obtain ⟨hp', hget⟩ := List.getElem?_eq_some_iff.mp hq
      rw [List.length_append, List.length_singleton] at hp'
      obtain rfl : p = s.procs.length := by omega
      rw [List.getElem_append_right hp, List.getElem_singleton] at hget
      exact .inr ⟨hname.symm.trans (hget ▸ rfl), rfl⟩
  refine ⟨h.coherent, hphase.fresh, fun name p hp => ?_, fun name p q hp hq => ?_⟩
  · rcases halive hp with hp | ⟨rfl, rfl⟩
    · obtain ⟨j, hj⟩ := hphase.held name p hp
      exact ⟨j, hj.actor, hj.probing, hj.others⟩
    · refine ⟨i, ⟨a, ha, rfl⟩, Function.update_self .., fun j b hb hname hne => ?_⟩
      -- Another actor of the check that has not been told to end would be a second live one.
      by_contra htold
      exact hne (h.coherent.unique ⟨hb, Bool.eq_false_iff.mpr htold⟩ ⟨ha, hlive⟩ hname)
  · -- No process of the check is alive when the new one is started.
    rcases halive hp with hp | ⟨rfl, rfl⟩ <;> rcases halive hq with hq | ⟨hname, rfl⟩
    · exact h.atMostOne name p q hp hq
    · exact absurd (hname ▸ hp) (hnone p)
    · exact absurd hq (hnone q)
    · rfl

/-- The overlord may tell an actor to end. -/
theorem retire (h : s.Inv) {name : String} {entry : CheckEntry}
    (hentry : s.registry.checks.get? name = some entry) :
    Inv { s with registry := s.registry.retire name entry } := by
  refine h.withRegistry _ (h.coherent.retire hentry).1 (fun i a ha => ?_) fun i b hb hi => ?_
  · refine ⟨if entry.id = i then { a with told := true } else a, ?_, ?_, fun htold => ?_⟩
    · rw [CheckRegistry.retire, List.getElem?_modify, ha]
      rfl
    · split_ifs <;> rfl
    · split_ifs
      · rfl
      · exact htold
  · have hlt := (List.getElem?_eq_some_iff.mp hb).1
    rw [CheckRegistry.retire, List.length_modify] at hlt
    exact absurd hlt (Nat.not_lt.mpr hi)

/-- The overlord may spawn an actor for a check without a process. -/
theorem spawn (h : s.Inv) {name : String} (config : CheckConfig)
    (hentry : s.registry.checks.get? name = none) (hnone : ∀ p, ¬s.Alive name p) :
    Inv { s with registry := s.registry.spawn name config } := by
  refine h.withRegistry _ (h.coherent.spawn config hentry).1 (fun i a ha => ?_) fun i b hb hi => ?_
  · have hlt := (List.getElem?_eq_some_iff.mp ha).1
    exact ⟨a, (List.getElem?_append_left hlt).trans ha, rfl, id⟩
  · rw [CheckRegistry.spawn, List.getElem?_append_right hi] at hb
    obtain rfl := List.mem_singleton.mp (List.mem_of_getElem? hb)
    exact hnone

/-- A check's turn in `sync_actors` leaves no process behind. -/
theorem sync (h : s.Inv) {name : String} {config : CheckConfig}
    (hconfig : s.registry.plan.checks.get? name = some config)
    (hnone : s.spawns name = true → ∀ p, ¬s.Alive name p) :
    Inv { s with registry := s.registry.syncCheck (name, config) } := by
  unfold CheckRegistry.syncCheck
  simp only [spawns, hconfig] at hnone
  by_cases hdis : config.startup = .disabled
  · simp only [hdis, if_true]
    exact h
  · simp only [hdis, if_false]
    cases hentry : s.registry.checks.get? name with
    | none => exact h.spawn config hentry (hnone (by simp [hdis, hentry]))
    | some entry =>
      dsimp only
      split_ifs with heq
      · exact h
      · -- The actor is told to end, and its successor is spawned at once.
        have hgone : (s.registry.retire name entry).checks.get? name = none :=
          (s.registry.checks.get?_shiftRemove name name).trans (if_pos rfl)
        exact (h.retire hentry).spawn config hgone (hnone (by simp [hdis, hentry, heq]))

/-- Every step that leaves no process behind keeps the invariant. -/
theorem step (h : s.Inv) {l : ProbesLabel} {s' : Probes} (hl : s.LeavesNone l)
    (hs : s.step l = some s') : s'.Inv := by
  unfold LeavesNone leavesNone at hl
  unfold Probes.step at hs
  cases l with
  | load plan =>
    obtain rfl := Option.some.inj hs
    exact h.withRegistry { s.registry with plan } ⟨h.coherent.entry, h.coherent.live⟩
      (fun i a ha => ⟨a, ha, rfl, id⟩)
      fun i b hb hi => absurd (List.getElem?_eq_some_iff.mp hb).1 (Nat.not_lt.mpr hi)
  | sync name =>
    obtain ⟨config, hconfig, hs⟩ := Option.bind_eq_some_iff.mp hs
    obtain rfl := Option.some.inj hs
    refine h.sync hconfig fun hspawns p hp => ?_
    simp [hspawns, any_alive_iff.mpr ⟨p, hp⟩] at hl
  | retire name =>
    obtain ⟨entry, hentry, hs⟩ := Option.bind_eq_some_iff.mp hs
    obtain rfl := Option.some.inj hs
    exact h.retire hentry
  | elapse i =>
    obtain ⟨a, ha, hs⟩ := Option.bind_eq_some_iff.mp hs
    split_ifs at hs with hcond
    all_goals
      -- An actor in its delay holds no process.
      obtain rfl := Option.some.inj hs
      exact h.setPhase _ (List.getElem?_eq_some_iff.mp ha).1
        fun p hp => by cases hcond.1.symm.trans hp
  | finish i =>
    obtain ⟨a, ha, hs⟩ := Option.bind_eq_some_iff.mp hs
    split_ifs at hs with hcond
    obtain rfl := Option.some.inj hs
    refine h.setPhase _ (List.getElem?_eq_some_iff.mp ha).1 fun p hp => ?_
    rcases hcond.1 with hphase | hphase <;> cases hphase.symm.trans hp
  | tick i started =>
    obtain ⟨a, ha, hs⟩ := Option.bind_eq_some_iff.mp hs
    obtain ⟨⟨hidle, hlive⟩, hs⟩ := Option.ite_none_right_eq_some.mp hs
    split at hs
    · -- The probe has no command.
      obtain rfl := Option.some.inj hs
      exact h.setPhase _ (List.getElem?_eq_some_iff.mp ha).1
        fun p hp => by cases hidle.symm.trans hp
    · split_ifs at hs with hstarted
      · obtain rfl := Option.some.inj hs
        exact h.tick ha hidle hlive
      · obtain rfl := Option.some.inj hs
        exact h
  | exit p =>
    dsimp only at hs
    split_ifs at hs
    obtain rfl := Option.some.inj hs
    exact h.exit p
  | answer i =>
    dsimp only at hs
    split at hs
    · next hphase =>
      obtain rfl := Option.some.inj hs
      exact h.setPhase _ (h.lt_of_probing hphase) fun p hp => by cases hphase.symm.trans hp
    · next q hphase =>
      split_ifs at hs with halive
      obtain rfl := Option.some.inj hs
      refine h.setPhase _ (h.lt_of_probing hphase) fun p hp name hp' => halive ?_
      -- The probe returns when its process has exited.
      obtain rfl : q = p := Option.some.inj (Phase.probing.inj (hphase.symm.trans hp))
      exact isAlive_iff.mpr ⟨name, hp'⟩
    · cases hs
  | timeout i =>
    dsimp only at hs hl
    split at hs
    · next hphase =>
      obtain rfl := Option.some.inj hs
      refine h.setPhase _ (h.lt_of_probing hphase) fun p hp name hp' => ?_
      -- The condition says that the process which the timeout drops has exited.
      simp [hp, isAlive_iff.mpr ⟨name, hp'⟩] at hl
    · cases hs

end Inv

/-- At most one process of each check is alive, as long as no probe whose process is alive runs into
its timeout, and no actor is spawned for a check that has a process alive. -/
theorem atMostOne_of_reaches {plan : MergedPlan} (h : Reaches step LeavesNone (start plan) s) :
    s.AtMostOne :=
  (h.invariant (Inv.start plan) fun _ _ _ _ hinv hl hs => hinv.step hl hs).atMostOne

/-- A check whose command hangs. -/
def hangingCheck : CheckConfig :=
  { startup := .enabled, exec := some { command := "sleep infinity" } }

/-- The process of the first probe has exited when the probe runs into its timeout, and that of the
second one is started afterwards. -/
theorem atMostOne_after_exit : ∃ s,
    Reaches step LeavesNone (start (CheckRegistry.checkPlan hangingCheck)) s ∧
      (s.isAlive 0 = false ∧ s.isAlive 1 = true) ∧ s.AtMostOne := by
  have hrun : (runIf step LeavesNone (start (CheckRegistry.checkPlan hangingCheck))
      [.sync "c", .elapse 0, .tick 0 true, .exit 0, .timeout 0, .tick 0 true]).any
        (fun s => !s.isAlive 0 && s.isAlive 1) = true := rfl
  obtain ⟨s, hs, halive⟩ := Reaches.exists_of_runIf _ hrun
  simp only [Bool.and_eq_true, Bool.not_eq_true'] at halive
  exact ⟨s, hs, halive, atMostOne_of_reaches hs⟩

/-! ## Reloads -/

/-- A check's turn in `sync_actors` does not change the plan. -/
theorem plan_syncCheck (r : CheckRegistry) (e : String × CheckConfig) :
    (r.syncCheck e).plan = r.plan := by
  unfold CheckRegistry.syncCheck
  split_ifs
  · rfl
  · split
    · split_ifs <;> rfl
    · rfl

/-- The turns of some checks of the plan are a run. -/
theorem reaches_foldl_syncCheck {es : List (String × CheckConfig)}
    (hes : ∀ e ∈ es, s.registry.plan.checks.get? e.1 = some e.2) :
    Reaches step Always s { s with registry := es.foldl CheckRegistry.syncCheck s.registry } := by
  induction es generalizing s with
  | nil => exact .refl
  | cons e es ih =>
    obtain ⟨he, hes⟩ := List.forall_mem_cons.mp hes
    have hstep : s.step (.sync e.1) = some { s with registry := s.registry.syncCheck e } := by
      simp only [step, he]
      rfl
    refine Reaches.head trivial hstep (ih fun f hf => ?_)
    rw [plan_syncCheck]
    exact hes f hf

/-- Ending the actors of some checks is a run. -/
theorem reaches_foldl_retire {es : List (String × CheckEntry)} (hnodup : (es.map Prod.fst).Nodup)
    (hes : ∀ e ∈ es, s.registry.checks.get? e.1 = some e.2) :
    Reaches step Always s
      { s with registry := es.foldl (fun r e => r.retire e.1 e.2) s.registry } := by
  induction es generalizing s with
  | nil => exact .refl
  | cons e es ih =>
    obtain ⟨he, hes⟩ := List.forall_mem_cons.mp hes
    obtain ⟨hnot, hnodup⟩ := List.nodup_cons.mp hnodup
    have hstep : s.step (.retire e.1) =
        some { s with registry := s.registry.retire e.1 e.2 } := by
      simp only [step, he]
      rfl
    refine Reaches.head trivial hstep (ih hnodup fun f hf => ?_)
    have hne : f.1 ≠ e.1 := fun heq => hnot (heq ▸ List.mem_map_of_mem hf)
    exact (s.registry.checks.get?_shiftRemove e.1 f.1).trans ((if_neg hne).trans (hes f hf))

/-- A reload of the overlord is a run. In general the actors take their steps in between. -/
theorem reaches_reload (plan : MergedPlan) :
    Reaches step Always s { s with registry := s.registry.reload plan } := by
  have hload : s.step (.load plan) = some { s with registry := { s.registry with plan } } := rfl
  set r := CheckRegistry.syncActors { s.registry with plan } with hr
  refine Reaches.head trivial hload (.trans (reaches_foldl_syncCheck fun e he => ?_)
    (reaches_foldl_retire (r.checks.filter fun e => !r.plan.checks.contains e.1).nodup
      fun e he => ?_))
  · exact IndexMap.get?_eq_some_iff.mpr he
  · exact IndexMap.get?_eq_some_iff.mpr (List.mem_of_mem_filter he)

/-! ## Probes that hang -/

/-- The check after some probes of it that have run into the timeout. -/
def piled (n : ℕ) : Probes where
  registry := .start (CheckRegistry.checkPlan hangingCheck)
  phase := Function.update (fun _ => .delay) 0 .idle
  procs := List.replicate n { check := "c" }

/-- Every hanging probe leaves a process behind. -/
theorem reaches_piled (n : ℕ) :
    Reaches step Always (start (CheckRegistry.checkPlan hangingCheck)) (piled n) := by
  induction n with
  | zero =>
    have hsync : step (start (CheckRegistry.checkPlan hangingCheck)) (.sync "c") =
        some { registry := .start (CheckRegistry.checkPlan hangingCheck) } := rfl
    have helapse : step { registry := .start (CheckRegistry.checkPlan hangingCheck) } (.elapse 0) =
        some (piled 0) := rfl
    exact (Reaches.refl.tail trivial hsync).tail trivial helapse
  | succ n ih =>
    set t : Probes := { (piled n).setPhase 0 (.probing (some (piled n).procs.length)) with
      procs := (piled n).procs ++ [{ check := "c" }] } with ht
    have htick : step (piled n) (.tick 0 true) = some t := rfl
    have htimeout : step t (.timeout 0) = some (t.setPhase 0 .idle) := rfl
    have hpiled : t.setPhase 0 .idle = piled (n + 1) := by
      simp [ht, setPhase, piled, List.replicate_succ']
    exact hpiled ▸ (ih.tail trivial htick).tail trivial htimeout

/-- The processes of hanging probes are all alive. -/
theorem alive_piled {n p : ℕ} (hp : p < n) : (piled n).Alive "c" p := by
  refine ⟨{ check := "c" }, ?_, rfl, rfl⟩
  rw [piled, List.getElem?_replicate, if_pos hp]

/-- Two probes that hang leave two processes. -/
theorem not_atMostOne_piled :
    Reaches step Always (start (CheckRegistry.checkPlan hangingCheck)) (piled 2) ∧
      ¬(piled 2).AtMostOne := by
  refine ⟨reaches_piled 2, fun h => ?_⟩
  exact absurd (h "c" 0 1 (alive_piled (by decide)) (alive_piled (by decide))) (by decide)

/-- Without a timeout, a reload that changes the check during a probe leaves two as well. -/
theorem exists_two_after_reload : ∃ s,
    Reaches step Always (start (CheckRegistry.checkPlan hangingCheck)) s ∧
      s.Alive "c" 0 ∧ s.Alive "c" 1 := by
  have hrun : (runIf step Always (start (CheckRegistry.checkPlan hangingCheck))
      [.sync "c", .elapse 0, .tick 0 true,
        .load (CheckRegistry.checkPlan { hangingCheck with period := some "5s" }), .sync "c",
        .elapse 1, .tick 1 true]).any
          (fun s => s.procs = [{ check := "c" }, { check := "c" }]) = true := rfl
  obtain ⟨s, hs, halive⟩ := Reaches.exists_of_runIf _ hrun
  have hprocs := of_decide_eq_true halive
  refine ⟨s, hs, ⟨{ check := "c" }, ?_, rfl, rfl⟩, ⟨{ check := "c" }, ?_, rfl, rfl⟩⟩
  · rw [hprocs]
    rfl
  · rw [hprocs]
    rfl

end Probes

end Vigil.Check
