import Mathlib.Data.List.Chain
import Vigil.Plan.Layer

/-!
# The overlord's checks

`sync_actors` and `reload_layers` of `overlord/lifecycle.rs` as far as they concern checks: which
check actors run after a sequence of reloads, and with which configuration.

A reload spawns an actor for each enabled check that has none, and a new one where the configuration
has changed; it ends the actors of the checks that the plan no longer has. It passes over the
disabled checks, so that the actor of a check that has been disabled goes on, and over the checks
whose own configuration is the same, so that an actor keeps the service configurations that it was
started with. `mirrors_after_iff` says that these are the only two ways in which the actors fall
behind the plan, but for a check whose period is zero, which has an actor that panics.
-/

namespace Vigil

/-- What an exec probe runs its command with. -/
structure ExecSettings where
  environment : IndexMap String String
  user : Option String
  userId : Option ℕ
  group : Option String
  groupId : Option ℕ
  workingDir : Option String
  deriving DecidableEq

/-- The settings that `probe_exec` resolves: those of the service in `service-context`, and the
check's own over them. -/
def ExecCheck.settings (exec : ExecCheck) (services : IndexMap String ServiceConfig) :
    ExecSettings :=
  let ctx := exec.serviceContext.bind services.get?
  { environment := extend ((ctx.map ServiceConfig.environment).getD ∅) exec.environment
    user := exec.user.or (ctx.bind ServiceConfig.user)
    userId := exec.userId.or (ctx.bind ServiceConfig.userId)
    group := exec.group.or (ctx.bind ServiceConfig.group)
    groupId := exec.groupId.or (ctx.bind ServiceConfig.groupId)
    workingDir := exec.workingDir.or (ctx.bind ServiceConfig.workingDir) }

/-- The command that `perform` runs: an HTTP or a TCP probe goes before. -/
def CheckConfig.probedExec (config : CheckConfig) : Option ExecCheck :=
  if config.http.isSome || config.tcp.isSome then none else config.exec

/-- The period of a check's probes, in milliseconds. The actor's timer panics if it is zero. -/
def CheckConfig.periodMs (config : CheckConfig) : ℕ := durationOr config.period 10000

/-- A check actor: the parameters that it has been spawned with. -/
structure CheckActor where
  name : String
  config : CheckConfig
  services : IndexMap String ServiceConfig
  /-- Its command channel has a shutdown or is closed, so that it ends before its next probe. -/
  told : Bool := false

/-- What the overlord keeps of a check: the handle and the configuration. -/
structure CheckEntry where
  /-- The actor behind the handle. -/
  id : ℕ
  config : CheckConfig

/-- The overlord's checks, its plan, and the check actors that it has spawned. -/
structure CheckRegistry where
  plan : MergedPlan
  checks : IndexMap String CheckEntry := ∅
  actors : List CheckActor := []

namespace CheckRegistry

variable (s : CheckRegistry)

/-- `check::spawn`, and the new entry. -/
def spawn (name : String) (config : CheckConfig) : CheckRegistry :=
  { s with
    checks := s.checks.insert name { id := s.actors.length, config }
    actors := s.actors ++ [{ name, config, services := s.plan.services }] }

/-- The actor is told to shut down, and its entry is removed. The handle goes with the entry, so
that the actor ends even if the shutdown does not fit into its channel. -/
def retire (name : String) (entry : CheckEntry) : CheckRegistry :=
  { s with
    checks := s.checks.shiftRemove name
    actors := s.actors.modify entry.id fun a => { a with told := true } }

/-- One check's turn in `sync_actors`. The configurations are compared by their JSON texts, which
differ where the configurations do. -/
def syncCheck (e : String × CheckConfig) : CheckRegistry :=
  if e.2.startup = .disabled then s
  else
    match s.checks.get? e.1 with
    | some entry => if entry.config = e.2 then s else (s.retire e.1 entry).spawn e.1 e.2
    | none => s.spawn e.1 e.2

/-- `sync_actors` for the checks. -/
def syncActors : CheckRegistry := s.plan.checks.entries.foldl syncCheck s

/-- The checks that the plan no longer has. -/
def removed : List (String × CheckEntry) :=
  s.checks.entries.filter fun e => !s.plan.checks.contains e.1

/-- `reload_layers` with the plan that `load_plan` returned. -/
def reload (plan : MergedPlan) : CheckRegistry :=
  let s := { s with plan }.syncActors
  s.removed.foldl (fun s e => s.retire e.1 e.2) s

/-- The checks when the overlord's task starts. -/
def start (plan : MergedPlan) : CheckRegistry := syncActors { plan }

/-- An actor that has not been told to end. -/
def Live (i : ℕ) (a : CheckActor) : Prop := s.actors[i]? = some a ∧ a.told = false

/-- The check actors are what the plan says. -/
structure Mirrors : Prop where
  /-- The checks with an actor are the enabled ones. -/
  enabled : ∀ name, (∃ i a, s.Live i a ∧ a.name = name) ↔
    ∃ config, s.plan.checks.get? name = some config ∧ config.startup = .enabled
  /-- No check has two actors. -/
  unique : ∀ i j a b, s.Live i a → s.Live j b → a.name = b.name → i = j
  /-- An actor runs with the plan's configuration of its check. -/
  config : ∀ i a, s.Live i a → s.plan.checks.get? a.name = some a.config
  /-- An actor's command is run with the settings that the plan says. -/
  settings : ∀ i a exec, s.Live i a → a.config.probedExec = some exec →
    exec.settings a.services = exec.settings s.plan.services
  /-- No actor panics when it starts its timer. -/
  timer : ∀ i a, s.Live i a → a.config.periodMs ≠ 0

/-- The enabled checks of a plan have a period. -/
def Ticks (p : MergedPlan) : Prop :=
  ∀ name c, p.checks.get? name = some c → c.startup = .enabled → c.periodMs ≠ 0

/-- What a plan may change for the check actors to follow: it disables no check that was enabled,
and where a check with a command stays as it is, the settings of the command do. -/
structure Follows (p q : MergedPlan) : Prop where
  disabled : ∀ name c d, p.checks.get? name = some c → c.startup = .enabled →
    q.checks.get? name = some d → d.startup = .enabled
  settings : ∀ name c exec, p.checks.get? name = some c → q.checks.get? name = some c →
    c.startup = .enabled → c.probedExec = some exec →
    exec.settings p.services = exec.settings q.services

/-! ## The actors behind the entries -/

/-- The actor behind a check's entry. -/
def actorOf (name : String) : Option CheckActor :=
  (s.checks.get? name).bind fun e => s.actors[e.id]?

/-- The entries are those of the live actors. -/
structure Coherent : Prop where
  entry : ∀ name e, s.checks.get? name = some e →
    ∃ a, s.Live e.id a ∧ a.name = name ∧ a.config = e.config
  live : ∀ i a, s.Live i a → ∃ e, s.checks.get? a.name = some e ∧ e.id = i

namespace Coherent

variable {s} (hs : s.Coherent)

include hs

/-- The actor behind an entry is live, and has the entry's name and configuration. -/
theorem actorOf_eq {name : String} {e : CheckEntry} (h : s.checks.get? name = some e) :
    ∃ a, s.actorOf name = some a ∧ s.Live e.id a ∧ a.name = name ∧ a.config = e.config := by
  obtain ⟨a, ha, hname, hconfig⟩ := hs.entry _ _ h
  refine ⟨a, ?_, ha, hname, hconfig⟩
  rw [actorOf, h, Option.bind_some, ha.1]

/-- The live actors are the ones behind the entries. -/
theorem exists_live_iff {a : CheckActor} : (∃ i, s.Live i a) ↔ s.actorOf a.name = some a := by
  constructor
  · rintro ⟨i, hi⟩
    obtain ⟨e, he, rfl⟩ := hs.live _ _ hi
    rw [actorOf, he, Option.bind_some, hi.1]
  · intro h
    obtain ⟨e, he, hi⟩ := Option.bind_eq_some_iff.mp h
    obtain ⟨b, hb, -, -⟩ := hs.entry _ _ he
    obtain rfl : b = a := Option.some.inj (hb.1.symm.trans hi)
    exact ⟨_, hb⟩

/-- The actor behind an entry has the entry's name. -/
theorem name_of_actorOf {name : String} {a : CheckActor} (h : s.actorOf name = some a) :
    a.name = name := by
  obtain ⟨e, he, hi⟩ := Option.bind_eq_some_iff.mp h
  obtain ⟨b, hb, hname, -⟩ := hs.entry _ _ he
  obtain rfl : b = a := Option.some.inj (hb.1.symm.trans hi)
  exact hname

/-- No check has two live actors. -/
theorem unique {i j : ℕ} {a b : CheckActor} (ha : s.Live i a) (hb : s.Live j b)
    (h : a.name = b.name) : i = j := by
  obtain ⟨e, he, rfl⟩ := hs.live _ _ ha
  obtain ⟨f, hf, rfl⟩ := hs.live _ _ hb
  rw [h, hf] at he
  exact congrArg CheckEntry.id (Option.some.inj he).symm

/-- The actors are what the plan says when the ones behind the entries are. -/
theorem mirrors_iff : s.Mirrors ↔ ∀ name,
    match (s.plan.checks.get? name).filter fun c => decide (c.startup = .enabled) with
    | none => s.actorOf name = none
    | some c => c.periodMs ≠ 0 ∧ ∃ a, s.actorOf name = some a ∧ a.config = c ∧
        ∀ exec, c.probedExec = some exec →
          exec.settings a.services = exec.settings s.plan.services := by
  have hlive : ∀ {name a}, s.actorOf name = some a → ∃ i, s.Live i a := fun {name a} h =>
    hs.exists_live_iff.mpr ((hs.name_of_actorOf h).symm ▸ h)
  constructor
  · intro h name
    split
    · next hnone =>
      -- An actor would be that of an enabled check.
      refine Option.eq_none_iff_forall_ne_some.mpr fun a ha => ?_
      obtain ⟨i, hi⟩ := hlive ha
      obtain ⟨c, hc, hen⟩ := (h.enabled name).mp ⟨i, a, hi, hs.name_of_actorOf ha⟩
      rw [hc, Option.filter_some, if_pos (decide_eq_true hen)] at hnone
      cases hnone
    · next c hsome =>
      obtain ⟨hc, hen⟩ := Option.filter_eq_some_iff.mp hsome
      obtain ⟨i, a, hi, rfl⟩ := (h.enabled name).mpr ⟨c, hc, of_decide_eq_true hen⟩
      have hconfig : a.config = c := Option.some.inj ((h.config i a hi).symm.trans hc)
      exact ⟨hconfig ▸ h.timer i a hi, a, hs.exists_live_iff.mp ⟨i, hi⟩, hconfig, fun exec hexec =>
        h.settings i a exec hi (hconfig.symm ▸ hexec)⟩
  · intro h
    have hactor : ∀ i a, s.Live i a → s.plan.checks.get? a.name = some a.config ∧
        a.config.startup = .enabled ∧ a.config.periodMs ≠ 0 ∧
          ∀ exec, a.config.probedExec = some exec →
            exec.settings a.services = exec.settings s.plan.services := by
      intro i a hi
      have ha := hs.exists_live_iff.mp ⟨i, hi⟩
      have hname := h a.name
      split at hname
      · rw [ha] at hname; cases hname
      · next c hsome =>
        obtain ⟨htimer, b, hb, rfl, hset⟩ := hname
        obtain rfl : a = b := Option.some.inj (ha.symm.trans hb)
        obtain ⟨hc, hen⟩ := Option.filter_eq_some_iff.mp hsome
        exact ⟨hc, of_decide_eq_true hen, htimer, hset⟩
    refine ⟨fun name => ⟨?_, ?_⟩, fun i j a b ha hb hab => hs.unique ha hb hab,
      fun i a hi => (hactor i a hi).1, fun i a exec hi => (hactor i a hi).2.2.2 exec,
      fun i a hi => (hactor i a hi).2.2.1⟩
    · rintro ⟨i, a, hi, rfl⟩
      exact ⟨_, (hactor i a hi).1, (hactor i a hi).2.1⟩
    · rintro ⟨c, hc, hen⟩
      have hname := h name
      rw [hc, Option.filter_some, if_pos (decide_eq_true hen)] at hname
      obtain ⟨-, a, ha, -, -⟩ := hname
      obtain ⟨i, hi⟩ := hlive ha
      exact ⟨i, a, hi, hs.name_of_actorOf ha⟩

end Coherent

/-! ## What the operations do -/

/-- Telling an entry's actor to end takes the entry's check its actor. -/
theorem Coherent.retire {s : CheckRegistry} (hs : s.Coherent) {name : String} {e : CheckEntry}
    (h : s.checks.get? name = some e) :
    (s.retire name e).Coherent ∧
      ∀ m, (s.retire name e).actorOf m = if m = name then none else s.actorOf m := by
  obtain ⟨a, -, ha, hname, -⟩ := hs.actorOf_eq h
  have hget : ∀ m, (s.retire name e).checks.get? m =
      if m = name then none else s.checks.get? m := fun m => s.checks.get?_shiftRemove name m
  -- The actors of other checks are others, and stay as they are.
  have hother : ∀ m f, m ≠ name → s.checks.get? m = some f →
      (s.retire name e).actors[f.id]? = s.actors[f.id]? := by
    intro m f hne hf
    obtain ⟨b, -, hb, hbname, -⟩ := hs.actorOf_eq hf
    have hid : e.id ≠ f.id := fun heq => by
      have hab : a = b := Option.some.inj ((heq ▸ ha.1).symm.trans hb.1)
      exact hne (hbname.symm.trans (hab ▸ hname))
    exact List.getElem?_modify_ne _ _ hid
  refine ⟨⟨fun m f hf => ?_, fun i b hb => ?_⟩, fun m => ?_⟩
  · rw [hget] at hf
    split_ifs at hf with hne
    obtain ⟨b, hb, hrest⟩ := hs.entry m f hf
    exact ⟨b, ⟨(hother m f hne hf).trans hb.1, hb.2⟩, hrest⟩
  · have hid : e.id ≠ i := fun heq => by
      have hmod := hb.1
      rw [CheckRegistry.retire, ← heq, List.getElem?_modify_eq, ha.1] at hmod
      obtain rfl := Option.some.inj hmod
      exact Bool.noConfusion hb.2
    have hold : s.Live i b := ⟨(List.getElem?_modify_ne _ _ hid).symm.trans hb.1, hb.2⟩
    obtain ⟨f, hf, hfid⟩ := hs.live i b hold
    have hne : b.name ≠ name := fun heq => by
      rw [heq, h] at hf
      exact hid (Option.some.inj hf ▸ hfid)
    exact ⟨f, (hget _).trans ((if_neg hne).trans hf), hfid⟩
  · unfold actorOf
    rw [hget]
    split_ifs with hne
    · rfl
    · cases hf : s.checks.get? m with
      | none => rfl
      | some f => exact hother m f hne hf

/-- Spawning an actor for a check without an entry gives the check the actor. -/
theorem Coherent.spawn {s : CheckRegistry} (hs : s.Coherent) {name : String} (config : CheckConfig)
    (h : s.checks.get? name = none) :
    (s.spawn name config).Coherent ∧
      ∀ m, (s.spawn name config).actorOf m =
        if m = name then some { name, config, services := s.plan.services } else s.actorOf m := by
  have hget : ∀ m, (s.spawn name config).checks.get? m =
      if m = name then some ⟨s.actors.length, config⟩ else s.checks.get? m :=
    fun m => s.checks.get?_insert name m _
  have hnew : (s.spawn name config).actors[s.actors.length]? =
      some { name, config, services := s.plan.services } := by
    simp [CheckRegistry.spawn]
  have hold : ∀ (i : ℕ) (a : CheckActor), s.actors[i]? = some a →
      (s.spawn name config).actors[i]? = some a := by
    intro i a ha
    obtain ⟨hlt, -⟩ := List.getElem?_eq_some_iff.mp ha
    exact (List.getElem?_append_left hlt).trans ha
  refine ⟨⟨fun m f hf => ?_, fun i b hb => ?_⟩, fun m => ?_⟩
  · rw [hget] at hf
    split_ifs at hf with heq
    · obtain rfl := Option.some.inj hf
      exact ⟨_, ⟨hnew, rfl⟩, heq.symm, rfl⟩
    · obtain ⟨b, hb, hrest⟩ := hs.entry m f hf
      exact ⟨b, ⟨hold _ _ hb.1, hb.2⟩, hrest⟩
  · rcases Nat.lt_or_ge i s.actors.length with hlt | hge
    · have hlive : s.Live i b := ⟨(List.getElem?_append_left hlt).symm.trans hb.1, hb.2⟩
      obtain ⟨f, hf, hfid⟩ := hs.live i b hlive
      have hne : b.name ≠ name := fun heq => by
        rw [heq, h] at hf
        cases hf
      exact ⟨f, (hget _).trans ((if_neg hne).trans hf), hfid⟩
    · obtain ⟨hlt, -⟩ := List.getElem?_eq_some_iff.mp hb.1
      rw [CheckRegistry.spawn, List.length_append, List.length_singleton] at hlt
      obtain rfl : i = s.actors.length := by omega
      obtain rfl := Option.some.inj (hnew.symm.trans hb.1)
      exact ⟨_, (hget _).trans (if_pos rfl), rfl⟩
  · unfold actorOf
    rw [hget]
    split_ifs with heq
    · exact hnew
    · cases hf : s.checks.get? m with
      | none => rfl
      | some f =>
        obtain ⟨b, hb, -⟩ := hs.entry m f hf
        exact (hold _ _ hb.1).trans hb.1.symm

/-- The actor of a check after its turn in `sync_actors`. -/
def synced (services : IndexMap String ServiceConfig) (name : String) (config : CheckConfig)
    (old : Option CheckActor) : Option CheckActor :=
  if config.startup = .disabled then old
  else if old.map CheckActor.config = some config then old
  else some { name, config, services }

/-- A check's turn in `sync_actors` leaves the registry coherent, and gives this check the actor
that it is to have and no other one a new one. -/
theorem Coherent.syncCheck {s : CheckRegistry} (hs : s.Coherent) (e : String × CheckConfig) :
    (s.syncCheck e).plan = s.plan ∧ (s.syncCheck e).Coherent ∧
      ∀ m, (s.syncCheck e).actorOf m =
        if m = e.1 then synced s.plan.services e.1 e.2 (s.actorOf e.1) else s.actorOf m := by
  unfold CheckRegistry.syncCheck synced
  by_cases hdis : e.2.startup = .disabled
  · refine ⟨?_, ?_, fun m => ?_⟩ <;> simp only [hdis, if_true]
    · exact hs
    · split_ifs with heq
      · rw [heq]
      · rfl
  · simp only [hdis, if_false]
    cases hentry : s.checks.get? e.1 with
    | none =>
      have hnone : s.actorOf e.1 = none := by rw [actorOf, hentry]; rfl
      obtain ⟨hcoh, hactor⟩ := hs.spawn e.2 hentry
      exact ⟨rfl, hcoh, fun m => by rw [hactor, hnone]; rfl⟩
    | some entry =>
      obtain ⟨a, ha, -, -, hconfig⟩ := hs.actorOf_eq hentry
      simp only [ha, Option.map_some, hconfig, Option.some.injEq]
      by_cases heq : entry.config = e.2
      · simp only [heq, if_true]
        refine ⟨trivial, hs, fun m => ?_⟩
        split_ifs with hm
        · rw [hm, ha]
        · rfl
      · simp only [heq, if_false]
        obtain ⟨hcoh, hactor⟩ := hs.retire hentry
        have hgone : (s.retire e.1 entry).checks.get? e.1 = none :=
          (s.checks.get?_shiftRemove e.1 e.1).trans (if_pos rfl)
        obtain ⟨hcoh', hactor'⟩ := hcoh.spawn e.2 hgone
        refine ⟨rfl, hcoh', fun m => ?_⟩
        rw [hactor', hactor]
        split_ifs <;> rfl

/-- The turns of different checks leave the registry coherent, and give each of them the actor that
it is to have. -/
theorem Coherent.foldl_syncCheck {s : CheckRegistry} (hs : s.Coherent)
    {es : List (String × CheckConfig)} (hes : (es.map Prod.fst).Nodup) :
    (es.foldl CheckRegistry.syncCheck s).plan = s.plan ∧
      (es.foldl CheckRegistry.syncCheck s).Coherent ∧
      ∀ m, (es.foldl CheckRegistry.syncCheck s).actorOf m =
        match (⟨es, hes⟩ : IndexMap String CheckConfig).get? m with
        | none => s.actorOf m
        | some c => synced s.plan.services m c (s.actorOf m) := by
  induction es generalizing s with
  | nil => exact ⟨rfl, hs, fun m => rfl⟩
  | cons e es ih =>
    obtain ⟨hnot, hnodup⟩ := List.nodup_cons.mp hes
    obtain ⟨hplan, hcoh, hactor⟩ := hs.syncCheck e
    obtain ⟨hplan', hcoh', hactor'⟩ := ih hcoh hnodup
    refine ⟨hplan'.trans hplan, hcoh', fun m => ?_⟩
    rw [List.foldl_cons, hactor', hactor, hplan, IndexMap.get?_cons hes]
    by_cases hm : m = e.1
    · have hnone : (⟨es, hnodup⟩ : IndexMap String CheckConfig).get? e.1 = none :=
        IndexMap.get?_eq_none_iff.mpr hnot
      simp only [hm, hnone, if_true]
    · simp only [hm, if_false]

/-- Ending the actors of some entries leaves the registry coherent and these checks without
actors. -/
theorem Coherent.foldl_retire {s : CheckRegistry} (hs : s.Coherent)
    {es : List (String × CheckEntry)} (hes : (es.map Prod.fst).Nodup)
    (hmem : ∀ e ∈ es, s.checks.get? e.1 = some e.2) :
    (es.foldl (fun s e => s.retire e.1 e.2) s).plan = s.plan ∧
      (es.foldl (fun s e => s.retire e.1 e.2) s).Coherent ∧
      ∀ m, (es.foldl (fun s e => s.retire e.1 e.2) s).actorOf m =
        if m ∈ es.map Prod.fst then none else s.actorOf m := by
  induction es generalizing s with
  | nil => exact ⟨rfl, hs, fun m => by simp⟩
  | cons e es ih =>
    obtain ⟨hnot, hnodup⟩ := List.nodup_cons.mp hes
    obtain ⟨hcoh, hactor⟩ := hs.retire (hmem e List.mem_cons_self)
    have hrest : ∀ f ∈ es, (s.retire e.1 e.2).checks.get? f.1 = some f.2 := by
      intro f hf
      have hne : f.1 ≠ e.1 := fun heq => hnot (heq ▸ List.mem_map_of_mem hf)
      exact (s.checks.get?_shiftRemove e.1 f.1).trans
        ((if_neg hne).trans (hmem f (List.mem_cons_of_mem _ hf)))
    obtain ⟨hplan', hcoh', hactor'⟩ := ih hcoh hnodup hrest
    refine ⟨hplan', hcoh', fun m => ?_⟩
    rw [List.foldl_cons, hactor', hactor, List.map_cons]
    by_cases hm : m = e.1
    · simp only [hm, if_true, List.mem_cons, true_or, ite_self]
    · simp only [hm, if_false, List.mem_cons, false_or]

/-- A reload leaves the registry coherent with the new plan, and gives each check of it the actor
that it is to have. -/
theorem Coherent.reload {s : CheckRegistry} (hs : s.Coherent) (q : MergedPlan) :
    (s.reload q).plan = q ∧ (s.reload q).Coherent ∧
      ∀ m, (s.reload q).actorOf m =
        (q.checks.get? m).bind fun c => synced q.services m c (s.actorOf m) := by
  have hq : Coherent { s with plan := q } := ⟨hs.entry, hs.live⟩
  obtain ⟨hplan, hcoh, hactor⟩ := hq.foldl_syncCheck q.checks.nodup
  set t := q.checks.entries.foldl CheckRegistry.syncCheck { s with plan := q } with ht
  have hreload : s.reload q = t.removed.foldl (fun s e => s.retire e.1 e.2) t := rfl
  have hnodup : (t.removed.map Prod.fst).Nodup := (t.checks.filter _).nodup
  have hmem : ∀ e ∈ t.removed, t.checks.get? e.1 = some e.2 := fun e he =>
    IndexMap.get?_eq_some_iff.mpr (List.mem_of_mem_filter he)
  obtain ⟨hplan', hcoh', hactor'⟩ := hcoh.foldl_retire hnodup hmem
  refine ⟨hreload ▸ hplan'.trans hplan, hreload ▸ hcoh', fun m => ?_⟩
  rw [hreload, hactor', hactor]
  have hget : (⟨q.checks.entries, q.checks.nodup⟩ : IndexMap String CheckConfig).get? m =
      q.checks.get? m := rfl
  rw [hget]
  cases hc : q.checks.get? m with
  | some c =>
    -- A check of the plan is not removed.
    have hkeep : m ∉ t.removed.map Prod.fst := by
      intro hm
      obtain ⟨e, he, rfl⟩ := List.mem_map.mp hm
      have hnot := (List.mem_filter.mp he).2
      rw [hplan, IndexMap.contains_iff.mpr (IndexMap.mem_keys_of_get? hc)] at hnot
      cases hnot
    rw [if_neg hkeep]
    rfl
  | none =>
    split_ifs with hm
    · rfl
    · -- A check without an entry has no actor.
      have hent : t.checks.get? m = none := by
        refine Option.eq_none_iff_forall_ne_some.mpr fun e he => hm ?_
        refine List.mem_map.mpr ⟨(m, e), List.mem_filter.mpr ⟨?_, ?_⟩, rfl⟩
        · exact IndexMap.get?_eq_some_iff.mp he
        · have hnot := IndexMap.get?_eq_none_iff.mp hc
          rw [hplan, Bool.not_eq_true', Bool.eq_false_iff]
          exact fun hmem => hnot (IndexMap.contains_iff.mp hmem)
      have hnone : t.actorOf m = none := by rw [actorOf, hent]; rfl
      have hold := hactor m
      rw [hget, hc, hnone] at hold
      exact hold.symm

/-! ## Sequences of reloads -/

/-- The checks after a sequence of reloads. -/
def after (plan : MergedPlan) (plans : List MergedPlan) : CheckRegistry :=
  plans.foldl reload (start plan)

/-- The registry before `sync_actors` is run for the first time. -/
theorem coherent_empty (plan : MergedPlan) : Coherent { plan } where
  entry _ _ h := by cases h
  live i a h := by
    have := h.1
    simp at this

/-- A check that is not enabled is disabled. -/
theorem startup_eq_disabled {startup : Startup} (h : startup ≠ .enabled) :
    startup = .disabled := by
  cases startup with
  | disabled => rfl
  | enabled => exact absurd rfl h

/-- When the overlord's task starts, the registry is coherent and each check of the plan has an
actor. -/
theorem coherent_start (plan : MergedPlan) :
    (start plan).plan = plan ∧ (start plan).Coherent ∧
      ∀ m, (start plan).actorOf m =
        (plan.checks.get? m).bind fun c => synced plan.services m c none := by
  obtain ⟨hplan, hcoh, hactor⟩ := (coherent_empty plan).foldl_syncCheck plan.checks.nodup
  refine ⟨hplan, hcoh, fun m => ?_⟩
  have hget : (⟨plan.checks.entries, plan.checks.nodup⟩ : IndexMap String CheckConfig).get? m =
      plan.checks.get? m := rfl
  have := hactor m
  rw [hget] at this
  rw [start, syncActors, this]
  cases plan.checks.get? m <;> rfl

/-- At the start the actors are what the plan says if every enabled check has a period. -/
theorem mirrors_start_iff (plan : MergedPlan) : (start plan).Mirrors ↔ Ticks plan := by
  obtain ⟨hplan, hcoh, hactor⟩ := coherent_start plan
  rw [hcoh.mirrors_iff, hplan]
  constructor
  · intro h name c hc hen
    have hname := h name
    rw [hc, Option.filter_some, if_pos (decide_eq_true hen)] at hname
    exact hname.1
  · intro h name
    rw [hactor]
    cases hc : plan.checks.get? name with
    | none => rfl
    | some c =>
      by_cases hen : c.startup = .enabled
      · rw [Option.filter_some, if_pos (decide_eq_true hen)]
        refine ⟨h name c hc hen, { name, config := c, services := plan.services }, ?_, rfl,
          fun exec _ => rfl⟩
        simp [synced, hen]
      · rw [Option.filter_some, if_neg (by simp [hen]), Option.bind_some, synced,
          if_pos (startup_eq_disabled hen)]

/-- If the actors are what the plan says, a reload keeps it so exactly when it disables no check
that was enabled, changes no settings of a command of a check that stays as it is, and gives every
enabled check a period. -/
theorem mirrors_reload_iff {s : CheckRegistry} (hs : s.Coherent) (hm : s.Mirrors)
    (q : MergedPlan) : (s.reload q).Mirrors ↔ Follows s.plan q ∧ Ticks q := by
  obtain ⟨hplan, hcoh, hactor⟩ := hs.reload q
  rw [hs.mirrors_iff] at hm
  rw [hcoh.mirrors_iff, hplan]
  -- The actor of a check before the reload.
  have hold : ∀ name c, s.plan.checks.get? name = some c → c.startup = .enabled →
      ∃ a, s.actorOf name = some a ∧ a.config = c ∧ ∀ exec, c.probedExec = some exec →
        exec.settings a.services = exec.settings s.plan.services := by
    intro name c hc hen
    have hname := hm name
    rw [hc, Option.filter_some, if_pos (decide_eq_true hen)] at hname
    exact hname.2
  have hold' : ∀ name a, s.actorOf name = some a → ∃ c, s.plan.checks.get? name = some c ∧
      c.startup = .enabled := by
    intro name a ha
    have hname := hm name
    split at hname
    · rw [ha] at hname; cases hname
    · next c hsome =>
      obtain ⟨hc, hen⟩ := Option.filter_eq_some_iff.mp hsome
      exact ⟨c, hc, of_decide_eq_true hen⟩
  constructor
  · intro h
    refine ⟨⟨fun name c d hc hen hd => ?_, fun name c exec hc hd hen hexec => ?_⟩,
      fun name d hd hen => ?_⟩
    · obtain ⟨a, ha, -, -⟩ := hold name c hc hen
      cases hst : d.startup with
      | enabled => rfl
      | disabled =>
        -- The actor goes on although the check is disabled.
        have hname := h name
        rw [hactor, hd, Option.filter_some, if_neg (by simp [hst]), Option.bind_some, synced,
          if_pos hst, ha] at hname
        cases hname
    · obtain ⟨a, ha, rfl, hset⟩ := hold name c hc hen
      have hname := h name
      rw [hactor, hd, Option.filter_some, if_pos (decide_eq_true hen), Option.bind_some, synced,
        if_neg (by simp [hen]), ha, Option.map_some, if_pos rfl] at hname
      obtain ⟨-, b, hb, -, hset'⟩ := hname
      obtain rfl := Option.some.inj hb
      exact (hset exec hexec).symm.trans (hset' exec hexec)
    · have hname := h name
      rw [hd, Option.filter_some, if_pos (decide_eq_true hen)] at hname
      exact hname.1
  · rintro ⟨hf, ht⟩ name
    rw [hactor]
    cases hd : q.checks.get? name with
    | none => rfl
    | some d =>
      by_cases hen : d.startup = .enabled
      · rw [Option.filter_some, if_pos (decide_eq_true hen), Option.bind_some, synced,
          if_neg (by simp [hen])]
        refine ⟨ht name d hd hen, ?_⟩
        split_ifs with hsame
        · obtain ⟨a, ha, hconfig⟩ := Option.map_eq_some_iff.mp hsame
          obtain ⟨c, hc, hcen⟩ := hold' name a ha
          obtain ⟨b, hb, rfl, hset⟩ := hold name c hc hcen
          obtain rfl : a = b := Option.some.inj (ha.symm.trans hb)
          subst hconfig
          exact ⟨a, ha, rfl, fun exec hexec =>
            (hset exec hexec).trans (hf.settings name _ exec hc hd hcen hexec)⟩
        · exact ⟨_, rfl, rfl, fun exec _ => rfl⟩
      · rw [Option.filter_some, if_neg (by simp [hen]), Option.bind_some, synced,
          if_pos (startup_eq_disabled hen)]
        refine Option.eq_none_iff_forall_ne_some.mpr fun a ha => hen ?_
        obtain ⟨c, hc, hcen⟩ := hold' name a ha
        exact hf.disabled name c d hc hcen hd

/-- From a registry whose actors are what the plan says, they are so after every one of some reloads
exactly when each plan follows the one before it and every enabled check has a period. -/
theorem mirrors_foldl_reload_iff {s : CheckRegistry} (hs : s.Coherent) (hm : s.Mirrors)
    (plans : List MergedPlan) :
    (∀ done, done <+: plans → (done.foldl reload s).Mirrors) ↔
      List.IsChain Follows (s.plan :: plans) ∧ ∀ p ∈ plans, Ticks p := by
  induction plans generalizing s with
  | nil => simp [hm]
  | cons q plans ih =>
    obtain ⟨hplan, hcoh, -⟩ := hs.reload q
    have hstep := mirrors_reload_iff hs hm q
    have hsplit : (∀ done, done <+: q :: plans → (done.foldl reload s).Mirrors) ↔
        (s.reload q).Mirrors ∧
          ∀ done, done <+: plans → (done.foldl reload (s.reload q)).Mirrors := by
      constructor
      · intro h
        exact ⟨h [q] (by simp), fun done hd => h (q :: done) (by simpa using hd)⟩
      · rintro ⟨-, h⟩ done hd
        cases done with
        | nil => exact hm
        | cons p done =>
          obtain ⟨rfl, hrest⟩ := List.cons_prefix_cons.mp hd
          exact h done hrest
    rw [hsplit, List.isChain_cons_cons, List.forall_mem_cons]
    constructor
    · rintro ⟨hq, hrest⟩
      obtain ⟨hf, ht⟩ := hstep.mp hq
      obtain ⟨hchain, hticks⟩ := (ih hcoh hq).mp hrest
      exact ⟨⟨hf, hplan ▸ hchain⟩, ht, hticks⟩
    · rintro ⟨⟨hf, hchain⟩, ht, hticks⟩
      have hq := hstep.mpr ⟨hf, ht⟩
      exact ⟨hq, (ih hcoh hq).mpr ⟨hplan.symm ▸ hchain, hticks⟩⟩

/-- After every one of a sequence of reloads the check actors are what the plan says, exactly when
no reload disables a check that was enabled, none changes the settings of the command of a check
that stays as it is, and no enabled check has a period of zero. -/
theorem mirrors_after_iff (plan : MergedPlan) (plans : List MergedPlan) :
    (∀ done, done <+: plans → (after plan done).Mirrors) ↔
      List.IsChain Follows (plan :: plans) ∧ ∀ p ∈ plan :: plans, Ticks p := by
  obtain ⟨hplan, hcoh, -⟩ := coherent_start plan
  rw [List.forall_mem_cons, ← mirrors_start_iff]
  constructor
  · intro h
    have hm : (start plan).Mirrors := h [] List.nil_prefix
    obtain ⟨hchain, hticks⟩ := (mirrors_foldl_reload_iff hcoh hm plans).mp h
    exact ⟨hplan ▸ hchain, hm, hticks⟩
  · rintro ⟨hchain, hm, hticks⟩
    exact (mirrors_foldl_reload_iff hcoh hm plans).mpr ⟨hplan.symm ▸ hchain, hticks⟩

/-- The plan of one check. -/
def checkPlan (config : CheckConfig) : MergedPlan where
  checks := ⟨[("c", config)], by simp⟩

/-- A check that a reload disables keeps its actor. -/
theorem not_mirrors_after_disable :
    ¬∀ done, done <+: [checkPlan {}] →
      (after (checkPlan { startup := .enabled }) done).Mirrors := by
  intro h
  have hm := (h [checkPlan {}] (List.prefix_refl _)).enabled "c"
  obtain ⟨c, hc, hen⟩ := hm.mp ⟨0, _, ⟨rfl, rfl⟩, rfl⟩
  cases Option.some.inj hc
  cases hen

end CheckRegistry

end Vigil
