import Vigil.Overlord.Intent

/-!
# The actions on services

`handle_services_action`, whose one loop over the targets stands for five actions, next to what the
API says of two of them: that `autostart` without names starts the services that start with the
daemon, and that `replan` is an alias for a reload.

The loop enables every target of an `autostart` in the plan before it starts it, and it reloads once
for each target of a `replan`. `actionsMean_iff` says when this comes to the same, for every state
that is reached and every way that the handler goes on from there to its end.
-/

namespace Vigil

open Runs

namespace Overlord

/-- The plan in which some services have been enabled. -/
def enableAll (o : Overlord) (names : List String) : Overlord := names.foldl enable o

/-- The service that an action of a handler asks to start. -/
def Instr.start? : Instr → Option String
  | .request name .start _ => some name
  | .sendTo name _ .start _ => some name
  | _ => none

/-- The service that an action of a handler enables. -/
def Instr.enabled? : Instr → Option String
  | .enable name => some name
  | _ => none

/-- The actions of an `autostart` of services that the overlord has. -/
inductive Instr.OfAutostart (o : Overlord) : Instr → Prop
  | enable {name} : OfAutostart o (.enable name)
  | request {name} (h : (o.services.get? name).isSome) :
    OfAutostart o (.request name .start .operator)
  | sendTo {name id} : OfAutostart o (.sendTo name id .start .operator)
  | await {id} : OfAutostart o (.await id)

/-- The startup setting of a service. -/
def startupOf (o : Overlord) (name : String) : Option Startup :=
  (o.plan.services.get? name).map ServiceConfig.startup

variable {o : Overlord}

/-- Enabling services keeps the others as they are. -/
theorem startupOf_enable (name name' : String) :
    (o.enable name).startupOf name' =
      if name' = name then (o.startupOf name').map fun _ => .enabled else o.startupOf name' := by
  unfold startupOf enable
  rw [IndexMap.get?_modify]
  split_ifs
  · cases o.plan.services.get? name' <;> rfl
  · rfl

/-- The startup settings after some services have been enabled. -/
theorem startupOf_enableAll (names : List String) (name : String) :
    (o.enableAll names).startupOf name =
      if name ∈ names then (o.startupOf name).map fun _ => .enabled else o.startupOf name := by
  unfold enableAll
  induction names generalizing o with
  | nil => simp
  | cons n names ih =>
    rw [List.foldl_cons, ih, startupOf_enable]
    by_cases hn : name = n
    · subst hn
      cases o.startupOf name <;> simp
    · simp [hn]

/-- An `autostart` asks to start its targets. -/
theorem filterMap_start?_autostart (names : List String) :
    (names.flatMap (serviceAction .autostart)).filterMap Instr.start? = names := by
  induction names with
  | nil => rfl
  | cons n names ih => exact congrArg (n :: ·) ih

/-- The actions of an autostart enable just the services that it names, in order. -/
theorem filterMap_enabled?_autostart (names : List String) :
    (names.flatMap (serviceAction .autostart)).filterMap Instr.enabled? = names := by
  induction names with
  | nil => rfl
  | cons n names ih => exact congrArg (n :: ·) ih

/-- A `replan` reloads once for each target. -/
theorem handleCmd_replan (names : List String) :
    o.handleCmd (.services .replan names) = List.replicate (o.targets names).length .reload := by
  have hreplicate : ∀ targets : List String, targets.flatMap (serviceAction .replan) =
      List.replicate targets.length .reload := by
    intro targets
    induction targets with
    | nil => rfl
    | cons n targets ih => exact congrArg (.reload :: ·) ih
  exact hreplicate _

end Overlord

open Overlord (Instr)

/-- The service that a start has been sent to. -/
def Entry.start? : Entry → Option String
  | .sent name _ .start _ => some name
  | _ => none

namespace Daemon

variable {s s' t : Daemon} {l : Label}

/-- The services that a start has been sent to, in order. -/
def starts (s : Daemon) : List String := s.log.reverse.filterMap Entry.start?

/-- The overlord is not done with its handler. -/
def Busy (s : Daemon) (_ : Label) : Prop := s.todo ≠ []

instance (l : Label) : Decidable (Busy s l) := inferInstanceAs (Decidable (s.todo ≠ []))

/-- `autostart` means what the API says: the starts that have been sent since are those of the
services that start with the daemon, and no startup setting has changed. -/
structure AutostartMeans (s t : Daemon) : Prop where
  starts : ∃ sent, t.starts = s.starts ++ sent ∧
    ∀ name, name ∈ sent ↔ s.overlord.startupOf name = some .enabled
  startup : ∀ name, t.overlord.startupOf name = s.overlord.startupOf name

/-- `replan` means what the API says: it reloads once, as the command of `POST /v1/replan` does. -/
structure ReplanMeans (s : Daemon) (names : List String) : Prop where
  once : (s.overlord.handleCmd (.services .replan names)).count .reload = 1
  same : s.step (.command (.services .replan names)) = s.step (.command .reloadLayers)

/-! ## The handler of an `autostart` -/

/-- How far the handler is: what has been sent and what is left come to the starts of the targets,
and what has been enabled and what is left to the targets. -/
structure Autostarting (o : Overlord) (before names : List String) (s : Daemon) : Prop where
  todo : ∀ i ∈ s.todo, Instr.OfAutostart o i
  services : s.overlord.services = o.services
  starts : s.starts ++ s.todo.filterMap Instr.start? = before ++ names
  plan : s.overlord.enableAll (s.todo.filterMap Instr.enabled?) = o.enableAll names

/-- Every step of the handler keeps this. -/
theorem Autostarting.step {o : Overlord} {before names : List String}
    (h : Autostarting o before names s) (hbusy : Busy s l) (hl : s.step l = some s') :
    Autostarting o before names s' := by
  have head : s.atHead = true → False := fun hh => by
    simp only [atHead, Bool.and_eq_true, List.isEmpty_iff] at hh
    exact hbusy hh.1
  cases handlerStep hl with
  | same ho ht hlog he =>
    refine ⟨ht ▸ h.todo, ho ▸ h.services, ?_, ht ▸ ho ▸ h.plan⟩
    rw [Daemon.starts, hlog, ht]
    exact h.starts
  | command hh | event hh | check hh => exact (head hh).elim
  | @overlord load i rest s' htodo hstep =>
    obtain ⟨hi, hrest⟩ := List.forall_mem_cons.mp (htodo ▸ h.todo)
    have hstarts := h.starts
    have hplan := h.plan
    rw [htodo] at hstarts hplan
    cases hstep with
    | unknown hn =>
      cases hi with
      | request hsome =>
        rw [← h.services, hn] at hsome
        cases hsome
    | request he =>
      cases hi with
      | request hsome =>
        refine ⟨?_, h.services, hstarts, hplan⟩
        exact List.forall_mem_cons.mpr ⟨.sendTo, List.forall_mem_cons.mpr ⟨.await, hrest⟩⟩
    | sendTo hs hp =>
      cases hi with
      | sendTo =>
        refine ⟨hrest, h.services, ?_, hplan⟩
        simpa [Daemon.starts, Entry.start?, Instr.start?] using hstarts
    | await hs ha => exact ⟨hrest, h.services, hstarts, hplan⟩
    | enable => exact ⟨hrest, h.services, hstarts, hplan⟩
    | reloadFailed | reload | stopAll | join | finish => cases hi

/-- Taking the command `autostart` without names begins the handler for all services of the plan. -/
theorem autostarting_of_command (hw : s.Wired)
    (hl : s.step (.command (.services .autostart [])) = some s') :
    Autostarting s.overlord s.starts s.overlord.plan.services.keys s' := by
  obtain ⟨-, rfl⟩ := step_command hl
  have htodo : s.overlord.handleCmd (.services .autostart []) =
      s.overlord.plan.services.keys.flatMap (Overlord.serviceAction .autostart) := rfl
  refine ⟨fun i hi => ?_, rfl, ?_, ?_⟩
  · obtain ⟨name, hname, hi⟩ := List.mem_flatMap.mp (htodo ▸ hi)
    simp only [Overlord.serviceAction, List.mem_cons, List.not_mem_nil, or_false] at hi
    rcases hi with rfl | rfl
    · exact .enable
    · exact .request (Option.isSome_map ▸ (hw.keys name).mpr hname)
  · dsimp only
    rw [htodo, Overlord.filterMap_start?_autostart]
    rfl
  · dsimp only
    rw [htodo, Overlord.filterMap_enabled?_autostart]

/-- The handler sends a start to every service of the plan, and enables every one. -/
theorem autostart_done (hw : s.Wired) (hl : s.step (.command (.services .autostart [])) = some s')
    (hrun : Reaches step Busy s' t) (hdone : t.todo = []) :
    t.starts = s.starts ++ s.overlord.plan.services.keys ∧
      t.overlord = s.overlord.enableAll s.overlord.plan.services.keys := by
  have h := hrun.invariant (autostarting_of_command hw hl)
    fun _ _ _ _ h hbusy hl => h.step hbusy hl
  have hstarts := h.starts
  have hplan := h.plan
  rw [hdone] at hstarts hplan
  exact ⟨(List.append_nil _).symm.trans hstarts, hplan⟩

/-- `autostart` means what the API says if and only if every service of the plan starts with the
daemon. -/
theorem autostartMeans_iff (hw : s.Wired)
    (hl : s.step (.command (.services .autostart [])) = some s') (hrun : Reaches step Busy s' t)
    (hdone : t.todo = []) :
    AutostartMeans s t ↔
      ∀ name, name ∈ s.overlord.plan.services.keys → s.overlord.startupOf name = some .enabled := by
  obtain ⟨hstarts, hplan⟩ := autostart_done hw hl hrun hdone
  constructor
  · intro h name hname
    obtain ⟨sent, hsent, hiff⟩ := h.starts
    obtain rfl : s.overlord.plan.services.keys = sent :=
      List.append_cancel_left (hstarts.symm.trans hsent)
    exact (hiff name).mp hname
  · intro h
    refine ⟨⟨_, hstarts, fun name => ⟨h name, fun hname => ?_⟩⟩, fun name => ?_⟩
    · obtain ⟨config, hconfig, -⟩ := Option.map_eq_some_iff.mp hname
      exact IndexMap.mem_keys_of_get? hconfig
    · rw [hplan, Overlord.startupOf_enableAll]
      split_ifs with hname
      · rw [h name hname]
        rfl
      · rfl

/-! ## The handler of a `replan` -/

/-- `replan` means what the API says if and only if it has one target. -/
theorem replanMeans_iff (hh : s.atHead = true) (names : List String) :
    ReplanMeans s names ↔ (s.overlord.targets names).length = 1 := by
  have hcmd := s.overlord.handleCmd_replan names
  constructor
  · intro h
    have honce := h.once
    rwa [hcmd, List.count_replicate_self] at honce
  · intro h
    refine ⟨?_, ?_⟩
    · rw [hcmd, List.count_replicate_self, h]
    · simp only [step, hh, if_true, hcmd, h]
      rfl

/-- In every state that is reached, the two actions mean what the API says if and only if every
service of the plan starts with the daemon, and the `replan` has one target. -/
theorem actionsMean_iff {plan : Plan} (hs : Reaches step Always (init plan) s)
    (hl : s.step (.command (.services .autostart [])) = some s') (hrun : Reaches step Busy s' t)
    (hdone : t.todo = []) (names : List String) :
    AutostartMeans s t ∧ ReplanMeans s names ↔
      (∀ name, name ∈ s.overlord.plan.services.keys →
        s.overlord.startupOf name = some .enabled) ∧
      (s.overlord.targets names).length = 1 :=
  and_congr (autostartMeans_iff (wired_of_reaches hs) hl hrun hdone)
    (replanMeans_iff (step_command hl).1 names)

/-- The two actions mean what the API says for a plan of one service that starts with the daemon. -/
theorem actionsMean_webPlan :
    ∃ s s' t, Reaches step Always
        (init (webPlan { command := some "/bin/a", startup := .enabled })) s ∧
      s.step (.command (.services .autostart [])) = some s' ∧ Reaches step Busy s' t ∧
      t.todo = [] ∧ AutostartMeans s t ∧ ReplanMeans s [] := by
  have h : (runIf step Always (init (webPlan { command := some "/bin/a", startup := .enabled }))
      (startLabels 0)).any (fun s : Daemon =>
        decide (s.overlord.plan.services.keys = ["web"]) &&
        decide (s.overlord.startupOf "web" = some .enabled) &&
        (s.step (.command (.services .autostart []))).any fun s' =>
          (runIf step Busy s' [.overlord none, .overlord none, .overlord none,
            .input 0 (.cmd .start true), .act 0, .overlord none]).any fun t =>
              t.todo.isEmpty) = true := by
    decide +kernel
  obtain ⟨s, hs, h⟩ := Reaches.exists_of_runIf _ h
  simp only [Bool.and_eq_true, decide_eq_true_eq] at h
  obtain ⟨⟨hkeys, henabled⟩, h⟩ := h
  obtain ⟨s', hl, h⟩ := (Option.any_eq_true _ _).mp h
  obtain ⟨t, hrun, hdone⟩ := Reaches.exists_of_runIf _ h
  rw [List.isEmpty_iff] at hdone
  have hall : ∀ name, name ∈ s.overlord.plan.services.keys →
      s.overlord.startupOf name = some .enabled := by
    intro name hname
    rw [hkeys, List.mem_singleton] at hname
    rw [hname, henabled]
  have hone : (s.overlord.targets []).length = 1 := congrArg List.length hkeys
  obtain ⟨hauto, hreplan⟩ := (actionsMean_iff hs hl hrun hdone []).mpr ⟨hall, hone⟩
  exact ⟨s, s', t, hs, hl, hrun, hdone, hauto, hreplan⟩

/-- `autostart` starts a disabled service and enables it. `replan` does nothing without services,
and reloads twice for two names. -/
theorem not_actionsMean :
    (∃ s' t, (init (webPlan { command := some "/bin/a" })).step
        (.command (.services .autostart [])) = some s' ∧ Reaches step Busy s' t ∧ t.todo = [] ∧
      t.starts = ["web"] ∧ t.overlord.startupOf "web" = some .enabled ∧
      ¬AutostartMeans (init (webPlan { command := some "/bin/a" })) t) ∧
    (init {}).overlord.handleCmd (.services .replan []) = [] ∧
    (init {}).overlord.handleCmd (.services .replan ["a", "b"]) = [.reload, .reload] ∧
    ¬ReplanMeans (init {}) [] ∧ ¬ReplanMeans (init {}) ["a", "b"] := by
  have h : ((init (webPlan { command := some "/bin/a" })).step
      (.command (.services .autostart []))).any (fun s' : Daemon =>
        (runIf step Busy s' (.overlord none :: startLabels 0)).any fun t =>
          t.todo.isEmpty && decide (t.starts = ["web"]) &&
            decide (t.overlord.startupOf "web" = some .enabled)) = true := by
    decide +kernel
  obtain ⟨s', hl, h⟩ := (Option.any_eq_true _ _).mp h
  obtain ⟨t, hrun, h⟩ := Reaches.exists_of_runIf _ h
  simp only [Bool.and_eq_true, decide_eq_true_eq, List.isEmpty_iff] at h
  obtain ⟨⟨hdone, hstarts⟩, hstartup⟩ := h
  refine ⟨⟨s', t, hl, hrun, hdone, hstarts, hstartup, fun hmeans => ?_⟩, rfl, rfl, fun h => ?_,
    fun h => ?_⟩
  · exact absurd (hstartup.symm.trans (hmeans.startup "web")) (by decide)
  · exact absurd h.once (by decide)
  · exact absurd h.once (by decide)

end Daemon

end Vigil
