import Mathlib.Data.List.Induction
import Vigil.Overlord.Steps

/-!
# Services and their actors

What the overlord's map of services says about the actors, in every state of every run: every
service of the plan has an entry, and no other does; the entry's handle is that of an actor with the
service's name; and a new actor has the configuration that the plan had for its service when it was
spawned.
-/

namespace Vigil

namespace Overlord

variable (o : Overlord)

/-- The actor of a service. -/
def idOf (name : String) : Option ℕ := (o.services.get? name).map ServiceEntry.id

/-- The actor of a service is that of its entry. -/
theorem idOf_eq_some_iff {o : Overlord} {name : String} {id : ℕ} :
    o.idOf name = some id ↔ ∃ e, o.services.get? name = some e ∧ e.id = id :=
  Option.map_eq_some_iff

/-- The actors are those of the keys. -/
theorem isSome_idOf {o : Overlord} {name : String} :
    (o.idOf name).isSome ↔ name ∈ o.services.keys := by
  rw [IndexMap.mem_keys_iff, idOf, Option.isSome_map, Option.isSome_iff_exists]

/-- A service depends on another: by its `after`, its `requires`, or the other's `before`. -/
def DependsOn (o : Overlord) (name dep : String) : Prop :=
  ∃ config, o.plan.services.get? name = some config ∧ dep ∈ o.deps name config

/-! ## Events -/

/-- The overlord once the state that an event reports is in the snapshot. -/
def noted (ev : Event) (newState : ServiceState) : Overlord :=
  { o with services := o.services.modify ev.service fun e =>
      { e with state := newState, reporter := ev.src } }

/-- What `handle_svc_event` does, and the handler that it leaves. -/
inductive EventStep (o : Overlord) (ev : Event) : Overlord → List Instr → Prop
  /-- A service has begun to run: those that wait for it may be ready. -/
  | started {st : ServiceState} (hk : ev.kind = .stateChanged st) (hr : st.isRunning = true) :
    EventStep o ev (o.noted ev st).tryStartPending.1 (o.noted ev st).tryStartPending.2
  /-- A service has stopped: those that require it are stopped. -/
  | stopped {st : ServiceState} (hk : ev.kind = .stateChanged st)
    (hs : st = .inactive ∨ st = .error) :
    EventStep o ev (o.noted ev st) (((o.noted ev st).runningDependents ev.service).map fun name =>
      .request name .stop (.cascade ev.service ev.ofRestart))
  | passed {st : ServiceState} (hk : ev.kind = .stateChanged st)
    (hs : st = .stopping ∨ st = .backoff) : EventStep o ev (o.noted ev st) []
  | exited {success : Bool} (hk : ev.kind = .processExited success) : EventStep o ev o []
  | shutdown {code : ℤ} (hk : ev.kind = .daemonShutdown code) :
    EventStep o ev o (shutdown (some code))

/-- Without pending services, none is started. -/
theorem tryStartPending_of_nil {o : Overlord} (h : o.pendingAutostart = []) :
    o.tryStartPending = (o, []) := by
  obtain ⟨plan, services, pending⟩ := o
  obtain rfl : pending = [] := h
  rfl

/-- Every event is handled in one of these ways. -/
theorem eventStep (ev : Event) :
    EventStep o ev (o.handleSvcEvent ev).1 (o.handleSvcEvent ev).2 := by
  unfold handleSvcEvent
  cases hk : ev.kind with
  | processExited success => exact .exited hk
  | daemonShutdown code => exact .shutdown hk
  | stateChanged st =>
    show EventStep o ev (if _ then _ else _ : Overlord × List Instr).1 _
    have hstart := EventStep.started (o := o) hk
    simp only [Bool.and_eq_true, Bool.not_eq_true', List.isEmpty_eq_false_iff, Bool.or_eq_true,
      decide_eq_true_eq]
    split_ifs with hr hs
    · exact hstart hr.1
    · exact .stopped hk hs
    · cases st with
      | inactive => exact (hs (.inl rfl)).elim
      | error => exact (hs (.inr rfl)).elim
      | stopping => exact .passed hk (.inl rfl)
      | backoff => exact .passed hk (.inr rfl)
      | starting | active =>
        -- Nothing is pending, and then nothing is started.
        have hnil : o.pendingAutostart = [] := by_contra fun hne => hr ⟨rfl, hne⟩
        have h := hstart rfl
        rw [tryStartPending_of_nil (by exact hnil)] at h
        exact h

/-- After a report its service has the snapshot of it, and the others theirs. -/
theorem get?_noted (ev : Event) (st : ServiceState) (name : String) :
    (o.noted ev st).services.get? name =
      if name = ev.service then
        (o.services.get? name).map fun e => { e with state := st, reporter := ev.src }
      else o.services.get? name := IndexMap.get?_modify _ _ _ _

/-- A report leaves the actors where they are. -/
@[simp] theorem idOf_noted (ev : Event) (st : ServiceState) (name : String) :
    (o.noted ev st).idOf name = o.idOf name := by
  rw [idOf, idOf, get?_noted]
  split_ifs
  · rw [Option.map_map]; rfl
  · rfl

/-- Handling an event leaves the actors where they are. -/
@[simp] theorem idOf_handleSvcEvent (ev : Event) (name : String) :
    (o.handleSvcEvent ev).1.idOf name = o.idOf name := by
  have h := o.eventStep ev
  generalize (o.handleSvcEvent ev).1 = o', (o.handleSvcEvent ev).2 = is at h
  cases h with
  | exited hk | shutdown hk => rfl
  | _ => exact o.idOf_noted ev _ name

/-- Handling an event leaves the plan. -/
@[simp] theorem plan_handleSvcEvent (ev : Event) : (o.handleSvcEvent ev).1.plan = o.plan := by
  have h := o.eventStep ev
  generalize (o.handleSvcEvent ev).1 = o', (o.handleSvcEvent ev).2 = is at h
  cases h <;> rfl

/-! ## Commands and checks -/

/-- The actions of the handlers of commands. -/
inductive CmdInstr : Instr → Prop
  | request {name : String} {c : Vigil.Cmd} : CmdInstr (.request name c .operator)
  | enable {name : String} : CmdInstr (.enable name)
  | reload : CmdInstr .reload
  | forward {name : String} {id : ℕ} {signal : Signal} (h : o.idOf name = some id) :
    CmdInstr (.sendTo name id (.forwardSignal signal) .forward)
  | stopAll : CmdInstr .stopAll
  | join : CmdInstr .join
  | finish {code : Option ℤ} : CmdInstr (.finish code)

/-- The actions of the handlers of check events. -/
inductive CheckInstr (check : String) : Instr → Prop
  | restart {name : String} : CheckInstr check (.request name .restart (.checkFailure check))
  | stopAll : CheckInstr check .stopAll
  | join : CheckInstr check .join
  | finish {code : Option ℤ} : CheckInstr check (.finish code)

/-- All actions of a shutdown meet a condition if and only if `stop_all`, the join and the end
do. -/
theorem forall_mem_shutdown {p : Instr → Prop} {code : Option ℤ} :
    (∀ i ∈ shutdown code, p i) ↔ p .stopAll ∧ p .join ∧ p (.finish code) := by
  simp [shutdown]

/-- Every action that `handle_cmd` leads to is one of those that `CmdInstr` lists. -/
theorem cmdInstr_of_mem {o : Overlord} {c : Cmd} {i : Instr} (h : i ∈ o.handleCmd c) :
    o.CmdInstr i := by
  cases c with
  | services action names =>
    obtain ⟨name, -, h⟩ := List.mem_flatMap.mp h
    cases action <;> simp only [serviceAction, List.mem_cons, List.not_mem_nil, or_false] at h
    case autostart =>
      rcases h with rfl | rfl
      · exact .enable
      · exact .request
    case replan => exact h ▸ .reload
    all_goals exact h ▸ .request
  | reloadLayers => exact List.mem_singleton.mp h ▸ .reload
  | forwardSignal signal =>
    obtain ⟨e, he, rfl⟩ := List.mem_map.mp h
    exact .forward (idOf_eq_some_iff.mpr ⟨e.2, IndexMap.get?_eq_some_iff.mpr he, rfl⟩)
  | shutdown => exact forall_mem_shutdown.mpr ⟨.stopAll, .join, .finish⟩ i h
  | query => exact absurd h List.not_mem_nil

/-- Every action that `handle_check_event` leads to is one of those that `CheckInstr` lists. -/
theorem checkInstr_of_mem {o : Overlord} {check : String} {status : CheckStatus} {i : Instr}
    (h : i ∈ o.handleCheckEvent check status) : CheckInstr check i := by
  have hend : ∀ code, i ∈ shutdown code → CheckInstr check i := fun code =>
    forall_mem_shutdown.mpr ⟨.stopAll, .join, .finish⟩ i
  have hacts : ∀ es : List (String × OnExit), i ∈ checkActions check es → CheckInstr check i := by
    intro es
    induction es with
    | nil => exact fun h => absurd h List.not_mem_nil
    | cons e es ih =>
      obtain ⟨name, action⟩ := e
      cases action with
      | restart =>
        intro h
        rcases List.mem_cons.mp h with rfl | h
        · exact .restart
        · exact ih h
      | ignore => exact ih
      | shutdown | successShutdown | failureShutdown => exact hend _
  unfold handleCheckEvent at h
  split_ifs at h
  · exact hacts _ h
  · exact absurd h List.not_mem_nil

/-- What the turn of `sync_actors` over a list of services has done: the entries that were there are
there, the other entries are those of the new actors, in order, and every service of the list has
one. -/
structure Synced (before : IndexMap String ServiceEntry) (next : ℕ)
    (es : List (String × ServiceConfig))
    (r : IndexMap String ServiceEntry × List (String × ServiceConfig)) : Prop where
  old : ∀ name e, before.get? name = some e → r.1.get? name = some e
  entry : ∀ name e, r.1.get? name = some e → before.get? name = some e ∨
    ∃ i config, r.2[i]? = some (name, config) ∧ e = { id := next + i, reporter := next + i }
  sublist : r.2.Sublist es
  absent : ∀ e ∈ r.2, before.get? e.1 = none
  covered : ∀ e ∈ es, e.1 ∈ r.1.keys

/-- The turn of one more service in `sync_actors` does what is said of the turns. -/
theorem Synced.step {before : IndexMap String ServiceEntry} {next : ℕ}
    {es : List (String × ServiceConfig)}
    {r : IndexMap String ServiceEntry × List (String × ServiceConfig)}
    (h : Synced before next es r) (e : String × ServiceConfig) :
    Synced before next (es ++ [e]) (syncActor next r e) := by
  obtain ⟨hold, hentry, hsub, habsent, hcovered⟩ := h
  unfold syncActor
  split_ifs with hc
  · rw [IndexMap.contains_iff] at hc
    refine ⟨hold, hentry, ?_, habsent, fun x hx => ?_⟩
    · exact hsub.trans (List.sublist_append_left es [e])
    · rcases List.mem_append.mp hx with hx | hx
      · exact hcovered x hx
      · rw [List.mem_singleton.mp hx]; exact hc
  · rw [IndexMap.contains_iff, ← IndexMap.get?_eq_none_iff] at hc
    have hb : before.get? e.1 = none := by
      cases hb : before.get? e.1 with
      | none => rfl
      | some x => rw [hold _ _ hb] at hc; cases hc
    refine ⟨fun name x hx => ?_, fun name x hx => ?_, hsub.append_right [e], fun x hx => ?_,
      fun x hx => ?_⟩
    · rw [IndexMap.get?_insert, if_neg]
      · exact hold _ _ hx
      · rintro rfl; rw [hb] at hx; cases hx
    · rw [IndexMap.get?_insert] at hx
      split_ifs at hx with hn
      · refine .inr ⟨r.2.length, e.2, ?_, (Option.some.inj hx).symm⟩
        rw [hn, List.getElem?_append_right le_rfl, Nat.sub_self]; rfl
      · rcases hentry _ _ hx with h | ⟨i, config, hi, rfl⟩
        · exact .inl h
        · exact .inr ⟨i, config, by rw [List.getElem?_append_left
            (List.getElem?_eq_some_iff.mp hi).1]; exact hi, rfl⟩
    · rcases List.mem_append.mp hx with hx | hx
      · exact habsent x hx
      · rw [List.mem_singleton.mp hx]
        exact hb
    · rw [IndexMap.mem_keys_insert]
      rcases List.mem_append.mp hx with hx | hx
      · exact .inr (hcovered x hx)
      · rw [List.mem_singleton.mp hx]; exact .inl rfl

/-- The turns of a list of services in `sync_actors` do what is said of them. -/
theorem synced_foldl (before : IndexMap String ServiceEntry) (next : ℕ)
    (es : List (String × ServiceConfig)) :
    Synced before next es (es.foldl (syncActor next) (before, [])) := by
  induction es using List.reverseRecOn with
  | nil =>
    rw [List.foldl_nil]
    exact ⟨fun _ _ h => h, fun _ _ h => .inl h, List.Sublist.refl _,
      fun _ h => absurd h List.not_mem_nil, fun _ h => absurd h List.not_mem_nil⟩
  | append_singleton es e ih => rw [List.foldl_append]; exact ih.step e

/-- The new actors are the entries of their services. -/
theorem Synced.get?_of_getElem? {before : IndexMap String ServiceEntry} {next : ℕ}
    {es : List (String × ServiceConfig)}
    {r : IndexMap String ServiceEntry × List (String × ServiceConfig)}
    (h : Synced before next es r) (hes : (es.map Prod.fst).Nodup) {i : ℕ}
    {e : String × ServiceConfig} (hi : r.2[i]? = some e) :
    r.1.get? e.1 = some { id := next + i, reporter := next + i } := by
  have hmem : e ∈ r.2 := List.mem_of_getElem? hi
  obtain ⟨x, hx⟩ := IndexMap.mem_keys_iff.mp (h.covered e (h.sublist.subset hmem))
  rcases h.entry _ _ hx with hb | ⟨j, config, hj, rfl⟩
  · rw [h.absent e hmem] at hb; cases hb
  · -- The services of the list are distinct, and so the entry is that of this actor.
    have hnd : (r.2.map Prod.fst).Nodup := hes.sublist (h.sublist.map _)
    have hij : (r.2.map Prod.fst)[j]? = (r.2.map Prod.fst)[i]? := by
      rw [List.getElem?_map, List.getElem?_map, hi, hj]; rfl
    have hlt : j < (r.2.map Prod.fst).length := by
      rw [List.length_map]; exact (List.getElem?_eq_some_iff.mp hj).1
    rw [(List.getElem?_inj hlt hnd).mp hij] at hx
    exact hx

/-- `sync_actors` gives every service of the plan an entry and keeps the entries that were there. -/
theorem synced_syncActors (next : ℕ) :
    Synced o.services next o.plan.services.entries
      ((o.syncActors next).1.services, (o.syncActors next).2) :=
  synced_foldl o.services next o.plan.services.entries

/-- The services with an actor after `sync_actors` are those that had one and those of the plan. -/
theorem mem_keys_syncActors (next : ℕ) {name : String} :
    name ∈ (o.syncActors next).1.services.keys ↔
      name ∈ o.services.keys ∨ name ∈ o.plan.services.keys := by
  have hs := o.synced_syncActors next
  constructor
  · intro h
    obtain ⟨e, he⟩ := IndexMap.mem_keys_iff.mp h
    rcases hs.entry name e he with he | ⟨i, config, hi, -⟩
    · exact .inl (IndexMap.mem_keys_of_get? he)
    · have hmem := hs.sublist.subset (List.mem_of_getElem? hi)
      exact .inr (IndexMap.mem_keys_of_get? (IndexMap.get?_eq_some_iff.mpr hmem))
  · rintro (h | h)
    · obtain ⟨e, he⟩ := IndexMap.mem_keys_iff.mp h
      exact IndexMap.mem_keys_of_get? (hs.old name e he)
    · obtain ⟨config, hc⟩ := IndexMap.mem_keys_iff.mp h
      exact hs.covered _ (IndexMap.get?_eq_some_iff.mp hc)

/-- The entries after a reload: the services of the plan, with the actors that they had or with new
ones. -/
theorem get?_reloadLayers {plan : Plan} {next : ℕ} {name : String} {e : ServiceEntry}
    (h : (o.reloadLayers plan next).1.services.get? name = some e) :
    name ∈ plan.services.keys ∧ (o.services.get? name = some e ∨
      ∃ i config, (o.reloadLayers plan next).2.1[i]? = some (name, config) ∧
        e = { id := next + i, reporter := next + i }) := by
  have hs := synced_syncActors { o with plan } next
  change (IndexMap.filter _ _).get? name = some e at h
  rw [IndexMap.get?_filter, Option.filter_eq_some_iff] at h
  exact ⟨IndexMap.contains_iff.mp h.2, hs.entry _ _ h.1⟩

/-- What a reload leads to: shutdowns of the services that are not in the plan, and starts. -/
theorem reloadInstr_of_mem {plan : Plan} {next : ℕ} {i : Instr}
    (h : i ∈ (o.reloadLayers plan next).2.2) :
    (∃ e ∈ ({ o with plan }.syncActors next).1.removed,
      i = .sendTo e.1 e.2.id .shutdown .removal) ∨ ∃ name, i = startRequest name := by
  rcases List.mem_append.mp h with h | h
  · obtain ⟨e, he, rfl⟩ := List.mem_map.mp h
    exact .inl ⟨e, he, rfl⟩
  · obtain ⟨name, -, rfl⟩ := List.mem_map.mp h
    exact .inr ⟨name, rfl⟩

/-- The new actors of a reload are of services of the plan that had none. -/
theorem mem_spawned_reloadLayers {plan : Plan} {next : ℕ} {e : String × ServiceConfig}
    (h : e ∈ (o.reloadLayers plan next).2.1) :
    plan.services.get? e.1 = some e.2 ∧ o.services.get? e.1 = none := by
  have hs := synced_syncActors { o with plan } next
  exact ⟨IndexMap.get?_eq_some_iff.mpr (hs.sublist.subset h), hs.absent e h⟩

/-- The new actors of a reload are the actors of their services. -/
theorem idOf_spawned_reloadLayers {plan : Plan} {next i : ℕ} {e : String × ServiceConfig}
    (h : (o.reloadLayers plan next).2.1[i]? = some e) :
    (o.reloadLayers plan next).1.idOf e.1 = some (next + i) := by
  have hs := (synced_syncActors { o with plan } next).get?_of_getElem? plan.services.nodup h
  have hplan := (o.mem_spawned_reloadLayers (List.mem_of_getElem? h)).1
  refine idOf_eq_some_iff.mpr ⟨{ id := next + i, reporter := next + i }, ?_, rfl⟩
  change (IndexMap.filter _ _).get? e.1 = some _
  rw [IndexMap.get?_filter, Option.filter_eq_some_iff]
  exact ⟨hs, IndexMap.contains_iff.mpr (IndexMap.mem_keys_of_get? hplan)⟩

/-- The actor of a service stays its actor after a reload, or is sent a shutdown. -/
theorem idOf_reloadLayers (plan : Plan) (next : ℕ) {name : String} {id : ℕ}
    (h : o.idOf name = some id) : (o.reloadLayers plan next).1.idOf name = some id ∨
      .sendTo name id .shutdown .removal ∈ (o.reloadLayers plan next).2.2 := by
  obtain ⟨e, he, rfl⟩ := idOf_eq_some_iff.mp h
  have hold := (synced_syncActors { o with plan } next).old _ _ he
  by_cases hc : plan.services.contains name = true
  · refine .inl (idOf_eq_some_iff.mpr ⟨e, ?_, rfl⟩)
    change (IndexMap.filter _ _).get? name = some e
    rw [IndexMap.get?_filter, Option.filter_eq_some_iff]
    exact ⟨hold, hc⟩
  · refine .inr (List.mem_append_left _ (List.mem_map.mpr ⟨(name, e), ?_, rfl⟩))
    have hc : plan.services.contains name = false := Bool.not_eq_true _ ▸ hc
    exact List.mem_filter.mpr ⟨IndexMap.get?_eq_some_iff.mp hold, congrArg not hc⟩

/-- A reload gives every service of the plan an entry. -/
theorem mem_keys_reloadLayers {plan : Plan} {next : ℕ} {name : String} :
    name ∈ (o.reloadLayers plan next).1.services.keys ↔ name ∈ plan.services.keys := by
  constructor
  · intro h
    obtain ⟨e, he⟩ := IndexMap.mem_keys_iff.mp h
    exact (o.get?_reloadLayers he).1
  · intro h
    have hs := (mem_keys_syncActors { o with plan } next).mpr (.inr h)
    obtain ⟨e, he⟩ := IndexMap.mem_keys_iff.mp hs
    refine IndexMap.mem_keys_iff.mpr ⟨e, ?_⟩
    change (IndexMap.filter _ _).get? name = some e
    rw [IndexMap.get?_filter, Option.filter_eq_some_iff]
    exact ⟨he, IndexMap.contains_iff.mpr h⟩

/-- The plan after a reload. -/
@[simp] theorem plan_reloadLayers (plan : Plan) (next : ℕ) :
    (o.reloadLayers plan next).1.plan = plan := rfl

end Overlord

namespace Daemon

open Runs

variable {s s' : Daemon} {l : Label}

/-- A slot keeps its actor's name and configuration. -/
theorem SlotStep.static {id : ℕ} {slot slot' : Slot} (h : SlotStep s l id slot slot') :
    slot'.task.actor.name = slot.task.actor.name ∧
      slot'.task.actor.config = slot.task.actor.config := by
  rcases h.loop with h | ⟨l', hl', -⟩
  · rw [h]; exact ⟨rfl, rfl⟩
  · exact Loop.static_step hl'

/-- A step other than a reload leaves the actors of the services, and the plan but for which of its
services are started with the daemon. -/
structure Unplanned (o o' : Overlord) : Prop where
  idOf : ∀ name, o'.idOf name = o.idOf name
  keys : o'.plan.services.keys = o.plan.services.keys
  config : ∀ name config', o'.plan.services.get? name = some config' →
    ∃ config startup, o.plan.services.get? name = some config ∧ config' = { config with startup }

/-- Where the plan is the same, only the actors are to look at. -/
theorem Unplanned.of_plan {o o' : Overlord} (hp : o'.plan = o.plan)
    (hid : ∀ name, o'.idOf name = o.idOf name) : Unplanned o o' where
  idOf := hid
  keys := by rw [hp]
  config name config' hc := ⟨config', config'.startup, hp ▸ hc, rfl⟩

/-- A step leaves the actors and the plan, or it is a reload. -/
theorem overlord_step (h : s.step l = some s') :
    Unplanned s.overlord s'.overlord ∨
    ∃ plan, l = .overlord (some plan) ∧ s.todo.head? = some .reload ∧
      s'.overlord = (s.overlord.reloadLayers plan s.slots.length).1 ∧
      s'.slots = s.slots ++ (s.overlord.reloadLayers plan s.slots.length).2.1.map .new := by
  have same : s'.overlord = s.overlord → Unplanned s.overlord s'.overlord := fun he =>
    .of_plan (by rw [he]) (fun _ => by rw [he])
  cases handlerStep h with
  | same ho => exact .inl (same ho)
  | command | check => exact .inl (same rfl)
  | @event ev =>
    exact .inl (.of_plan (s.overlord.plan_handleSvcEvent ev) (s.overlord.idOf_handleSvcEvent ev))
  | overlord htodo hstep =>
    cases hstep with
    | @enable name rest =>
      refine .inl ⟨fun _ => rfl, IndexMap.keys_modify _ _ _, fun name' config' hc => ?_⟩
      simp only [Overlord.enable, IndexMap.get?_modify] at hc
      split_ifs at hc with hn
      · obtain ⟨config, hc₀, rfl⟩ := Option.map_eq_some_iff.mp hc
        exact ⟨config, .enabled, hc₀, rfl⟩
      · exact ⟨config', config'.startup, hc, rfl⟩
    | reload hl => exact .inr ⟨_, by rw [hl], by rw [htodo]; rfl, rfl, rfl⟩
    | _ => exact .inl (same rfl)

/-- The overlord's services have the plan's names, and their actors have the names of the
services. -/
structure Wired (s : Daemon) : Prop where
  keys : ∀ name, (s.overlord.idOf name).isSome ↔ name ∈ s.overlord.plan.services.keys
  slot : ∀ name id, s.overlord.idOf name = some id →
    ∃ slot, s.slots[id]? = some slot ∧ slot.task.actor.name = name

/-- No two services have the same actor. -/
theorem Wired.nodup_ids (H : s.Wired) :
    (s.overlord.services.entries.map fun e => e.2.id).Nodup := by
  have hnames := s.overlord.services.nodup
  refine List.Nodup.map_on (fun e he e' he' hid => ?_) (List.Nodup.of_map _ hnames)
  have hslot : ∀ e ∈ s.overlord.services.entries,
      ∃ slot, s.slots[e.2.id]? = some slot ∧ slot.task.actor.name = e.1 := fun e he =>
    H.slot _ _ (Overlord.idOf_eq_some_iff.mpr ⟨e.2, IndexMap.get?_eq_some_iff.mpr he, rfl⟩)
  obtain ⟨slot, hs, hn⟩ := hslot e he
  obtain ⟨slot', hs', hn'⟩ := hslot e' he'
  rw [hid, hs'] at hs
  obtain rfl := Option.some.inj hs
  exact List.inj_on_of_nodup_map hnames he he' (hn.symm.trans hn')

/-- A new actor's slot has its name. -/
theorem getElem?_new (slots : List Slot) {new : List (String × ServiceConfig)} {i : ℕ}
    {name : String} {config : ServiceConfig} (hi : new[i]? = some (name, config)) :
    (slots ++ new.map .new)[slots.length + i]? = some (.new (name, config)) := by
  rw [List.getElem?_append_right (Nat.le_add_right _ _), Nat.add_sub_cancel_left,
    List.getElem?_map, hi]
  rfl

/-- The entries that a reload leaves have slots of their names. -/
theorem wired_reload {o : Overlord} {slots : List Slot} {plan : Plan} {name : String} {id : ℕ}
    (hold : ∀ name id, o.idOf name = some id →
      ∃ slot, slots[id]? = some slot ∧ slot.task.actor.name = name)
    (h : (o.reloadLayers plan slots.length).1.idOf name = some id) :
    ∃ slot, (slots ++ (o.reloadLayers plan slots.length).2.1.map .new)[id]? = some slot ∧
      slot.task.actor.name = name := by
  obtain ⟨e, he, rfl⟩ := Overlord.idOf_eq_some_iff.mp h
  rcases (o.get?_reloadLayers he).2 with he | ⟨i, config, hi, rfl⟩
  · obtain ⟨slot, hs, hn⟩ := hold _ _ (Overlord.idOf_eq_some_iff.mpr ⟨e, he, rfl⟩)
    exact ⟨slot, by rwa [List.getElem?_append_left (List.getElem?_eq_some_iff.mp hs).1], hn⟩
  · exact ⟨.new (name, config), getElem?_new slots hi, rfl⟩

/-- An entry of the first load is that of a new actor for a service of the plan. -/
theorem get?_init {plan : Plan} {name : String} {e : ServiceEntry}
    (h : (init plan).overlord.services.get? name = some e) :
    ∃ config, plan.services.get? name = some config ∧
      (init plan).slots[e.id]? = some (.new (name, config)) ∧
        e = { id := e.id, reporter := e.id } := by
  have hs := Overlord.synced_syncActors { plan } 0
  rcases hs.entry name e h with h | ⟨i, config, hi, rfl⟩
  · cases h
  · refine ⟨config,
      IndexMap.get?_eq_some_iff.mpr (hs.sublist.subset (List.mem_of_getElem? hi)), ?_, rfl⟩
    have := getElem?_new [] hi
    rwa [List.length_nil, List.nil_append] at this

/-- The actors of the first load: each is new, and is that of its service. -/
theorem getElem?_init {plan : Plan} {id : ℕ} {slot : Slot}
    (h : (init plan).slots[id]? = some slot) :
    ∃ e, slot = .new e ∧ (init plan).overlord.idOf e.1 = some id := by
  rw [init, List.getElem?_map] at h
  obtain ⟨e, he, rfl⟩ := Option.map_eq_some_iff.mp h
  have hget := (Overlord.synced_syncActors { plan } 0).get?_of_getElem? plan.services.nodup he
  rw [Nat.zero_add] at hget
  exact ⟨e, rfl, Overlord.idOf_eq_some_iff.mpr ⟨_, hget, rfl⟩⟩

/-- Every state of every run is wired. -/
theorem wired_of_reaches {G : Daemon → Label → Prop} {plan : Plan}
    (h : Reaches step G (init plan) s) : s.Wired := by
  refine h.invariant (P := Wired) ⟨fun name => ?_, fun name id h => ?_⟩ ?_
  · rw [Overlord.isSome_idOf]
    constructor
    · intro hk
      obtain ⟨e, he⟩ := IndexMap.mem_keys_iff.mp hk
      obtain ⟨config, hc, -⟩ := get?_init he
      exact IndexMap.mem_keys_of_get? hc
    · intro hk
      obtain ⟨config, hc⟩ := IndexMap.mem_keys_iff.mp hk
      exact (Overlord.synced_syncActors { plan } 0).covered _ (IndexMap.get?_eq_some_iff.mp hc)
  · obtain ⟨e, he, rfl⟩ := Overlord.idOf_eq_some_iff.mp h
    obtain ⟨config, -, hs, -⟩ := get?_init he
    exact ⟨_, hs, rfl⟩
  · intro s l s' _ H _ hl
    rcases overlord_step hl with hu | ⟨plan, -, -, ho, hslots⟩
    · refine ⟨fun name => ?_, fun name id h => ?_⟩
      · rw [hu.idOf, hu.keys]; exact H.keys name
      · rw [hu.idOf] at h
        obtain ⟨slot, hs, hn⟩ := H.slot _ _ h
        obtain ⟨slot', hs', hstep⟩ := exists_slot_step hl hs
        exact ⟨slot', hs', hstep.static.1.trans hn⟩
    · refine ⟨fun name => ?_, fun name id h => ?_⟩
      · rw [ho, Overlord.isSome_idOf, Overlord.mem_keys_reloadLayers, Overlord.plan_reloadLayers]
      · rw [ho] at h
        rw [hslots]
        exact wired_reload H.slot h

end Daemon

end Vigil
