import Vigil.Overlord.Wiring

/-!
# The gauges of the services

`metrics/mod.rs`, as far as it is about services that come and go: `set_services`, which
`sync_actors` calls, and `set_service_active`, which an actor calls at each transition. The other
families of `MetricsStore` count starts, checks and alerts, and are left out. A family is the map of
its gauges by the label `service`, to which gauges are only ever added.

`Metered` is the daemon with its gauges. A reload sets them after the services of the new plan have
got their actors, and before those that are no longer in the plan are taken out of the map. So they
follow the plan as long as no reload removes a service, and no longer (`followsPlan_iff`). A service
is shown as active only if one of its actors is in that state, and an actor that is shut down
returns in the state that it is in (`shown_of_reaches`).
-/

namespace Vigil

/-! ## The functions of the source -/

/-- `MetricsStore`, less the families that are not about which services there are. -/
structure MetricsStore where
  /-- `vigil_service_active`. -/
  serviceActive : IndexMap String ℤ := ∅
  /-- `vigil_service_info`. -/
  serviceInfo : IndexMap String ℤ := ∅
  /-- `vigil_services_count`. -/
  servicesCount : ℤ := 0

namespace MetricsStore

variable (m : MetricsStore)

/-- `set_services`. -/
def setServices (names : List String) : MetricsStore :=
  { m with
    serviceInfo := names.foldl (fun info name => info.insert name 1) m.serviceInfo
    servicesCount := names.length }

/-- `set_service_active`. -/
def setServiceActive (service : String) (active : Bool) : MetricsStore :=
  { m with serviceActive := m.serviceActive.insert service (if active then 1 else 0) }

/-- The gauges that are `1` after `set_services`: those of the names, and those that were. -/
theorem get?_setServices (names : List String) (name : String) :
    (m.setServices names).serviceInfo.get? name = some 1 ↔
      name ∈ names ∨ m.serviceInfo.get? name = some 1 := by
  unfold setServices
  dsimp only
  generalize m.serviceInfo = info
  induction names generalizing info with
  | nil => simp
  | cons n names ih =>
    rw [List.foldl_cons, ih, IndexMap.get?_insert, List.mem_cons]
    split_ifs with h
    · simp [h]
    · simp [h]

end MetricsStore

/-- The daemon and its gauges. -/
structure Metered where
  daemon : Daemon
  metrics : MetricsStore := {}

namespace Metered

open Daemon (Label webPlan startLabels)
open Runs

/-- The daemon after `init`, in which `sync_actors` has set the gauges. -/
def init (plan : Plan) : Metered where
  daemon := .init plan
  metrics := MetricsStore.setServices {} (Overlord.syncActors { plan } 0).1.services.keys

variable (m : Metered)

/-- The gauges after a step: an actor's transition sets the one of its service, and `sync_actors` in
a reload sets those of all the services that have an actor then. -/
def record : Label → MetricsStore
  | .act id =>
    match m.daemon.slots[id]? with
    | none => m.metrics
    | some slot =>
      match slot.task.todo with
      | .transition st _ :: _ =>
        m.metrics.setServiceActive slot.task.actor.name (decide (st = .active))
      | _ => m.metrics
  | .overlord (some plan) =>
    match m.daemon.todo with
    | .reload :: _ =>
      m.metrics.setServices
        ({ m.daemon.overlord with plan }.syncActors m.daemon.slots.length).1.services.keys
    | _ => m.metrics
  | _ => m.metrics

/-- A step of the daemon, with what it does to the gauges. -/
def step (l : Label) : Option Metered :=
  (m.daemon.step l).map fun daemon => { daemon, metrics := m.record l }

/-! ## What the gauges are to say -/

/-- The number of services is that of the plan, the services that are there are those of the plan,
and a service that is not is not shown as active once its actor has ended. -/
structure FollowsPlan : Prop where
  count : m.metrics.servicesCount = m.daemon.overlord.plan.services.keys.length
  info : ∀ name, m.metrics.serviceInfo.get? name = some 1 ↔
    name ∈ m.daemon.overlord.plan.services.keys
  active : ∀ slot ∈ m.daemon.slots, slot.task.ended = true →
    slot.task.actor.name ∉ m.daemon.overlord.plan.services.keys →
      m.metrics.serviceActive.get? slot.task.actor.name ≠ some 1

/-- The step is no reload that removes a service from the plan. -/
def RemovesNone : Label → Prop
  | .overlord (some plan) => m.daemon.todo.head? = some .reload →
    ∀ name ∈ m.daemon.overlord.plan.services.keys, name ∈ plan.services.keys
  | _ => True

variable {m} {m' : Metered} {l : Label}

/-- A step of both is a step of the daemon. -/
theorem step_eq_some_iff : m.step l = some m' ↔
    m.daemon.step l = some m'.daemon ∧ m'.metrics = m.record l := by
  obtain ⟨daemon', metrics'⟩ := m'
  rw [step, Option.map_eq_some_iff]
  constructor
  · rintro ⟨daemon, h, heq⟩
    obtain ⟨rfl, rfl⟩ := Metered.mk.inj heq
    exact ⟨h, rfl⟩
  · rintro ⟨h, rfl⟩
    exact ⟨daemon', h, rfl⟩

/-- A run of both is a run of the daemon. -/
theorem reaches_daemon {G : Metered → Label → Prop} {plan : Plan}
    (h : Reaches step G (init plan) m) : Reaches Daemon.step Always (.init plan) m.daemon := by
  induction h with
  | refl => exact .refl
  | tail _ _ hs ih => exact ih.tail trivial (step_eq_some_iff.mp hs).1

/-- The overlord's next action is to reload the plan. -/
def Reloads (m : Metered) (l : Label) (plan : Plan) : Prop :=
  l = .overlord (some plan) ∧ m.daemon.todo.head? = some .reload

/-- A reload sets the gauges of the services that have entries after it. -/
theorem Reloads.record {plan : Plan} (h : m.Reloads l plan) : m.record l =
    m.metrics.setServices
      ({ m.daemon.overlord with plan }.syncActors m.daemon.slots.length).1.services.keys := by
  obtain ⟨rfl, hhead⟩ := h
  obtain ⟨rest, htodo⟩ := List.head?_eq_some_iff.mp hhead
  rw [Metered.record, htodo]

/-- A reload gives the overlord the new plan, and puts the new actors behind the others. -/
theorem Reloads.daemon {plan : Plan} (h : m.Reloads l plan) (hs : m.step l = some m') :
    m'.daemon.overlord = (m.daemon.overlord.reloadLayers plan m.daemon.slots.length).1 ∧
      m'.daemon.slots = m.daemon.slots ++
        (m.daemon.overlord.reloadLayers plan m.daemon.slots.length).2.1.map .new := by
  obtain ⟨rfl, hhead⟩ := h
  obtain ⟨i, rest, htodo, hstep⟩ := Daemon.step_overlord (step_eq_some_iff.mp hs).1
  rw [htodo] at hhead
  obtain rfl := Option.some.inj hhead
  generalize m'.daemon = d at hstep
  cases hstep with
  | reloadFailed hl => cases hl
  | reload hl =>
    obtain rfl := Option.some.inj hl
    exact ⟨rfl, rfl⟩

/-- A step that is no reload leaves the gauges of the plan. -/
theorem record_of_not_reloads (hr : ∀ plan, ¬ m.Reloads l plan) :
    (m.record l).servicesCount = m.metrics.servicesCount ∧
      (m.record l).serviceInfo = m.metrics.serviceInfo := by
  unfold record
  split
  · split
    · exact ⟨rfl, rfl⟩
    · split <;> exact ⟨rfl, rfl⟩
  · next plan =>
    split
    · next h => exact absurd ⟨rfl, by rw [h]; rfl⟩ (hr plan)
    · exact ⟨rfl, rfl⟩
  · exact ⟨rfl, rfl⟩

/-- A step that is no reload leaves the services of the plan, and the actors. -/
theorem daemon_of_not_reloads (hr : ∀ plan, ¬ m.Reloads l plan) (hs : m.step l = some m') :
    m'.daemon.overlord.plan.services.keys = m.daemon.overlord.plan.services.keys ∧
      ∀ (id : ℕ) slot', m'.daemon.slots[id]? = some slot' → ∃ slot,
        m.daemon.slots[id]? = some slot ∧ slot'.task.actor.name = slot.task.actor.name := by
  have hstep := (step_eq_some_iff.mp hs).1
  constructor
  · rcases Daemon.overlord_step hstep with hu | ⟨plan, hl, hhead, -⟩
    · exact hu.keys
    · exact absurd ⟨hl, hhead⟩ (hr plan)
  · intro id slot' hs'
    rcases Daemon.slot_step hstep hs' with ⟨slot, hs, hslot⟩ | ⟨-, -, -, plan, rest, hl, htodo, -⟩
    · exact ⟨slot, hs, hslot.static.1⟩
    · exact absurd ⟨hl, by rw [htodo]; rfl⟩ (hr plan)

/-! ## What the gauge of a service says of its actors -/

/-- A service that is shown as active has an actor that is in that state, or was in it when it
returned. -/
def Shown (m : Metered) : Prop :=
  ∀ name, m.metrics.serviceActive.get? name = some 1 →
    ∃ (id : ℕ) (slot : Slot), m.daemon.slots[id]? = some slot ∧ slot.task.actor.name = name ∧
      slot.task.actor.state = .active

/-- The actor's next action is a transition. -/
def Transitions (m : Metered) (l : Label) (id : ℕ) (slot : Slot) (st : ServiceState) : Prop :=
  l = .act id ∧ m.daemon.slots[id]? = some slot ∧
    ∃ ofRestart rest, slot.task.todo = .transition st ofRestart :: rest

/-- An action that is no transition leaves the state. -/
theorem state_exec (a : Actor) {i : Instr} (h : ∀ st r, i ≠ .transition st r) :
    (a.exec i).state = a.state := by
  cases i with
  | transition st r => exact absurd rfl (h st r)
  | _ => rfl

/-- A step leaves an actor's state, or the actor makes a transition. -/
theorem state_slotStep {id : ℕ} {slot slot' : Slot} (hs : m.daemon.slots[id]? = some slot)
    (h : Daemon.SlotStep m.daemon l id slot slot') :
    slot'.task.actor.state = slot.task.actor.state ∨
      ∃ st, m.Transitions l id slot st ∧ slot'.task.actor.state = st := by
  cases h with
  | same => exact .inl rfl
  | act hl hc ht =>
    obtain ⟨-, i, rest, htodo, -, rfl⟩ := Task.act_eq_some_iff.mp ht
    by_cases hi : ∃ st r, i = .transition st r
    · obtain ⟨st, r, rfl⟩ := hi
      exact .inr ⟨st, ⟨hl, hs, r, rest, htodo⟩, rfl⟩
    · exact .inl (state_exec _ fun st r heq => hi ⟨st, r, heq⟩)
  | deliver hl ht =>
    obtain ⟨k, -, rfl⟩ := Task.deliver_eq_some_iff.mp ht
    exact .inl rfl
  | input hl hm ht =>
    obtain ⟨-, -, rfl⟩ := Task.take_eq_some_iff.mp ht
    exact .inl rfl
  | sent hl htodo hp => exact .inl (by rw [Slot.task_push hp])
  | answered hl htodo ha => exact .inl (by rw [Slot.task_takeAnswer ha])
  | stopTask hl hi hid hp => exact .inl (by rw [hp.task])

/-- A transition sets the service's gauge to whether it is active. -/
theorem Transitions.record {id : ℕ} {slot : Slot} {st : ServiceState}
    (h : m.Transitions l id slot st) :
    m.record l = m.metrics.setServiceActive slot.task.actor.name (decide (st = .active)) := by
  obtain ⟨rfl, hs, r, rest, htodo⟩ := h
  simp only [Metered.record, hs, htodo]

/-- A transition sets the state of its actor. -/
theorem Transitions.daemon {id : ℕ} {slot : Slot} {st : ServiceState}
    (h : m.Transitions l id slot st) (hs : m.step l = some m') :
    ∃ slot', m'.daemon.slots[id]? = some slot' ∧
      slot'.task.actor.name = slot.task.actor.name ∧ slot'.task.actor.state = st := by
  obtain ⟨hstep, -⟩ := step_eq_some_iff.mp hs
  obtain ⟨slot', hs', hslot⟩ := Daemon.exists_slot_step hstep h.2.1
  refine ⟨slot', hs', hslot.static.1, ?_⟩
  obtain ⟨rfl, hslot₀, r, rest, htodo⟩ := h
  obtain ⟨slot₁, t, hslot₁, -, hact, hd⟩ := Daemon.step_act hstep
  obtain rfl := Option.some.inj (hslot₀.symm.trans hslot₁)
  obtain ⟨-, i, rest', htodo', -, rfl⟩ := Task.act_eq_some_iff.mp hact
  obtain ⟨rfl, rfl⟩ := List.cons.inj (htodo.symm.trans htodo')
  rw [hd] at hs'
  rcases Daemon.getElem?_setSlot hs' with ⟨-, rfl⟩ | ⟨hne, -⟩
  · rfl
  · exact absurd rfl hne

/-- A step without a transition leaves the gauges of the actors. -/
theorem record_of_not_transitions (h : ∀ id slot st, ¬ m.Transitions l id slot st) :
    (m.record l).serviceActive = m.metrics.serviceActive := by
  unfold record
  split
  · next id =>
    split
    · rfl
    · next slot hs =>
      split
      · next st r rest htodo => exact absurd ⟨rfl, hs, r, rest, htodo⟩ (h id slot st)
      · rfl
  · split <;> rfl
  · rfl

/-- After every step, what is shown as active has an actor in that state. -/
theorem Shown.step (H : m.Shown) (h : m.step l = some m') : m'.Shown := by
  obtain ⟨hstep, hrec⟩ := step_eq_some_iff.mp h
  -- An actor in the state stays in it, or makes the transition that sets the gauge.
  have stays : ∀ {name : String} {id : ℕ} {slot : Slot}, m.daemon.slots[id]? = some slot →
      slot.task.actor.name = name → slot.task.actor.state = .active →
        (∀ st, ¬ m.Transitions l id slot st) → ∃ (id : ℕ) (slot : Slot),
          m'.daemon.slots[id]? = some slot ∧ slot.task.actor.name = name ∧
            slot.task.actor.state = .active := by
    intro name id slot hs hname hstate hno
    obtain ⟨slot', hs', hslot⟩ := Daemon.exists_slot_step hstep hs
    rcases state_slotStep hs hslot with hsame | ⟨st, htrans, -⟩
    · exact ⟨id, slot', hs', hslot.static.1.trans hname, hsame.trans hstate⟩
    · exact absurd htrans (hno st)
  intro name hget
  rw [hrec] at hget
  by_cases htrans : ∃ id slot st, m.Transitions l id slot st
  · obtain ⟨id, slot, st, htrans⟩ := htrans
    rw [htrans.record, MetricsStore.setServiceActive, IndexMap.get?_insert] at hget
    split_ifs at hget with hname hactive
    · -- The gauge has just been set by this actor.
      obtain ⟨slot', hs', hname', hstate⟩ := htrans.daemon h
      exact ⟨id, slot', hs', hname'.trans hname.symm, hstate.trans (of_decide_eq_true hactive)⟩
    · cases hget
    · -- It has been set by an actor of another service.
      obtain ⟨id', slot', hs', hname', hstate⟩ := H name hget
      refine stays hs' hname' hstate fun st' htrans' => hname ?_
      obtain rfl := Daemon.Label.act.inj (htrans.1.symm.trans htrans'.1)
      obtain rfl := Option.some.inj (hs'.symm.trans htrans.2.1)
      exact hname'.symm
  · have hno : ∀ id slot st, ¬ m.Transitions l id slot st := fun id slot st ht =>
      htrans ⟨id, slot, st, ht⟩
    rw [record_of_not_transitions hno] at hget
    obtain ⟨id, slot, hs, hname, hstate⟩ := H name hget
    exact stays hs hname hstate (hno id slot)

/-- In every run a service is shown as active only if one of its actors is in that state, or has
returned in it: `cleanup` makes no transition. -/
theorem shown_of_reaches {G : Metered → Label → Prop} {plan : Plan}
    (h : Reaches step G (init plan) m) : m.Shown :=
  h.invariant (P := Shown) (fun _ hget => nomatch hget) fun _ _ _ _ H _ hs => H.step hs

/-! ## What holds while no service is removed -/

/-- What holds while no reload has removed a service: the gauges of the plan follow it, and every
actor is of a service of the plan. -/
structure Kept (m : Metered) : Prop where
  count : m.metrics.servicesCount = m.daemon.overlord.plan.services.keys.length
  info : ∀ name, m.metrics.serviceInfo.get? name = some 1 ↔
    name ∈ m.daemon.overlord.plan.services.keys
  slots : ∀ (id : ℕ) slot, m.daemon.slots[id]? = some slot →
    slot.task.actor.name ∈ m.daemon.overlord.plan.services.keys

/-- While no reload has removed a service, the gauges follow the plan. -/
theorem Kept.follows (H : m.Kept) : m.FollowsPlan where
  count := H.count
  info := H.info
  active slot hs _ hname := by
    obtain ⟨id, hs⟩ := List.mem_iff_getElem?.mp hs
    exact absurd (H.slots id slot hs) hname

/-- At the start the gauges follow the first plan, and every actor is of it. -/
theorem kept_init (plan : Plan) : (init plan).Kept := by
  have hkeys : ∀ name, name ∈ (Overlord.syncActors { plan } 0).1.services.keys ↔
      name ∈ plan.services.keys := by
    intro name
    rw [Overlord.mem_keys_syncActors]
    exact or_iff_right List.not_mem_nil
  refine ⟨?_, fun name => ?_, fun id slot hs => ?_⟩
  · exact congrArg Nat.cast (IndexMap.length_keys_eq hkeys)
  · rw [init, MetricsStore.get?_setServices, hkeys]
    exact or_iff_left fun h => nomatch h
  · obtain ⟨e, rfl, hid⟩ := Daemon.getElem?_init hs
    exact (Daemon.wired_of_reaches (.refl (G := Always))).keys e.1 |>.mp (by rw [hid]; rfl)

/-- A reload that removes no service keeps the gauges in line. -/
theorem Kept.reload {plan : Plan} (H : m.Kept) (hw : m.daemon.Wired) (hr : m.Reloads l plan)
    (hG : m.RemovesNone l) (h : m.step l = some m') : m'.Kept := by
  obtain ⟨ho, hslots⟩ := hr.daemon h
  have hrec := (step_eq_some_iff.mp h).2.trans hr.record
  have hplan : m'.daemon.overlord.plan = plan := by rw [ho, Overlord.plan_reloadLayers]
  have hsub : ∀ name ∈ m.daemon.overlord.plan.services.keys, name ∈ plan.services.keys := by
    obtain ⟨rfl, hhead⟩ := hr
    exact hG hhead
  -- The services that have an actor when the gauges are set are those of the new plan.
  have hkeys : ∀ name, name ∈ ({ m.daemon.overlord with plan }.syncActors
      m.daemon.slots.length).1.services.keys ↔ name ∈ plan.services.keys := by
    intro name
    rw [Overlord.mem_keys_syncActors]
    refine or_iff_right_of_imp fun hmem => hsub name ?_
    exact (hw.keys name).mp (Overlord.isSome_idOf.mpr hmem)
  refine ⟨?_, fun name => ?_, fun id slot hs => ?_⟩
  · rw [hrec, hplan]
    exact congrArg Nat.cast (IndexMap.length_keys_eq hkeys)
  · rw [hrec, hplan, MetricsStore.get?_setServices, hkeys, H.info]
    exact or_iff_left_of_imp (hsub name)
  · rw [hslots] at hs
    rw [hplan]
    rcases List.mem_append.mp (List.mem_of_getElem? hs) with hs | hs
    · obtain ⟨id, hs⟩ := List.mem_iff_getElem?.mp hs
      exact hsub _ (H.slots id slot hs)
    · obtain ⟨e, he, rfl⟩ := List.mem_map.mp hs
      exact IndexMap.mem_keys_of_get? (Overlord.mem_spawned_reloadLayers _ he).1

/-- A step that removes no service keeps the gauges in line. -/
theorem Kept.step (H : m.Kept) (hw : m.daemon.Wired) (hG : m.RemovesNone l)
    (h : m.step l = some m') : m'.Kept := by
  by_cases hr : ∃ plan, m.Reloads l plan
  · obtain ⟨plan, hr⟩ := hr
    exact H.reload hw hr hG h
  · rw [not_exists] at hr
    obtain ⟨hkeys, hslots⟩ := daemon_of_not_reloads hr h
    obtain ⟨hcount, hinfo⟩ := record_of_not_reloads hr
    rw [← (step_eq_some_iff.mp h).2] at hcount hinfo
    refine ⟨?_, fun name => ?_, fun id slot' hs' => ?_⟩
    · rw [hcount, hkeys, H.count]
    · rw [hinfo, hkeys, H.info]
    · obtain ⟨slot, hs, hname⟩ := hslots id slot' hs'
      rw [hname, hkeys]
      exact H.slots id slot hs

/-- In every run in which no reload removes a service, the gauges stay in line. -/
theorem kept_of_removesNone {plan : Plan} (h : Reaches step RemovesNone (init plan) m) : m.Kept :=
  h.invariant (P := Kept) (kept_init plan) fun _ _ _ hr H hG hs =>
    H.step (Daemon.wired_of_reaches (reaches_daemon hr)) hG hs

/-! ## When the gauges follow the plan -/

/-- A step between two states in which the gauges follow the plan removes no service. -/
theorem FollowsPlan.removesNone (H : m.FollowsPlan) (h : m.step l = some m')
    (H' : m'.FollowsPlan) : m.RemovesNone l := by
  unfold RemovesNone
  split
  · next plan =>
    intro hhead name hname
    have hr : m.Reloads (.overlord (some plan)) plan := ⟨rfl, hhead⟩
    have hplan : m'.daemon.overlord.plan = plan := by
      rw [(hr.daemon h).1, Overlord.plan_reloadLayers]
    -- The gauge of a service of the old plan is not taken back.
    have hinfo : m'.metrics.serviceInfo.get? name = some 1 := by
      rw [(step_eq_some_iff.mp h).2, hr.record, MetricsStore.get?_setServices]
      exact .inr ((H.info name).mpr hname)
    rw [← hplan]
    exact (H'.info name).mp hinfo
  · trivial

/-- A reload is possible whenever it is the overlord's next action. -/
theorem Reloads.isSome_step {plan : Plan} (h : m.Reloads l plan) : (m.step l).isSome = true := by
  obtain ⟨rfl, hhead⟩ := h
  obtain ⟨rest, htodo⟩ := List.head?_eq_some_iff.mp hhead
  rw [step, Option.isSome_map, Daemon.step, Daemon.overlordStep, htodo]
  rfl

/-- The gauges follow the plan in every state of a run if and only if no reload in it removes a
service. The labels of the run are `hist`, the last one first, and its states are those after the
older parts of it. -/
theorem followsPlan_iff (plan : Plan) (hist : List Label) :
    (∀ older m, older <:+ hist → Trace step Always (init plan) older m → m.FollowsPlan) ↔
      ∀ older l m, (l :: older) <:+ hist → Trace step Always (init plan) older m →
        m.RemovesNone l := by
  constructor
  · intro H older l m hsuf htrace
    have hsuf' := (List.suffix_cons l older).trans hsuf
    by_cases hr : ∃ plan', m.Reloads l plan'
    · obtain ⟨plan', hr⟩ := hr
      obtain ⟨m', hs⟩ := Option.isSome_iff_exists.mp hr.isSome_step
      have hfollows := H (l :: older) m' hsuf (htrace.tail trivial hs)
      exact (H older m hsuf' htrace).removesNone hs hfollows
    · -- Only a reload can remove a service.
      unfold RemovesNone
      split
      · next plan' => exact fun hhead => absurd ⟨plan', rfl, hhead⟩ hr
      · trivial
  · intro H older m hsuf htrace
    have hreach : Reaches step RemovesNone (init plan) m := by
      induction htrace with
      | refl => exact .refl
      | @tail older m m' l htrace _ hs ih =>
        have hsuf' := (List.suffix_cons l older).trans hsuf
        exact (ih hsuf').tail (H older l m hsuf htrace) hs
    exact (kept_of_removesNone hreach).follows

/-- A step keeps to the order of `biased` `select!`. -/
def Biased (m : Metered) (l : Label) : Prop := m.daemon.Biased l

instance (m : Metered) (l : Label) : Decidable (m.Biased l) :=
  inferInstanceAs (Decidable (m.daemon.Biased l))

/-- The service `web` is started, and a reload removes it. Once its actor has ended, there is no
service in the plan, and the gauges still count one, name it, and show it as active. -/
theorem exists_not_followsPlan :
    ∃ m, Reaches step Biased (init (webPlan { command := some "/bin/a" })) m ∧ ¬ m.FollowsPlan ∧
      m.daemon.overlord.plan.services.keys = [] ∧ m.metrics.servicesCount = 1 ∧
      m.metrics.serviceInfo.get? "web" = some 1 ∧ m.metrics.serviceActive.get? "web" = some 1 ∧
      ∃ slot, m.daemon.slots[0]? = some slot ∧ slot.task.actor.name = "web" ∧
        slot.task.ended = true := by
  have h : (runIf step Biased (init (webPlan { command := some "/bin/a" }))
      (.command (.services .start ["web"]) :: startLabels 0 ++ [.event, .event,
        .command .reloadLayers, .overlord (some {}), .overlord none,
        .input 0 (.cmd .shutdown true), .act 0, .act 0, .tick 500, .act 0, .act 0,
        .exit ⟨0, 0, false⟩, .act 0, .act 0])).any (fun m : Metered =>
      decide (m.daemon.overlord.plan.services.keys = []) &&
      decide (m.metrics.servicesCount = 1) &&
      decide (m.metrics.serviceInfo.get? "web" = some 1) &&
      decide (m.metrics.serviceActive.get? "web" = some 1) &&
      m.daemon.slots[0]?.any fun slot : Slot =>
        decide (slot.task.actor.name = "web") && slot.task.ended) = true := by
    decide +kernel
  obtain ⟨m, hr, h⟩ := Reaches.exists_of_runIf _ h
  simp only [Bool.and_eq_true, decide_eq_true_eq, Option.any_eq_true] at h
  obtain ⟨⟨⟨⟨hplan, hcount⟩, hinfo⟩, hactive⟩, slot, hs, hname, hended⟩ := h
  refine ⟨m, hr, fun H => ?_, hplan, hcount, hinfo, hactive, slot, hs, hname, hended⟩
  have hmem := (H.info "web").mp hinfo
  rw [hplan] at hmem
  exact absurd hmem List.not_mem_nil

end Metered

end Vigil
