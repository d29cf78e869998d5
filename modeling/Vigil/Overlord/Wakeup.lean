import Vigil.Lib.Acyclic
import Vigil.Overlord.Autostart
import Vigil.Overlord.Reports
import Vigil.Service.Turn

/-!
# No wake-up is lost

`Daemon.Counted` says what has become of the starts in every state of a run. This module adds what
becomes of them in the end, in runs in which every spawn succeeds, no process exits, and nothing
stops or restarts a service (`Daemon.Benign`): a service that has been sent its start runs once all
is drained, and the overlord knows it (`Daemon.Undisturbed`). So a service whose dependencies have
been sent their starts is not pending, and by induction along the dependencies no service that
starts with the daemon is.
-/

namespace Vigil

open Actor (Input)

namespace Actor

/-- An input that disturbs no start: where it comes to a spawn the spawn succeeds, and it stops and
restarts no service that is running. -/
def Undisturbing (a : Actor) : Input → Prop
  | .cmd .start ok => a.state.isRunning = true ∨ a.canSpawn ok = true
  | .cmd .stop _ => a.state.isRunning = false
  | .cmd .restart ok => a.state.isRunning = false ∧ a.canSpawn ok = true
  | .cmd .shutdown _ => False
  | .backoffExpired ok => a.canSpawn ok = true
  | _ => True

instance (a : Actor) (inp : Input) : Decidable (a.Undisturbing inp) := by
  unfold Undisturbing
  split <;> infer_instance

/-- The actor of a service that has not been started, or that runs undisturbed. -/
structure Upright (a : Actor) : Prop where
  state : a.state = .inactive ∨ a.state = .active
  backoffSleep : a.backoffSleep = none

/-- An upright actor that runs or can spawn is active after a start, and upright. -/
theorem Upright.handleStart {a : Actor} (H : a.Upright) {ok : Bool}
    (h : a.state.isRunning = true ∨ a.canSpawn ok = true) :
    (a.execAll (a.handleStart ok)).Upright ∧ (a.execAll (a.handleStart ok)).state = .active := by
  rw [execAll_handleStart]
  rcases H.state with hs | hs
  · have hok : a.canSpawn ok = true := h.resolve_left (by rw [hs]; nofun)
    rw [if_neg (by rw [hs]; rintro (h | h) <;> cases h), if_pos hok]
    exact ⟨⟨.inr rfl, H.backoffSleep⟩, rfl⟩
  · rw [if_pos (.inl (by rw [hs]; rfl))]
    exact ⟨H, hs⟩

/-- No input that disturbs nothing brings the service down, and a start brings it up. Without an
exit there is none to handle. -/
theorem Upright.script {a : Actor} (H : a.Upright) {inp : Input} (h : a.Undisturbing inp)
    (hb : a.backoffSleep = none → ∀ ok, inp ≠ .backoffExpired ok)
    (hx : ∀ success ok, inp ≠ .childExit success ok) :
    (a.execAll (a.script inp)).Upright ∧
      (a.state = .active → (a.execAll (a.script inp)).state = .active) ∧
      ((∃ ok, inp = .cmd .start ok) → (a.execAll (a.script inp)).state = .active) := by
  cases inp with
  | cmd c ok =>
    cases c with
    | start =>
      have hstart := H.handleStart h
      exact ⟨hstart.1, fun _ => hstart.2, fun _ => hstart.2⟩
    | stop =>
      have hs : a.state = .inactive := H.state.resolve_right fun hs => by
        have : a.state.isRunning = false := h
        rw [hs] at this
        cases this
      have hsame : a.execAll (a.script (.cmd .stop ok)) = a := by
        show a.execAll a.handleStop = a
        rw [execAll_handleStop, hs]
      rw [hsame]
      exact ⟨H, id, by rintro ⟨_, ⟨⟩⟩⟩
    | restart =>
      obtain ⟨hr, hok⟩ : a.state.isRunning = false ∧ a.canSpawn ok = true := h
      have hs : a.state = .inactive := H.state.resolve_right fun hs => by rw [hs] at hr; cases hr
      have hsame : a.execAll (a.script (.cmd .restart ok)) = a.execAll (a.handleStart ok) := by
        show a.execAll (a.handleRestart ok) = _
        rw [execAll_handleRestart, if_neg (by rw [hs]; rintro (h | h) <;> cases h)]
      rw [hsame]
      have hstart := H.handleStart (.inr hok)
      exact ⟨hstart.1, fun _ => hstart.2, by rintro ⟨_, ⟨⟩⟩⟩
    | status => exact ⟨H, id, by rintro ⟨_, ⟨⟩⟩⟩
    | forwardSignal sig => exact ⟨H, id, by rintro ⟨_, ⟨⟩⟩⟩
    | shutdown => exact h.elim
  | childExit success ok => exact (hx success ok rfl).elim
  | killDeadline =>
    have hsame : a.execAll (a.script .killDeadline) = { a with stopDeadline := none } :=
      a.execAll_handleKillDeadline
    rw [hsame]
    exact ⟨⟨H.state, H.backoffSleep⟩, id, by rintro ⟨_, ⟨⟩⟩⟩
  | backoffExpired ok => exact (hb H.backoffSleep ok rfl).elim

end Actor

namespace Overlord

/-- The dependencies of a service are acyclic, and they are all among the services. -/
structure Startable (o : Overlord) (names : List String) (name : String) : Prop where
  inside : ∀ dep, Relation.ReflTransGen o.DependsOn name dep → dep ∈ names
  acyclic : ∀ dep, Relation.ReflTransGen o.DependsOn name dep →
    ¬Relation.TransGen o.DependsOn dep dep

/-- A service whose dependencies run is ready. -/
theorem afterDepsRunning_of_deps {o : Overlord} {name : String}
    (h : ∀ dep, o.DependsOn name dep → o.isRunning dep = true) :
    o.afterDepsRunning name = true := by
  unfold afterDepsRunning
  cases hc : o.plan.services.get? name with
  | none => rfl
  | some config => exact List.all_eq_true.mpr fun dep hd => h dep ⟨config, hc, hd⟩

end Overlord

/-- A start is on its way to the actor, or its service runs. -/
def Slot.Begun (slot : Slot) : Prop := .start ∈ slot.mailbox ∨ slot.task.settled.state = .active

/-- A service that the plan has after a reload keeps its actor. -/
theorem Overlord.idOf_reloadLayers_of_mem (o : Overlord) {plan : Plan} (next : ℕ) {name : String}
    {id : ℕ} (h : o.idOf name = some id) (hm : name ∈ plan.services.keys) :
    (o.reloadLayers plan next).1.idOf name = some id := by
  obtain ⟨e, he, rfl⟩ := idOf_eq_some_iff.mp h
  refine idOf_eq_some_iff.mpr ⟨e, ?_, rfl⟩
  change (IndexMap.filter _ _).get? name = some e
  rw [IndexMap.get?_filter, Option.filter_eq_some_iff]
  exact ⟨(synced_syncActors { o with plan } next).old _ _ he, IndexMap.contains_iff.mpr hm⟩

namespace Overlord

/-- A handler of a service event begins with requests. -/
theorem sendTo_notMem_handleSvcEvent (o : Overlord) (ev : Event) {name : String} {id : ℕ}
    {c : Vigil.Cmd} {why : Reason} : .sendTo name id c why ∉ (o.handleSvcEvent ev).2 := by
  have hstep := o.eventStep ev
  generalize (o.handleSvcEvent ev).1 = o', (o.handleSvcEvent ev).2 = is at hstep
  cases hstep with
  | started | stopped =>
    intro hm
    obtain ⟨n, -, heq⟩ := List.mem_map.mp hm
    cases heq
  | passed | exited => exact List.not_mem_nil
  | shutdown hk => simp [shutdown]

end Overlord

namespace Daemon

open Runs Overlord

variable {s s' : Daemon} {l : Label}

/-- A step in a run in which every spawn succeeds, no process exits, and nothing stops or restarts a
service, or takes it out of the plan. -/
def Benign (s : Daemon) : Label → Prop
  | .exit _ => False
  | .input id inp => ∀ slot ∈ s.slots[id]?, slot.task.actor.Undisturbing inp
  | .overlord (some plan) => s.todo.head? = some .reload →
    ∀ name ∈ s.overlord.services.keys, name ∈ plan.services.keys
  | _ => True

instance (l : Label) : Decidable (s.Benign l) :=
  match l with
  | .exit _ => isFalse id
  | .input _ _ | .overlord (some _) => by unfold Benign; infer_instance
  | .tick _ | .act _ | .deliver _ | .overlord none | .command _ | .event | .check _ _
  | .stopTask _ => isTrue trivial

/-- The actors in a run in which nothing is disturbed. -/
structure Undisturbed (s : Daemon) : Prop where
  exits : s.exits = []
  /-- Every actor is that of its service. -/
  idOf : ∀ (id : ℕ) (slot : Slot), s.slots[id]? = some slot →
    s.overlord.idOf slot.task.actor.name = some id
  upright : ∀ (id : ℕ) (slot : Slot), s.slots[id]? = some slot →
    slot.task.settled.Upright ∧ slot.task.leaving = false
  /-- The commands that are about to be sent are for the actors of the services that they name. -/
  sending : ∀ name id c why, .sendTo name id c why ∈ s.todo → s.overlord.idOf name = some id
  /-- What has been sent a start is on the way to run. -/
  sent : ∀ name id why, .sent name id .start why ∈ s.log →
    s.overlord.idOf name = some id ∧ ∃ slot, s.slots[id]? = some slot ∧ slot.Begun

/-- What happens to a slot leaves its actor upright, and its service on the way to run. -/
theorem SlotStep.upright {id : ℕ} {slot slot' : Slot} (h : SlotStep s l id slot slot')
    (hs : s.slots[id]? = some slot) (hG : s.Benign l) (hx : s.exits = [])
    (hu : slot.task.settled.Upright) (hlv : slot.task.leaving = false) :
    (slot'.task.settled.Upright ∧ slot'.task.leaving = false) ∧ (slot.Begun → slot'.Begun) := by
  have push : ∀ {c : Cmd}, slot.push c = some slot' →
      (slot'.task.settled.Upright ∧ slot'.task.leaving = false) ∧ (slot.Begun → slot'.Begun) := by
    intro c hp
    rw [Slot.task_push hp]
    refine ⟨⟨hu, hlv⟩, Or.imp (fun hm => ?_) fun ha => by rw [Slot.task_push hp]; exact ha⟩
    -- A start that is in the mailbox stays in it.
    rw [Slot.mailbox_push hp (Task.ended_of_leaving hlv)]
    exact List.mem_append_left _ hm
  have answer : slot.takeAnswer = some slot' →
      (slot'.task.settled.Upright ∧ slot'.task.leaving = false) ∧ (slot.Begun → slot'.Begun) := by
    intro ha
    obtain ⟨-, rfl⟩ := Slot.takeAnswer_cases ha
    exact ⟨⟨hu, hlv⟩, fun hb => hb⟩
  cases h with
  | same => exact ⟨⟨hu, hlv⟩, fun hb => hb⟩
  | act _ _ ht =>
    refine ⟨?_, Or.imp_right fun ha => (congrArg Actor.state (Task.settled_act ht)).trans ha⟩
    dsimp only
    rw [Task.settled_act ht, Task.leaving_act ht]
    exact ⟨hu, hlv⟩
  | deliver _ ht =>
    refine ⟨?_, Or.imp_right fun ha => (congrArg Actor.state (Task.settled_deliver ht)).trans ha⟩
    dsimp only
    rw [Task.settled_deliver ht, Task.leaving_deliver ht]
    exact ⟨hu, hlv⟩
  | sent _ _ hp => exact push hp
  | answered _ _ ha => exact answer ha
  | stopTask _ _ _ hp =>
    rcases hp.inv with ⟨-, hp, -⟩ | ⟨-, ha, -⟩ | ⟨-, hp, -⟩
    · exact push hp
    · exact answer ha
    · exact push hp
  | @input t inp hl hm ht =>
    subst hl
    obtain ⟨hi, hr, -⟩ := Task.take_eq_some_iff.mp ht
    have hset := Task.settled_of_idle hi
    have hund : slot.task.settled.Undisturbing inp := by rw [hset]; exact hG slot hs
    have hscript := hu.script hund
      (fun hb ok hinp => by
        rw [hinp, Task.ready, ← hset, hb] at hr
        cases hr)
      (fun success ok hinp => by
        rw [hinp, admits, hx, Option.any_eq_true] at hm
        obtain ⟨p, -, hp⟩ := hm
        cases hp)
    refine ⟨⟨?_, ?_⟩, fun hb => ?_⟩
    · dsimp only
      rw [Task.settled_take ht]
      exact hscript.1
    · refine Bool.eq_false_iff.mpr fun hl => ?_
      obtain ⟨ok, rfl⟩ := Task.eq_shutdown_of_leaving ht hl
      exact hund
    · have hstate : (slot.task.settled.execAll (slot.task.settled.script inp)).state = .active →
          Slot.Begun { slot with task := t, mailbox := slot.nextMailbox inp } := fun ha =>
        .inr ((congrArg Actor.state (Task.settled_take ht)).trans ha)
      rcases hb with hmem | ha
      · -- The start is taken, or it stays in the mailbox.
        cases inp with
        | cmd c ok =>
          obtain ⟨rest, hbox⟩ := List.head?_eq_some_iff.mp (of_decide_eq_true hm)
          rw [hbox] at hmem
          rcases List.mem_cons.mp hmem with rfl | hmem
          · exact hstate (hscript.2.2 ⟨ok, rfl⟩)
          · refine .inl ?_
            show .start ∈ slot.mailbox.tail
            rw [hbox]
            exact hmem
        | _ => exact .inl hmem
      · exact hstate (hscript.2.1 ha)

/-- A step keeps the actors of the services. -/
theorem Benign.idOf (hG : s.Benign l) (h : s.step l = some s') {name : String} {id : ℕ}
    (hid : s.overlord.idOf name = some id) : s'.overlord.idOf name = some id := by
  rcases overlord_step h with hu | ⟨plan, rfl, hhead, ho, -⟩
  · rw [hu.idOf]; exact hid
  · rw [ho]
    refine s.overlord.idOf_reloadLayers_of_mem _ hid (hG hhead name ?_)
    rw [← isSome_idOf, hid]
    rfl

namespace Undisturbed

/-- After a step each actor is there, and one that has begun has begun. -/
theorem slots (H : s.Undisturbed) (hG : s.Benign l) (h : s.step l = some s') {id : ℕ} {slot : Slot}
    (hs : s.slots[id]? = some slot) :
    ∃ slot', s'.slots[id]? = some slot' ∧ (slot.Begun → slot'.Begun) := by
  obtain ⟨slot', hs', hstep⟩ := exists_slot_step h hs
  obtain ⟨hu, hlv⟩ := H.upright id slot hs
  exact ⟨slot', hs', (hstep.upright hs hG H.exits hu hlv).2⟩

/-- The actors stay undisturbed in a step that sends nothing. -/
theorem of_same (H : s.Undisturbed) (hG : s.Benign l) (h : s.step l = some s')
    (hx : s'.exits = s.exits)
    (hsending : ∀ name id c why, .sendTo name id c why ∈ s'.todo →
      s'.overlord.idOf name = some id)
    (hsent : ∀ name id why, .sent name id .start why ∈ s'.log → .sent name id .start why ∈ s.log ∨
      s.overlord.idOf name = some id ∧ ∃ slot, s'.slots[id]? = some slot ∧ slot.Begun) :
    s'.Undisturbed where
  exits := hx.trans H.exits
  idOf id slot' hs' := by
    rcases slot_step h hs' with ⟨slot, hs, hstep⟩ | ⟨hge, e, rfl, plan, rest, rfl, htodo, he⟩
    · rw [hstep.static.1]
      exact hG.idOf h (H.idOf id slot hs)
    · rcases overlord_step h with hu | ⟨plan', hl, -, ho, hslots⟩
      · -- The actor is new, so the step is a reload.
        obtain ⟨i, rest', htodo', hstep⟩ := Daemon.step_overlord h
        rw [htodo] at htodo'
        obtain ⟨rfl, rfl⟩ := List.cons.inj htodo'
        cases hstep with
        | reloadFailed hl => cases hl
        | reload hl =>
          cases hl
          have := idOf_spawned_reloadLayers _ he
          rwa [Nat.add_sub_cancel' hge] at this
      · cases hl
        rw [ho]
        have := idOf_spawned_reloadLayers _ he
        rwa [Nat.add_sub_cancel' hge] at this
  upright id slot' hs' := by
    rcases slot_step h hs' with ⟨slot, hs, hstep⟩ | ⟨-, e, rfl, -⟩
    · obtain ⟨hu, hlv⟩ := H.upright id slot hs
      exact (hstep.upright hs hG H.exits hu hlv).1
    · exact ⟨⟨.inl rfl, rfl⟩, rfl⟩
  sending := hsending
  sent name id why hm := by
    rcases hsent name id why hm with hm | ⟨hid, hb⟩
    · obtain ⟨hid, slot, hs, hb⟩ := H.sent name id why hm
      obtain ⟨slot', hs', hb'⟩ := H.slots hG h hs
      exact ⟨hG.idOf h hid, slot', hs', hb' hb⟩
    · exact ⟨hG.idOf h hid, hb⟩

/-- The actors stay undisturbed in the next action of the overlord's handler. -/
theorem step_overlord (H : s.Undisturbed) {load : Option Plan} (hG : s.Benign (.overlord load))
    (h : s.step (.overlord load) = some s') : s'.Undisturbed := by
  obtain ⟨i, rest, htodo, hstep⟩ := Daemon.step_overlord h
  have hrest : ∀ name id c why, .sendTo name id c why ∈ rest → s'.overlord.idOf name = some id :=
    fun name id c why hm => hG.idOf h (H.sending name id c why (htodo ▸ List.mem_cons_of_mem _ hm))
  have same : s'.exits = s.exits → s'.todo = rest → s'.log = s.log → s'.Undisturbed :=
    fun hx ht hlog => H.of_same hG h hx (ht ▸ hrest) fun name id why hm => .inl (hlog ▸ hm)
  cases hstep with
  | unknown | await | enable | reloadFailed | stopAll | join => exact same rfl rfl rfl
  | @request name c why rest e he =>
    refine H.of_same hG h rfl (fun name' id c' why' hm => ?_) fun _ _ _ hm => .inl hm
    rcases List.mem_cons.mp hm with heq | hm
    · cases heq
      exact idOf_eq_some_iff.mpr ⟨e, he, rfl⟩
    · rcases List.mem_cons.mp hm with heq | hm
      · cases heq
      · exact hrest name' id c' why' hm
  | @sendTo name id c why rest slot slot' hs hp =>
    refine H.of_same hG h rfl hrest fun name' id' why' hm => ?_
    rcases List.mem_cons.mp hm with heq | hm
    · cases heq
      have hbox := Slot.mailbox_push hp (Task.ended_of_leaving (H.upright _ _ hs).2)
      refine .inr ⟨H.sending _ _ _ _ (htodo ▸ List.mem_cons_self), slot', ?_, .inl ?_⟩
      · show (s.slots.set id slot')[id]? = some slot'
        exact List.getElem?_set_self (List.getElem?_eq_some_iff.mp hs).1
      · rw [hbox]
        exact List.mem_append_right _ (List.mem_singleton.mpr rfl)
    · exact .inl hm
  | @reload rest plan hl =>
    subst hl
    refine H.of_same hG h rfl (fun name id c why hm => ?_) fun name id why hm => ?_
    · rcases List.mem_append.mp hm with hm | hm
      · rcases s.overlord.reloadInstr_of_mem hm with ⟨e, he, heq⟩ | ⟨n, heq⟩
        · -- No service is removed.
          cases heq
          have hkept : e.1 ∈ plan.services.keys := by
            have hs := synced_syncActors { s.overlord with plan } s.slots.length
            rcases hs.entry _ _ (IndexMap.get?_eq_some_iff.mpr (List.mem_filter.mp he).1) with
              hold | ⟨i, config, hi, -⟩
            · exact hG (by rw [htodo]; rfl) _ (IndexMap.mem_keys_of_get? hold)
            · exact IndexMap.mem_keys_of_get?
                (s.overlord.mem_spawned_reloadLayers (List.mem_of_getElem? hi)).1
          have hnot := (List.mem_filter.mp he).2
          rw [Bool.not_eq_true', ← Bool.not_eq_true, IndexMap.contains_iff] at hnot
          exact (hnot hkept).elim
        · cases heq
      · exact hrest name id c why hm
    · rcases List.mem_cons.mp hm with heq | hm
      · cases heq
      · exact .inl hm
  | finish =>
    refine H.of_same hG h rfl (fun _ _ _ _ h => absurd h List.not_mem_nil) fun name id why hm => ?_
    rcases List.mem_cons.mp hm with heq | hm
    · cases heq
    · exact .inl hm

/-- Every step leaves the actors undisturbed. -/
theorem step (H : s.Undisturbed) (hG : s.Benign l) (h : s.step l = some s') : s'.Undisturbed := by
  have same : s'.exits = s.exits → s'.todo = s.todo → s'.log = s.log → s'.Undisturbed :=
    fun hx ht hlog => H.of_same hG h hx
      (fun name id c why hm => hG.idOf h (H.sending name id c why (ht ▸ hm)))
      fun name id why hm => .inl (hlog ▸ hm)
  -- A handler that begins with requests only.
  have head : s'.exits = s.exits → (∀ name id c why, .sendTo name id c why ∈ s'.todo →
      s'.overlord.idOf name = some id) → (∀ name id why, .sent name id .start why ∈ s'.log →
      .sent name id .start why ∈ s.log) → s'.Undisturbed :=
    fun hx hsend hlog => H.of_same hG h hx hsend fun name id why hm => .inl (hlog name id why hm)
  cases l with
  | tick d =>
    have hs := (Option.some.inj h).symm
    exact same (hs ▸ rfl) (hs ▸ rfl) (hs ▸ rfl)
  | exit e => exact hG.elim
  | act i => obtain ⟨slot, t, -, -, -, rfl⟩ := step_act h; exact same rfl rfl rfl
  | deliver i => obtain ⟨slot, t, k, -, -, -, -, rfl⟩ := step_deliver h; exact same rfl rfl rfl
  | input i inp => obtain ⟨slot, t, -, -, -, rfl⟩ := step_input h; exact same rfl rfl rfl
  | stopTask i =>
    obtain ⟨t, slot, slot', phase, -, -, -, rfl⟩ := step_stopTask h
    exact same rfl rfl rfl
  | overlord load => exact H.step_overlord hG h
  | command c =>
    obtain ⟨-, rfl⟩ := step_command h
    refine head rfl (fun name id c' why hm => ?_) fun _ _ _ hm => hm
    cases cmdInstr_of_mem hm with
    | forward hid => exact hid
  | check name status =>
    obtain ⟨-, rfl⟩ := step_check h
    exact head rfl (fun name' id c why hm => nomatch checkInstr_of_mem hm) fun _ _ _ hm => hm
  | event =>
    obtain ⟨-, ev, events, -, rfl⟩ := step_event h
    refine head rfl (fun name id c why hm => ?_) fun name id why hm => ?_
    · exact absurd hm (sendTo_notMem_handleSvcEvent _ _)
    · rcases List.mem_cons.mp hm with heq | hm
      · cases heq
      · exact hm

end Undisturbed

/-- In every state of a run in which nothing is disturbed, the actors are undisturbed. -/
theorem undisturbed_of_reaches {plan : Plan} (h : Reaches step Benign (init plan) s) :
    s.Undisturbed := by
  refine h.invariant (P := Undisturbed) ⟨rfl, fun id slot hs => ?_, fun id slot hs => ?_,
    fun name id c why hm => ?_, fun name id why hm => ?_⟩ fun s l s' _ H hG hl => H.step hG hl
  · obtain ⟨e, rfl, hid⟩ := getElem?_init hs
    exact hid
  · obtain ⟨e, -, rfl⟩ := List.mem_map.mp (List.mem_of_getElem? hs)
    exact ⟨⟨.inl rfl, rfl⟩, rfl⟩
  · obtain ⟨n, -, heq⟩ := List.mem_map.mp hm
    cases heq
  · exact absurd (List.mem_singleton.mp hm) (by simp)

/-- Everything is drained: no handler is at work, no event and no command is on its way, and every
actor is at its loop head. -/
structure Drained (s : Daemon) : Prop where
  todo : s.todo = []
  events : s.events = []
  slots : ∀ slot ∈ s.slots, slot.task.idle = true ∧ slot.mailbox = []

/-- Where all is drained, nothing is unhandled. -/
theorem Drained.unhandled (H : s.Drained) {id : ℕ} {slot : Slot} (hs : s.slots[id]? = some slot) :
    s.unhandled id slot = [] := by
  have hi := (H.slots slot (List.mem_of_getElem? hs)).1
  rw [Daemon.unhandled, inFlight, H.events, Task.unreported, Task.unsent_of_idle hi]
  rfl

/-- Where all is drained, a service that has been sent a start runs, and the overlord knows it. -/
theorem isRunning_of_drained {plan : Plan} (h : Reaches step Benign (init plan) s)
    (hd : s.Drained) {name : String} (hs : 0 < s.startsSent name) :
    s.overlord.isRunning name = true := by
  have H := undisturbed_of_reaches h
  obtain ⟨e, he, hstart⟩ := List.countP_pos_iff.mp hs
  have hmem : e ∈ s.log := (List.takeWhile_prefix _).subset he
  obtain ⟨id, why, rfl⟩ : ∃ id why, e = .sent name id .start why := by
    unfold Entry.starts at hstart
    split at hstart
    · obtain rfl := of_decide_eq_true hstart
      exact ⟨_, _, rfl⟩
    · cases hstart
  obtain ⟨hid, slot, hslot, hb⟩ := H.sent name id why hmem
  have hactive : slot.task.settled.state = .active := hb.resolve_left fun hm => by
    rw [(hd.slots slot (List.mem_of_getElem? hslot)).2] at hm
    cases hm
  obtain ⟨entry, hget, rfl⟩ := idOf_eq_some_iff.mp hid
  -- The snapshot is of this actor, because there is no other of the service.
  have hR := reported_of_reaches h
  obtain ⟨slot₁, hs₁, hn₁⟩ := hR.reporter name entry hget
  have hrep := H.idOf _ _ hs₁
  rw [hn₁, hid] at hrep
  have hstate := hR.state_eq hslot (state_of_reaches h hslot) (hd.unhandled hslot) hget
    (Option.some.inj hrep).symm
  rw [isRunning, hget, Option.any_some, hstate, hactive]
  rfl

/-- What has become of the services that start with the daemon. -/
structure Accounted (s : Daemon) : Prop where
  nodup : s.overlord.pendingAutostart.Nodup
  planned : ∀ name ∈ s.overlord.pendingAutostart, name ∈ s.overlord.plan.services.keys
  waiting : ∀ name ∈ s.overlord.pendingAutostart, s.overlord.afterDepsRunning name = false
  /-- Each service that the last load starts has been sent one start, or is pending. -/
  started : ∀ name ∈ lastLoaded s.log,
    s.startsSent name = 1 ∧ name ∉ s.overlord.pendingAutostart ∨
      s.startsSent name = 0 ∧ name ∈ s.overlord.pendingAutostart

/-- Between two handlers, the starts are accounted for. -/
theorem Counted.accounted (H : s.Counted) (ht : s.todo = []) : s.Accounted where
  nodup := H.nodup
  planned name hm := H.known name (.inr hm)
  waiting := H.waiting
  started name hm := by
    have hcount := H.count name
    rw [ht, List.countP_nil, if_pos hm] at hcount
    by_cases hp : name ∈ s.overlord.pendingAutostart
    · have := List.count_pos_iff.mpr hp
      exact .inr ⟨by omega, hp⟩
    · have := List.count_eq_zero.mpr hp
      exact .inl ⟨by omega, hp⟩

/-- Whenever the overlord is between two handlers, each service that the last load starts has been
sent one start or is pending, and what is pending is not ready. So in a run in which nothing is
disturbed, a service with acyclic dependencies among the services that start with the daemon has
been sent its start once all is drained. -/
theorem wakeup_of_reaches (plan : Plan) :
    (∀ s, Reaches step Always (init plan) s → s.todo = [] → s.Accounted) ∧
      ∀ s, Reaches step Benign (init plan) s → s.Drained → ∀ name ∈ lastLoaded s.log,
        s.overlord.Startable (lastLoaded s.log) name → s.startsSent name = 1 := by
  refine ⟨fun s h ht => (counted_of_reaches h).accounted ht, fun s h hd name _ hstart => ?_⟩
  have hacc := (counted_of_reaches h).accounted hd.todo
  -- Along the dependencies: a service is not pending once its dependencies have been sent their
  -- starts.
  refine Acyclic.induction (P := fun name => s.startsSent name = 1) hstart.inside hstart.acyclic
    fun dep hreach ih => ?_
  have hready : s.overlord.afterDepsRunning dep = true := afterDepsRunning_of_deps fun dep' hdep =>
    isRunning_of_drained h hd (by rw [ih dep' hdep]; exact Nat.one_pos)
  rcases hacc.started dep (hstart.inside dep hreach) with ⟨hsent, -⟩ | ⟨-, hp⟩
  · exact hsent
  · have hnot := hacc.waiting dep hp
    rw [hready] at hnot
    cases hnot

/-- A plan with a database and a server that is started after it. -/
def orderedPlan : Plan where
  services := (IndexMap.insert ∅ "db" { command := some "/bin/db", startup := .enabled }).insert
    "web" { command := some "/bin/web", startup := .enabled, after := ["db"] }

/-- In the plan, only the server depends on a service. -/
theorem dependsOn_orderedPlan {o : Overlord} (ho : o.plan.services = orderedPlan.services)
    {name dep : String} (h : o.DependsOn name dep) : name = "web" ∧ dep = "db" := by
  obtain ⟨config, hc, hd⟩ := h
  have hbefores : o.befores name = [] := by
    simp only [befores, ho, List.map_eq_nil_iff, List.filter_eq_nil_iff]
    intro e he
    have hnone : ∀ e ∈ orderedPlan.services.entries, e.2.before = [] := by decide
    simp [hnone e he]
  have hmem : (name, config) ∈ orderedPlan.services.entries :=
    IndexMap.get?_eq_some_iff.mp (ho ▸ hc)
  have hall : ∀ e ∈ orderedPlan.services.entries,
      e.1 = "web" ∧ e.2.after ++ e.2.requires = ["db"] ∨ e.2.after ++ e.2.requires = [] := by decide
  rw [deps, hbefores, List.append_nil] at hd
  rcases hall _ hmem with ⟨hn, hdeps⟩ | hdeps
  · simp only at hdeps
    rw [hdeps] at hd
    exact ⟨hn, List.mem_singleton.mp hd⟩
  · simp only at hdeps
    rw [hdeps] at hd
    cases hd

/-- The server of the plan is sent its start. -/
theorem startsSent_orderedPlan :
    ∃ s, Reaches step Benign (init orderedPlan) s ∧ s.Drained ∧ s.Accounted ∧
      s.startsSent "web" = 1 := by
  have h : (runIf step Benign (init orderedPlan) (startLabels 0 ++ .event :: startLabels 1 ++
      [.event, .event, .event])).any (fun s : Daemon =>
        decide (s.overlord.plan.services = orderedPlan.services) && s.todo.isEmpty &&
        s.events.isEmpty &&
          s.slots.all (fun slot : Slot => slot.task.idle && slot.mailbox.isEmpty) &&
        decide (lastLoaded s.log = ["db", "web"])) = true := by
    decide +kernel
  obtain ⟨s, hr, h⟩ := Reaches.exists_of_runIf _ h
  simp only [Bool.and_eq_true, decide_eq_true_eq, List.isEmpty_iff, List.all_eq_true] at h
  obtain ⟨⟨⟨⟨hplan, htodo⟩, hevents⟩, hslots⟩, hload⟩ := h
  have hdep : ∀ {name dep}, s.overlord.DependsOn name dep → name = "web" ∧ dep = "db" :=
    fun h => dependsOn_orderedPlan hplan h
  have hstart : s.overlord.Startable (lastLoaded s.log) "web" := by
    refine ⟨fun dep h => ?_, fun dep _ h => ?_⟩
    · rw [hload]
      rcases Relation.ReflTransGen.cases_tail h with rfl | ⟨n, -, h⟩
      · decide
      · rw [(hdep h).2]; decide
    · -- Nothing that is depended on depends on anything.
      obtain ⟨n, hlast⟩ := Relation.TransGen.tail'_iff.mp h
      obtain ⟨m, hfirst, -⟩ := Relation.TransGen.head'_iff.mp h
      have hweb := (hdep hfirst).1
      rw [(hdep hlast.2).2] at hweb
      exact absurd hweb (by decide)
  have hd : s.Drained := ⟨htodo, hevents, hslots⟩
  exact ⟨s, hr, hd, (wakeup_of_reaches orderedPlan).1 s hr.always htodo,
    (wakeup_of_reaches orderedPlan).2 s hr hd "web" (by rw [hload]; decide) hstart⟩

end Daemon

end Vigil
