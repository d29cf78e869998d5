import Vigil.Overlord.Wiring

/-!
# Reports and snapshots

How far the overlord's snapshots lag behind the actors. An actor's reports are handled in the order
in which they were made: the states that an actor has been in, or will have been in at the end of
its turn, are those that it has still to report, those in the channel, and those that the overlord
has handled, and the snapshot of a service is the last of these (`Daemon.Reported`). So where
nothing of an actor is unhandled, the snapshot is its state (`Reported.state_eq`).
-/

namespace Vigil

open Actor (Effect Input)

/-- The state that an effect sets. -/
def Actor.Effect.state? : Effect → Option ServiceState
  | .stateSet s => some s
  | _ => none

/-- The state that an event reports. -/
def EventKind.state? : EventKind → Option ServiceState
  | .stateChanged s => some s
  | _ => none

/-- An action that reports no state without setting it. -/
def Instr.isHonest : Instr → Bool
  | .send (.stateChanged _) => false
  | _ => true

namespace Actor

/-- A turn reports the states that it sets. -/
theorem all_isHonest_script (a : Actor) (inp : Input) :
    (a.script inp).all Instr.isHonest = true := by
  have hstart : ∀ ok, (a.handleStart ok).all Instr.isHonest = true := by
    intro ok
    unfold handleStart doStart
    split_ifs <;> rfl
  cases inp with
  | cmd c ok =>
    cases c with
    | start => exact hstart ok
    | stop =>
      simp only [script]
      unfold handleStop
      cases a.state <;> rfl
    | restart =>
      simp only [script]
      unfold handleRestart
      split_ifs
      · rfl
      · exact hstart ok
    | status => rfl
    | forwardSignal sig => rfl
    | shutdown =>
      simp only [script]
      unfold cleanup
      split_ifs <;> rfl
  | childExit success ok =>
    simp only [script]
    unfold handleChildExit applyExitPolicy doStart
    repeat' split
    all_goals rfl
  | killDeadline =>
    simp only [script]
    unfold handleKillDeadline
    split_ifs <;> rfl
  | backoffExpired ok =>
    simp only [script]
    unfold handleBackoffExpired doStart
    split_ifs <;> rfl

/-- The states that a list of actions goes through, the oldest first. -/
def passes (is : List Instr) : List ServiceState :=
  (is.filterMap sends).filterMap fun k => k.1.state?

/-- The actions of a list come one after the other. -/
theorem passes_cons (i : Instr) (is : List Instr) :
    passes (i :: is) = ((sends i).bind fun k => k.1.state?).toList ++ passes is := by
  unfold passes
  cases i with
  | send k => cases k <;> rfl
  | _ => rfl

/-- Every state that is set is reported. -/
theorem state?_effect (a : Actor) {i : Instr} (hi : i.isHonest = true) :
    (a.effect i).toList.filterMap Effect.state? = ((sends i).bind fun k => k.1.state?).toList := by
  cases i with
  | send k =>
    cases k with
    | stateChanged st => cases hi
    | _ => rfl
  | collect | wait | stopSignal | sigkill | signal =>
    simp only [effect, sends]
    cases a.child <;> rfl
  | _ => rfl

/-- After a list of actions the states that they pass are in front of those before. -/
theorem states_effects (a : Actor) {is : List Instr} (hi : is.all Instr.isHonest = true)
    (h : List Effect) : (a.effects is h).filterMap Effect.state? =
      (passes is).reverse ++ h.filterMap Effect.state? := by
  induction is generalizing a h with
  | nil => rfl
  | cons i is ih =>
    rw [List.all_cons, Bool.and_eq_true] at hi
    have hrev : ((sends i).bind fun k => k.1.state?).toList.reverse =
        ((sends i).bind fun k => k.1.state?).toList := by
      cases (sends i).bind fun k => k.1.state? <;> rfl
    rw [effects_cons, ih _ hi.2, List.filterMap_append, a.state?_effect hi.1, passes_cons,
      List.reverse_append, hrev, List.append_assoc]

/-- The state is the one that was set last. -/
theorem state_execAll {a : Actor} {h : List Effect}
    (hs : a.state = (h.filterMap Effect.state?).head?.getD .inactive) {is : List Instr}
    (hi : is.all Instr.isHonest = true) :
    (a.execAll is).state = ((a.effects is h).filterMap Effect.state?).head?.getD .inactive := by
  induction is generalizing a h with
  | nil => exact hs
  | cons i is ih =>
    rw [List.all_cons, Bool.and_eq_true] at hi
    refine ih ?_ hi.2
    rw [List.filterMap_append, a.state?_effect hi.1]
    cases i with
    | transition s r => rfl
    | send k =>
      cases k with
      | stateChanged st => cases hi.1
      | _ => exact hs
    | _ => exact hs

end Actor

namespace Task

variable {t t' : Task} {now : ℕ} {inp : Input}

/-- The states that an actor will have been in at the end of its turn, the newest first. -/
def states (t : Task) : List ServiceState := t.history.filterMap Effect.state?

/-- The states that the task has still to report in its turn, the oldest first. -/
def unreported (t : Task) : List ServiceState := t.unsent.filterMap fun k => k.1.state?

/-- An input adds the states of its script, and all of them are to be reported. -/
theorem states_take (h : t.take now inp = some t') :
    t'.states = t'.unreported.reverse ++ t.states ∧ t.unreported = [] := by
  have hi := (take_eq_some_iff.mp h).1
  refine ⟨?_, by rw [unreported, unsent_of_idle hi]; rfl⟩
  rw [states, history_take h, Actor.states_effects _ (Actor.all_isHonest_script _ _), unreported,
    unsent_take h]
  rfl

/-- A delivery takes the first of what is to be reported. -/
theorem unreported_deliver {k : EventKind × Bool} (h : t.deliver = some t')
    (hk : t.outbox = some k) : t.unreported = k.1.state?.toList ++ t'.unreported := by
  obtain ⟨k', hk', hu⟩ := unsent_deliver h
  obtain rfl : k = k' := Option.some.inj (hk.symm.trans hk')
  rw [unreported, hu, unreported, List.filterMap_cons]
  cases k.1.state? <;> rfl

end Task

/-- In every state of every run of an actor's loop, the actor settles to the last state in its
history. -/
theorem Loop.state_of_reaches {G : Loop → Loop.Label → Prop} {name : String}
    {config : ServiceConfig} {now : ℕ} {s : Loop}
    (h : Runs.Reaches Loop.step G (Loop.init name config now) s) :
    s.task.settled.state = s.task.states.head?.getD .inactive := by
  refine h.invariant
    (P := fun s => s.task.settled.state = s.task.states.head?.getD .inactive) rfl ?_
  intro s l s' _ H _ hl
  rcases Loop.step_cases hl with ⟨d, rfl, rfl⟩ | ⟨t, rfl, ht, rfl⟩ | ⟨t, rfl, ht, rfl⟩ |
    ⟨inp, t, rfl, ht, rfl⟩
  · exact H
  · dsimp only
    rw [Task.settled_act ht, Task.states, Task.history_act ht]
    exact H
  · dsimp only
    rw [Task.settled_deliver ht, Task.states, Task.history_deliver ht]
    exact H
  · dsimp only
    rw [Task.settled_take ht, Task.states, Task.history_take ht]
    exact Actor.state_execAll H (Actor.all_isHonest_script _ _)

namespace Daemon

open Runs

variable {s s' : Daemon} {l : Label}

/-- The reports of an actor that are in the channel, the oldest first. -/
def inFlight (s : Daemon) (id : ℕ) : List ServiceState :=
  s.events.filterMap fun ev => if ev.src = id then ev.kind.state? else none

/-- The states that an actor has been in, or will have been in at the end of its turn, but that the
overlord has not handled, the oldest first. -/
def unhandled (s : Daemon) (id : ℕ) (slot : Slot) : List ServiceState :=
  s.inFlight id ++ slot.task.unreported

/-- Reports come in order. -/
structure Reported (s : Daemon) : Prop where
  /-- An event names the service of its actor. -/
  source : ∀ ev ∈ s.events, ∃ slot, s.slots[ev.src]? = some slot ∧
    slot.task.actor.name = ev.service
  /-- A snapshot is of an actor of its service. -/
  reporter : ∀ name e, s.overlord.services.get? name = some e →
    ∃ slot, s.slots[e.reporter]? = some slot ∧ slot.task.actor.name = name
  /-- A snapshot is the last of the reports that have been handled. -/
  order : ∀ (id : ℕ) (slot : Slot), s.slots[id]? = some slot → ∃ handled,
    slot.task.states = (s.unhandled id slot).reverse ++ handled ∧
      ∀ name e, s.overlord.services.get? name = some e → e.reporter = id →
        e.state = handled.head?.getD .inactive

/-- What a step other than a delivery adds to the states of an actor is to be reported. -/
theorem SlotStep.states {id : ℕ} {slot slot' : Slot} (h : SlotStep s l id slot slot')
    (hl : l ≠ .deliver id) : ∃ new, slot'.task.states = new.reverse ++ slot.task.states ∧
      slot'.task.unreported = slot.task.unreported ++ new := by
  have same : slot'.task = slot.task → ∃ new, slot'.task.states = new.reverse ++ slot.task.states ∧
      slot'.task.unreported = slot.task.unreported ++ new := fun he =>
    ⟨[], by rw [he]; rfl, by rw [he, List.append_nil]⟩
  cases h with
  | same => exact same rfl
  | sent _ _ hp => exact same (Slot.task_push hp)
  | answered _ _ ha => exact same (Slot.task_takeAnswer ha)
  | stopTask _ _ _ hp => exact same hp.task
  | deliver hl' => exact (hl hl').elim
  | @act t _ _ ht =>
    refine ⟨[], ?_, ?_⟩
    · rw [Task.states, Task.history_act ht]; rfl
    · rw [Task.unreported, Task.unsent_act ht, List.append_nil]; rfl
  | @input t inp _ _ ht =>
    obtain ⟨hs, hu⟩ := Task.states_take ht
    exact ⟨t.unreported, hs, by rw [hu]; rfl⟩

namespace Reported

/-- The event channel and the snapshots stay as they are, but for the actors that are spawned. -/
theorem of_same (H : s.Reported) (h : s.step l = some s') (hl : ∀ id, l ≠ .deliver id)
    (he : s'.events = s.events)
    (hserv : ∀ name e, s'.overlord.services.get? name = some e →
      s.overlord.services.get? name = some e ∨ s.slots.length ≤ e.reporter ∧ e.state = .inactive ∧
        ∃ slot, s'.slots[e.reporter]? = some slot ∧ slot.task.actor.name = name) :
    s'.Reported := by
  have hflight : ∀ id, s'.inFlight id = s.inFlight id := fun id => by rw [inFlight, inFlight, he]
  have hkept : ∀ (id : ℕ) (slot : Slot), s.slots[id]? = some slot →
      ∃ slot', s'.slots[id]? = some slot' ∧ slot'.task.actor.name = slot.task.actor.name :=
    fun id slot hs => by
      obtain ⟨slot', hs', hstep⟩ := exists_slot_step h hs
      exact ⟨slot', hs', hstep.static.1⟩
  refine ⟨fun ev hev => ?_, fun name e hget => ?_, fun id slot' hs' => ?_⟩
  · rw [he] at hev
    obtain ⟨slot, hs, hn⟩ := H.source ev hev
    obtain ⟨slot', hs', hn'⟩ := hkept _ _ hs
    exact ⟨slot', hs', hn'.trans hn⟩
  · rcases hserv name e hget with hget | ⟨-, -, hnew⟩
    · obtain ⟨slot, hs, hn⟩ := H.reporter name e hget
      obtain ⟨slot', hs', hn'⟩ := hkept _ _ hs
      exact ⟨slot', hs', hn'.trans hn⟩
    · exact hnew
  · rcases slot_step h hs' with ⟨slot, hs, hstep⟩ | ⟨hge, e, rfl, -⟩
    · obtain ⟨handled, hstates, hsnap⟩ := H.order id slot hs
      obtain ⟨new, hnew, hunrep⟩ := hstep.states (hl id)
      refine ⟨handled, ?_, fun name e hget hid => ?_⟩
      · rw [hnew, hstates, unhandled, unhandled, hunrep, hflight]
        simp only [List.reverse_append, List.append_assoc]
      · rcases hserv name e hget with hget | ⟨hge, -⟩
        · exact hsnap name e hget hid
        · -- A snapshot of a new actor is not of this one.
          rw [hid] at hge
          exact absurd hge (not_le.mpr (List.getElem?_eq_some_iff.mp hs).1)
    · -- Nothing of a new actor is in the channel.
      have hnone : s.inFlight id = [] := List.filterMap_eq_nil_iff.mpr fun ev hev => by
        obtain ⟨slot, hs, -⟩ := H.source ev hev
        rw [if_neg]
        rintro rfl
        exact absurd hge (not_le.mpr (List.getElem?_eq_some_iff.mp hs).1)
      refine ⟨[], ?_, fun name e hget hid => ?_⟩
      · rw [unhandled, hflight, hnone]; rfl
      · rcases hserv name e hget with hget | ⟨-, hstate, -⟩
        · obtain ⟨slot, hs, -⟩ := H.reporter name e hget
          rw [hid] at hs
          exact absurd hge (not_le.mpr (List.getElem?_eq_some_iff.mp hs).1)
        · exact hstate

/-- Reports stay in order when the channel takes the event of an actor. -/
theorem step_deliver (H : s.Reported) {id : ℕ} {slot : Slot} {t : Task} {k : EventKind × Bool}
    (hs : s.slots[id]? = some slot) (hk : slot.task.outbox = some k)
    (ht : slot.task.deliver = some t) :
    Reported { s.setSlot id { slot with task := t } with
      events := s.events ++ [⟨id, slot.task.actor.name, k.1, k.2⟩] } := by
  have hname : t.actor.name = slot.task.actor.name := by
    obtain ⟨k', -, rfl⟩ := Task.deliver_eq_some_iff.mp ht
    rfl
  have hkept : ∀ (j : ℕ) (slot₀ : Slot), s.slots[j]? = some slot₀ →
      ∃ slot', (s.setSlot id { slot with task := t }).slots[j]? = some slot' ∧
        slot'.task.actor.name = slot₀.task.actor.name := by
    intro j slot₀ hs₀
    simp only [setSlot, List.getElem?_set]
    split_ifs with h₁ h₂
    · subst h₁
      obtain rfl := Option.some.inj (hs.symm.trans hs₀)
      exact ⟨_, rfl, hname⟩
    · exact absurd (List.getElem?_eq_some_iff.mp hs).1 (h₁ ▸ h₂)
    · exact ⟨slot₀, hs₀, rfl⟩
  refine ⟨fun ev hev => ?_, fun name e hget => ?_, fun j slot' hs' => ?_⟩
  · rcases List.mem_append.mp hev with hev | hev
    · obtain ⟨slot₀, hs₀, hn⟩ := H.source ev hev
      obtain ⟨slot', hs', hn'⟩ := hkept _ _ hs₀
      exact ⟨slot', hs', hn'.trans hn⟩
    · rw [List.mem_singleton.mp hev]
      exact hkept _ _ hs
  · obtain ⟨slot₀, hs₀, hn⟩ := H.reporter name e hget
    obtain ⟨slot', hs', hn'⟩ := hkept _ _ hs₀
    exact ⟨slot', hs', hn'.trans hn⟩
  · have hflight : ∀ j, inFlight { s.setSlot id { slot with task := t } with
        events := s.events ++ [⟨id, slot.task.actor.name, k.1, k.2⟩] } j =
        s.inFlight j ++ if id = j then k.1.state?.toList else [] := by
      intro j
      simp only [inFlight, List.filterMap_append, List.filterMap_cons, List.filterMap_nil]
      split_ifs
      · cases k.1.state? <;> rfl
      · rfl
    rcases getElem?_setSlot (s := s) hs' with ⟨rfl, rfl⟩ | ⟨hne, hs'⟩
    · obtain ⟨handled, hstates, hsnap⟩ := H.order j slot hs
      refine ⟨handled, ?_, hsnap⟩
      have hsame : t.states = slot.task.states := by rw [Task.states, Task.history_deliver ht]; rfl
      rw [hsame, hstates, unhandled, unhandled, hflight, if_pos rfl, Task.unreported_deliver ht hk,
        List.append_assoc]
    · obtain ⟨handled, hstates, hsnap⟩ := H.order j slot' hs'
      refine ⟨handled, ?_, hsnap⟩
      rw [hstates, unhandled, unhandled, hflight, if_neg (Ne.symm hne), List.append_nil]

/-- Reports stay in order when the overlord handles an event. -/
theorem step_event (H : s.Reported) {ev : Event} {events : List Event}
    (he : s.events = ev :: events) {todo : List Overlord.Instr} :
    Reported { s with
      overlord := (s.overlord.handleSvcEvent ev).1
      todo
      events
      log := .handled ev :: s.log } := by
  have hstep := s.overlord.eventStep ev
  generalize (s.overlord.handleSvcEvent ev).1 = o', (s.overlord.handleSvcEvent ev).2 = is at hstep ⊢
  have hflight : ∀ id, s.inFlight id = (if ev.src = id then ev.kind.state?.toList else []) ++
      events.filterMap fun ev => if ev.src = id then ev.kind.state? else none := by
    intro id
    simp only [inFlight, he, List.filterMap_cons]
    split_ifs
    · cases ev.kind.state? <;> rfl
    · rfl
  -- An event that is no report.
  have quiet : ev.kind.state? = none → o' = s.overlord →
      Reported { s with overlord := o', todo, events, log := .handled ev :: s.log } := by
    rintro hk rfl
    refine ⟨fun x hx => H.source x (he ▸ List.mem_cons_of_mem _ hx), H.reporter,
      fun id slot hs => ?_⟩
    obtain ⟨handled, hstates, hsnap⟩ := H.order id slot hs
    refine ⟨handled, ?_, hsnap⟩
    rw [hstates, unhandled, unhandled, hflight, hk, Option.toList_none, ite_self, List.nil_append]
    rfl
  -- A report, which the overlord notes for the service that the event names.
  have report : ∀ st, ev.kind = .stateChanged st →
      o'.services = (s.overlord.noted ev st).services →
      Reported { s with overlord := o', todo, events, log := .handled ev :: s.log } := by
    intro st hk hserv
    obtain ⟨slot₀, hs₀, hn₀⟩ := H.source ev (he ▸ List.mem_cons_self)
    refine ⟨fun x hx => H.source x (he ▸ List.mem_cons_of_mem _ hx), fun name e hget => ?_,
      fun id slot hs => ?_⟩
    · dsimp only at hget
      rw [hserv, Overlord.get?_noted] at hget
      split_ifs at hget with hn
      · obtain ⟨e₀, -, rfl⟩ := Option.map_eq_some_iff.mp hget
        exact ⟨slot₀, hs₀, hn₀.trans hn.symm⟩
      · exact H.reporter name e hget
    · obtain ⟨handled, hstates, hsnap⟩ := H.order id slot hs
      by_cases hid : ev.src = id
      · refine ⟨st :: handled, ?_, fun name e hget hr => ?_⟩
        · rw [hstates, unhandled, unhandled, hflight, if_pos hid, hk]
          simp only [EventKind.state?, Option.toList_some, List.reverse_append, List.append_assoc,
            List.reverse_cons, List.nil_append, List.cons_append]
          rfl
        · dsimp only at hget
          rw [hserv, Overlord.get?_noted] at hget
          split_ifs at hget with hn
          · obtain ⟨e₀, -, rfl⟩ := Option.map_eq_some_iff.mp hget
            rfl
          · -- The actor's service is the one that the event names.
            obtain ⟨slot₁, hs₁, hn₁⟩ := H.reporter name e hget
            rw [hr, ← hid] at hs₁
            obtain rfl := Option.some.inj (hs₀.symm.trans hs₁)
            exact (hn (hn₁.symm.trans hn₀)).elim
      · refine ⟨handled, ?_, fun name e hget hr => ?_⟩
        · rw [hstates, unhandled, unhandled, hflight, if_neg hid]
          rfl
        · dsimp only at hget
          rw [hserv, Overlord.get?_noted] at hget
          split_ifs at hget with hn
          · obtain ⟨e₀, -, rfl⟩ := Option.map_eq_some_iff.mp hget
            exact (hid hr).elim
          · exact hsnap name e hget hr
  cases hstep with
  | started hk hr => exact report _ hk rfl
  | stopped hk hs => exact report _ hk rfl
  | passed hk hs => exact report _ hk rfl
  | exited hk => exact quiet (by rw [hk]; rfl) rfl
  | shutdown hk => exact quiet (by rw [hk]; rfl) rfl

/-- Every step keeps the reports in order. -/
theorem step (H : s.Reported) (h : s.step l = some s') : s'.Reported := by
  have same : (∀ id, l ≠ .deliver id) → s'.events = s.events →
      s'.overlord.services = s.overlord.services → s'.Reported := fun hl he hs =>
    H.of_same h hl he fun name e hget => .inl (hs ▸ hget)
  cases l with
  | tick d => exact same nofun (Option.some.inj h ▸ rfl) (Option.some.inj h ▸ rfl)
  | exit e => obtain ⟨-, -, rfl⟩ := step_exit h; exact same nofun rfl rfl
  | act i => obtain ⟨slot, t, -, -, -, rfl⟩ := step_act h; exact same nofun rfl rfl
  | deliver i =>
    obtain ⟨slot, t, k, hs, hk, -, ht, rfl⟩ := Daemon.step_deliver h
    exact H.step_deliver hs hk ht
  | input i inp => obtain ⟨slot, t, -, -, -, rfl⟩ := step_input h; exact same nofun rfl rfl
  | command c => obtain ⟨-, rfl⟩ := step_command h; exact same nofun rfl rfl
  | event => obtain ⟨-, ev, rest, he, rfl⟩ := Daemon.step_event h; exact H.step_event he
  | check name status => obtain ⟨-, rfl⟩ := step_check h; exact same nofun rfl rfl
  | stopTask i =>
    obtain ⟨t, slot, slot', phase, -, -, -, rfl⟩ := step_stopTask h
    exact same nofun rfl rfl
  | overlord load =>
    obtain ⟨i, rest, -, hstep⟩ := step_overlord h
    cases hstep with
    | reload hl =>
      refine H.of_same h nofun rfl fun name e hget => ?_
      rcases (s.overlord.get?_reloadLayers hget).2 with hget | ⟨i, config, hi, rfl⟩
      · exact .inl hget
      · exact .inr ⟨Nat.le_add_right _ _, rfl, _, getElem?_new s.slots hi, rfl⟩
    | _ => exact same nofun rfl rfl

/-- Where nothing of the actor is unhandled, the snapshot that it reported is its state. -/
theorem state_eq (H : s.Reported) {id : ℕ} {slot : Slot} (hs : s.slots[id]? = some slot)
    (hstate : slot.task.settled.state = slot.task.states.head?.getD .inactive)
    (hu : s.unhandled id slot = []) {name : String} {e : ServiceEntry}
    (hget : s.overlord.services.get? name = some e) (hr : e.reporter = id) :
    e.state = slot.task.settled.state := by
  obtain ⟨handled, hstates, hsnap⟩ := H.order id slot hs
  rw [hstate, hstates, hu, hsnap name e hget hr]
  rfl

end Reported

/-- In every state of every run, the reports come in order. -/
theorem reported_of_reaches {G : Daemon → Label → Prop} {plan : Plan}
    (h : Reaches step G (init plan) s) : s.Reported := by
  refine h.invariant (P := Reported) ?_ fun s l s' _ H _ hl => H.step hl
  refine ⟨nofun, fun name e hget => ?_, fun id slot hs => ⟨[], ?_, fun name e hget _ => ?_⟩⟩
  · obtain ⟨config, -, hs, he⟩ := get?_init hget
    have hr : e.reporter = e.id := congrArg ServiceEntry.reporter he
    exact ⟨_, hr ▸ hs, rfl⟩
  · obtain ⟨e, -, rfl⟩ := List.mem_map.mp (List.mem_of_getElem? hs)
    rfl
  · obtain ⟨config, -, -, he⟩ := get?_init hget
    exact congrArg ServiceEntry.state he

/-- In every state of every run, an actor settles to the last state in its history. -/
theorem state_of_reaches {G : Daemon → Label → Prop} {plan : Plan}
    (h : Reaches step G (init plan) s) {id : ℕ} {slot : Slot} (hs : s.slots[id]? = some slot) :
    slot.task.settled.state = slot.task.states.head?.getD .inactive := by
  obtain ⟨name, config, now, hloop⟩ := reaches_loop Always (fun _ _ _ _ _ _ _ _ => trivial)
    (fun _ _ _ => trivial) h hs
  exact Loop.state_of_reaches hloop

end Daemon

end Vigil
