import Vigil.Overlord.Daemon

/-!
# What a step of the daemon does

One inversion lemma for each label, with everything that the step requires and changes. Then the
step as one actor sees it: `SlotStep` says what can happen to a slot, `Daemon.slot_step` that
nothing else does, and `Daemon.reaches_loop` that every actor of a run of the daemon has a run of
its own loop behind it, so that what holds of every run of the loop holds of every actor.
-/

namespace Vigil

open Actor (Input)

namespace Slot

variable {slot slot' : Slot} {c : Cmd}

/-- A command is put into the mailbox, or the task has returned and drops it. -/
theorem push_cases (h : slot.push c = some slot') :
    slot.task.ended = true ∧ slot' = slot ∨
      slot.task.ended = false ∧ slot.mailbox.length < mailboxCapacity ∧
        slot' = { slot with mailbox := slot.mailbox ++ [c] } := by
  unfold push at h
  split_ifs at h with he hc
  · exact .inl ⟨he, (Option.some.inj h).symm⟩
  · exact .inr ⟨by simpa using he, hc, (Option.some.inj h).symm⟩

/-- A command in the mailbox does nothing to the task. -/
theorem task_push (h : slot.push c = some slot') : slot'.task = slot.task := by
  rcases push_cases h with ⟨-, rfl⟩ | ⟨-, -, rfl⟩ <;> rfl

/-- What is in the mailbox of a task that has not returned stays there, and the new command is put
behind it. -/
theorem mailbox_push (h : slot.push c = some slot') (he : slot.task.ended = false) :
    slot'.mailbox = slot.mailbox ++ [c] := by
  rcases push_cases h with ⟨he', -⟩ | ⟨-, -, rfl⟩
  · rw [he] at he'; cases he'
  · rfl

/-- The answer is received, or the task has returned. -/
theorem takeAnswer_cases (h : slot.takeAnswer = some slot') :
    (slot.answer.isSome ∨ slot.task.ended = true) ∧ slot' = { slot with answer := none } := by
  unfold takeAnswer at h
  split_ifs at h with hc
  exact ⟨by simpa using hc, (Option.some.inj h).symm⟩

/-- Receiving the answer does nothing to the task. -/
theorem task_takeAnswer (h : slot.takeAnswer = some slot') : slot'.task = slot.task := by
  obtain ⟨-, rfl⟩ := takeAnswer_cases h; rfl

end Slot

namespace Daemon

variable {s s' : Daemon}

/-! ## Inversion -/

/-- A process that exits is one that an actor has spawned and that has not exited, and its exit is
noted. -/
theorem step_exit {e : Exit} (h : s.step (.exit e) = some s') :
    (∃ slot, s.slots[e.id]? = some slot ∧ e.process < slot.task.actor.spawned) ∧
      s.exited e.id e.process = false ∧ s' = { s with exits := e :: s.exits } := by
  simp only [step] at h
  split_ifs at h with hc
  rw [Bool.and_eq_true, Option.any_eq_true, Bool.not_eq_true'] at hc
  obtain ⟨⟨slot, hs, hp⟩, he⟩ := hc
  exact ⟨⟨slot, hs, of_decide_eq_true hp⟩, he, (Option.some.inj h).symm⟩

/-- An actor that acts is able to, and only its own slot changes. -/
theorem step_act {id : ℕ} (h : s.step (.act id) = some s') :
    ∃ slot t, s.slots[id]? = some slot ∧ s.canAct id slot.task = true ∧
      slot.task.act s.now = some t ∧
      s' = s.setSlot id { slot with task := t, answer := slot.nextAnswer } := by
  simp only [step] at h
  obtain ⟨slot, hs, h⟩ := Option.bind_eq_some_iff.mp h
  split_ifs at h with hc
  obtain ⟨t, ht, rfl⟩ := Option.map_eq_some_iff.mp h
  exact ⟨slot, t, hs, hc, ht, rfl⟩

/-- A delivery takes an event out of an outbox and puts it into the channel, which has room. -/
theorem step_deliver {id : ℕ} (h : s.step (.deliver id) = some s') :
    ∃ slot t k, s.slots[id]? = some slot ∧ slot.task.outbox = some k ∧
      s.events.length < eventCapacity ∧ slot.task.deliver = some t ∧
      s' = { s.setSlot id { slot with task := t } with
        events := s.events ++ [⟨id, slot.task.actor.name, k.1, k.2⟩] } := by
  simp only [step] at h
  obtain ⟨slot, hs, h⟩ := Option.bind_eq_some_iff.mp h
  obtain ⟨k, hk, h⟩ := Option.bind_eq_some_iff.mp h
  split_ifs at h with hc
  obtain ⟨t, ht, rfl⟩ := Option.map_eq_some_iff.mp h
  exact ⟨slot, t, k, hs, hk, hc, ht, rfl⟩

/-- An input is admitted and taken by an actor, and changes its slot. -/
theorem step_input {id : ℕ} {inp : Input} (h : s.step (.input id inp) = some s') :
    ∃ slot t, s.slots[id]? = some slot ∧ s.admits id slot inp = true ∧
      slot.task.take s.now inp = some t ∧
      s' = s.setSlot id { slot with task := t, mailbox := slot.nextMailbox inp } := by
  simp only [step] at h
  obtain ⟨slot, hs, h⟩ := Option.bind_eq_some_iff.mp h
  split_ifs at h with hc
  obtain ⟨t, ht, rfl⟩ := Option.map_eq_some_iff.mp h
  exact ⟨slot, t, hs, hc, ht, rfl⟩

/-- A command is taken at the head of the loop, and leaves its handler to be done. -/
theorem step_command {c : Overlord.Cmd} (h : s.step (.command c) = some s') :
    s.atHead = true ∧ s' = { s with todo := s.overlord.handleCmd c } := by
  simp only [step] at h
  split_ifs at h with hc
  exact ⟨hc, (Option.some.inj h).symm⟩

/-- An event is taken at the head of the loop from the front of the channel, and leaves its handler
to be done. -/
theorem step_event (h : s.step .event = some s') :
    s.atHead = true ∧ ∃ ev rest, s.events = ev :: rest ∧
      s' = { s with
        overlord := (s.overlord.handleSvcEvent ev).1
        todo := (s.overlord.handleSvcEvent ev).2
        events := rest
        log := .handled ev :: s.log } := by
  simp only [step] at h
  split at h
  · cases h
  · next ev rest he =>
    split_ifs at h with hc
    exact ⟨hc, ev, rest, he, (Option.some.inj h).symm⟩

/-- A check event is taken at the head of the loop, and leaves its handler to be done. -/
theorem step_check {name : String} {status : CheckStatus}
    (h : s.step (.check name status) = some s') :
    s.atHead = true ∧ s' = { s with todo := s.overlord.handleCheckEvent name status } := by
  simp only [step] at h
  split_ifs at h with hc
  exact ⟨hc, (Option.some.inj h).symm⟩

/-- What the first action `i` of a handler, before `rest`, does. -/
inductive OverlordStep (s : Daemon) (load : Option Plan) :
    Overlord.Instr → List Overlord.Instr → Daemon → Prop
  | unknown {name c why rest} (hn : s.overlord.services.get? name = none) :
    OverlordStep s load (.request name c why) rest { s with todo := rest }
  | request {name c why rest e} (he : s.overlord.services.get? name = some e) :
    OverlordStep s load (.request name c why) rest
      { s with todo := .sendTo name e.id c why :: .await e.id :: rest }
  | sendTo {name id c why rest slot slot'} (hs : s.slots[id]? = some slot)
    (hp : slot.push c = some slot') :
    OverlordStep s load (.sendTo name id c why) rest
      { s.setSlot id slot' with todo := rest, log := .sent name id c why :: s.log }
  | await {id rest slot slot'} (hs : s.slots[id]? = some slot) (ha : slot.takeAnswer = some slot') :
    OverlordStep s load (.await id) rest { s.setSlot id slot' with todo := rest }
  | enable {name rest} :
    OverlordStep s load (.enable name) rest
      { s with overlord := s.overlord.enable name, todo := rest }
  | reloadFailed {rest} (hl : load = none) :
    OverlordStep s load .reload rest { s with todo := rest }
  | reload {rest plan} (hl : load = some plan) :
    OverlordStep s load .reload rest { s with
      overlord := (s.overlord.reloadLayers plan s.slots.length).1
      slots := s.slots ++ (s.overlord.reloadLayers plan s.slots.length).2.1.map .new
      todo := (s.overlord.reloadLayers plan s.slots.length).2.2 ++ rest
      log := .loaded (s.overlord.reloadLayers plan s.slots.length).1.enabledNames :: s.log }
  | stopAll {rest} :
    OverlordStep s load .stopAll rest { s with
      stopTasks := s.overlord.services.entries.map fun e => { name := e.1, id := e.2.id }
      todo := rest }
  | join {rest} (hd : ∀ t ∈ s.stopTasks, t.phase = .done) :
    OverlordStep s load .join rest { s with todo := rest }
  | finish {code rest} :
    OverlordStep s load (.finish code) rest
      { s with todo := [], ended := true, log := .ended code :: s.log }

/-- The overlord does the first action of what is left of its handler. -/
theorem step_overlord {load : Option Plan} (h : s.step (.overlord load) = some s') :
    ∃ i rest, s.todo = i :: rest ∧ OverlordStep s load i rest s' := by
  simp only [step] at h
  unfold overlordStep at h
  cases ht : s.todo with
  | nil => rw [ht] at h; cases h
  | cons i rest =>
    refine ⟨i, rest, rfl, ?_⟩
    rw [ht] at h
    cases i with
    | request name c why =>
      cases hg : s.overlord.services.get? name with
      | none => simp only [hg, Option.some.injEq] at h; exact h ▸ .unknown hg
      | some e => simp only [hg, Option.some.injEq] at h; exact h ▸ .request hg
    | sendTo name id c why =>
      obtain ⟨slot, hs, h⟩ := Option.bind_eq_some_iff.mp h
      obtain ⟨slot', hp, rfl⟩ := Option.map_eq_some_iff.mp h
      exact .sendTo hs hp
    | await id =>
      obtain ⟨slot, hs, h⟩ := Option.bind_eq_some_iff.mp h
      obtain ⟨slot', ha, rfl⟩ := Option.map_eq_some_iff.mp h
      exact .await hs ha
    | enable name => exact Option.some.inj h ▸ .enable
    | reload =>
      cases load with
      | none => exact Option.some.inj h ▸ .reloadFailed rfl
      | some plan => exact Option.some.inj h ▸ .reload rfl
    | stopAll => exact Option.some.inj h ▸ .stopAll
    | join =>
      simp only at h
      split_ifs at h with hd
      exact Option.some.inj h ▸ .join (by simpa using hd)
    | finish code => exact Option.some.inj h ▸ .finish

/-- What the next action of a task of `stop_all`, in its phase, does to its actor's slot. -/
inductive StopStep (slot : Slot) : StopPhase → Slot → StopPhase → Prop
  | stop {slot'} (hp : slot.push .stop = some slot') : StopStep slot .stop slot' .await
  | await {slot'} (ha : slot.takeAnswer = some slot') : StopStep slot .await slot' .shutdown
  | shutdown {slot'} (hp : slot.push .shutdown = some slot') : StopStep slot .shutdown slot' .done

/-- A task of `stop_all` sends the stop, waits for its answer, or sends the shutdown. -/
theorem StopStep.inv {slot slot' : Slot} {phase phase' : StopPhase}
    (h : StopStep slot phase slot' phase') :
    phase = .stop ∧ slot.push .stop = some slot' ∧ phase' = .await ∨
      phase = .await ∧ slot.takeAnswer = some slot' ∧ phase' = .shutdown ∨
      phase = .shutdown ∧ slot.push .shutdown = some slot' ∧ phase' = .done := by
  cases h with
  | stop hp => exact .inl ⟨rfl, hp, rfl⟩
  | await ha => exact .inr (.inl ⟨rfl, ha, rfl⟩)
  | shutdown hp => exact .inr (.inr ⟨rfl, hp, rfl⟩)

/-- A task of `stop_all` does nothing to its actor's task. -/
theorem StopStep.task {slot slot' : Slot} {phase phase' : StopPhase}
    (h : StopStep slot phase slot' phase') : slot'.task = slot.task := by
  cases h with
  | stop hp => exact Slot.task_push hp
  | await ha => exact Slot.task_takeAnswer ha
  | shutdown hp => exact Slot.task_push hp

/-- An action of a task of `stop_all` changes the slot of its actor and its own phase. -/
theorem step_stopTask {i : ℕ} (h : s.step (.stopTask i) = some s') :
    ∃ t slot slot' phase, s.stopTasks[i]? = some t ∧ s.slots[t.id]? = some slot ∧
      StopStep slot t.phase slot' phase ∧
      s' = { s.setSlot t.id slot' with stopTasks := s.stopTasks.set i { t with phase } } := by
  simp only [step] at h
  unfold stopTaskStep at h
  obtain ⟨t, hi, h⟩ := Option.bind_eq_some_iff.mp h
  obtain ⟨slot, hs, h⟩ := Option.bind_eq_some_iff.mp h
  cases hph : t.phase with
  | stop =>
    rw [hph] at h
    obtain ⟨slot', hp, rfl⟩ := Option.map_eq_some_iff.mp h
    exact ⟨t, slot, slot', .await, hi, hs, hph ▸ .stop hp, rfl⟩
  | await =>
    rw [hph] at h
    obtain ⟨slot', hp, rfl⟩ := Option.map_eq_some_iff.mp h
    exact ⟨t, slot, slot', .shutdown, hi, hs, hph ▸ .await hp, rfl⟩
  | shutdown =>
    rw [hph] at h
    obtain ⟨slot', hp, rfl⟩ := Option.map_eq_some_iff.mp h
    exact ⟨t, slot, slot', .done, hi, hs, hph ▸ .shutdown hp, rfl⟩
  | done => rw [hph] at h; cases h

/-- What a step does to the overlord's task: nothing, or a handler begins, or its next action is
done. -/
inductive HandlerStep (s : Daemon) : Label → Daemon → Prop
  | same {l s'} (ho : s'.overlord = s.overlord) (ht : s'.todo = s.todo) (hlog : s'.log = s.log)
    (he : s'.ended = s.ended) : HandlerStep s l s'
  | command {c} (hh : s.atHead = true) :
    HandlerStep s (.command c) { s with todo := s.overlord.handleCmd c }
  | event {ev rest} (hh : s.atHead = true) (hev : s.events = ev :: rest) :
    HandlerStep s .event { s with
      overlord := (s.overlord.handleSvcEvent ev).1
      todo := (s.overlord.handleSvcEvent ev).2
      events := rest
      log := .handled ev :: s.log }
  | check {name status} (hh : s.atHead = true) :
    HandlerStep s (.check name status)
      { s with todo := s.overlord.handleCheckEvent name status }
  | overlord {load i rest s'} (htodo : s.todo = i :: rest) (h : OverlordStep s load i rest s') :
    HandlerStep s (.overlord load) s'

/-- Only the overlord's own steps are of its task. -/
theorem handlerStep {l : Label} (h : s.step l = some s') : HandlerStep s l s' := by
  cases l with
  | tick d =>
    obtain rfl := Option.some.inj h
    exact .same rfl rfl rfl rfl
  | exit e => obtain ⟨-, -, rfl⟩ := step_exit h; exact .same rfl rfl rfl rfl
  | act i => obtain ⟨slot, t, -, -, -, rfl⟩ := step_act h; exact .same rfl rfl rfl rfl
  | deliver i => obtain ⟨slot, t, k, -, -, -, -, rfl⟩ := step_deliver h; exact .same rfl rfl rfl rfl
  | input i inp => obtain ⟨slot, t, -, -, -, rfl⟩ := step_input h; exact .same rfl rfl rfl rfl
  | stopTask i =>
    obtain ⟨t, slot, slot', phase, -, -, -, rfl⟩ := step_stopTask h
    exact .same rfl rfl rfl rfl
  | command c => obtain ⟨hh, rfl⟩ := step_command h; exact .command hh
  | event => obtain ⟨hh, ev, rest, hev, rfl⟩ := step_event h; exact .event hh hev
  | check name status => obtain ⟨hh, rfl⟩ := step_check h; exact .check hh
  | overlord load => obtain ⟨i, rest, htodo, hstep⟩ := step_overlord h; exact .overlord htodo hstep

/-- When the overlord's task has ended, it does nothing more. -/
theorem todo_of_ended {G : Daemon → Label → Prop} {plan : Plan}
    (h : Runs.Reaches step G (init plan) s) : s.ended = true → s.todo = [] := by
  refine h.invariant (P := fun s => s.ended = true → s.todo = []) (fun he => by cases he) ?_
  intro s l s' _ H _ hl
  have head : s.atHead = true → s'.ended = s.ended → s'.ended = true → s'.todo = [] :=
    fun hh he h => by
      simp only [atHead, Bool.and_eq_true, Bool.not_eq_true'] at hh
      rw [he, hh.2] at h
      cases h
  cases handlerStep hl with
  | same _ ht _ he => exact fun h => ht.trans (H (he ▸ h))
  | command hh | event hh | check hh => exact head hh rfl
  | overlord htodo hstep =>
    have hlive : s.ended = true → False := fun he => by rw [H he] at htodo; cases htodo
    cases hstep with
    | finish => exact fun _ => rfl
    | _ => exact fun he => (hlive he).elim

/-! ## One actor -/

/-- A slot after one has been replaced. -/
theorem getElem?_setSlot {id j : ℕ} {slot slot' : Slot}
    (h : (s.setSlot id slot).slots[j]? = some slot') :
    j = id ∧ slot' = slot ∨ j ≠ id ∧ s.slots[j]? = some slot' := by
  simp only [setSlot, List.getElem?_set] at h
  split_ifs at h with h₁ h₂
  · exact .inl ⟨h₁.symm, (Option.some.inj h).symm⟩
  · exact .inr ⟨fun hj => h₁ hj.symm, h⟩

/-- What a step labelled `l` can do to the slot of the actor `id`. -/
inductive SlotStep (s : Daemon) (l : Label) (id : ℕ) (slot : Slot) : Slot → Prop
  /-- Nothing. -/
  | same : SlotStep s l id slot slot
  | act {t} (hl : l = .act id) (hc : s.canAct id slot.task = true)
    (ht : slot.task.act s.now = some t) :
    SlotStep s l id slot { slot with task := t, answer := slot.nextAnswer }
  | deliver {t} (hl : l = .deliver id) (ht : slot.task.deliver = some t) :
    SlotStep s l id slot { slot with task := t }
  | input {t inp} (hl : l = .input id inp) (hm : s.admits id slot inp = true)
    (ht : slot.task.take s.now inp = some t) :
    SlotStep s l id slot { slot with task := t, mailbox := slot.nextMailbox inp }
  /-- The overlord sends a command. -/
  | sent {name c why rest load slot'} (hl : l = .overlord load)
    (htodo : s.todo = .sendTo name id c why :: rest) (hp : slot.push c = some slot') :
    SlotStep s l id slot slot'
  /-- The overlord receives the answer. -/
  | answered {rest load slot'} (hl : l = .overlord load) (htodo : s.todo = .await id :: rest)
    (ha : slot.takeAnswer = some slot') : SlotStep s l id slot slot'
  /-- A task of `stop_all` does its next action. -/
  | stopTask {i t slot' phase} (hl : l = .stopTask i) (hi : s.stopTasks[i]? = some t)
    (hid : t.id = id) (hp : StopStep slot t.phase slot' phase) : SlotStep s l id slot slot'

/-- Every slot after a step was there before it, and one of the changes of `SlotStep` has been made
to it, or it is the slot of an actor that a reload has spawned. -/
theorem slot_step {l : Label} (h : s.step l = some s') {id : ℕ} {slot' : Slot}
    (hs' : s'.slots[id]? = some slot') :
    (∃ slot, s.slots[id]? = some slot ∧ SlotStep s l id slot slot') ∨
      (s.slots.length ≤ id ∧ ∃ e, slot' = .new e ∧ ∃ plan rest, l = .overlord (some plan) ∧
        s.todo = .reload :: rest ∧
        (s.overlord.reloadLayers plan s.slots.length).2.1[id - s.slots.length]? = some e) := by
  -- Where the slots are as before, or one of them is replaced.
  have same : s'.slots = s.slots →
      ∃ slot, s.slots[id]? = some slot ∧ SlotStep s l id slot slot' := fun he =>
    ⟨slot', he ▸ hs', .same⟩
  have one : ∀ {j slot₀ slot₁}, s.slots[j]? = some slot₀ → s'.slots = s.slots.set j slot₁ →
      SlotStep s l j slot₀ slot₁ →
        ∃ slot, s.slots[id]? = some slot ∧ SlotStep s l id slot slot' := by
    intro j slot₀ slot₁ h₀ he hstep
    rw [he, List.getElem?_set] at hs'
    split_ifs at hs' with h₁ h₂
    · obtain rfl := Option.some.inj hs'
      exact ⟨slot₀, h₁ ▸ h₀, h₁ ▸ hstep⟩
    · exact ⟨slot', hs', .same⟩
  cases l with
  | tick d => exact .inl (same (Option.some.inj h ▸ rfl))
  | exit e => obtain ⟨-, -, rfl⟩ := step_exit h; exact .inl (same rfl)
  | act i =>
    obtain ⟨slot, t, hs, hc, ht, rfl⟩ := step_act h
    exact .inl (one hs rfl (.act rfl hc ht))
  | deliver i =>
    obtain ⟨slot, t, k, hs, hk, hc, ht, rfl⟩ := step_deliver h
    exact .inl (one hs rfl (.deliver rfl ht))
  | input i inp =>
    obtain ⟨slot, t, hs, hc, ht, rfl⟩ := step_input h
    exact .inl (one hs rfl (.input rfl hc ht))
  | command c => obtain ⟨-, rfl⟩ := step_command h; exact .inl (same rfl)
  | event => obtain ⟨-, ev, rest, -, rfl⟩ := step_event h; exact .inl (same rfl)
  | check name status => obtain ⟨-, rfl⟩ := step_check h; exact .inl (same rfl)
  | stopTask i =>
    obtain ⟨t, slot, slot', phase, hi, hs, hp, rfl⟩ := step_stopTask h
    exact .inl (one hs rfl (.stopTask rfl hi rfl hp))
  | overlord load =>
    obtain ⟨i, rest, htodo, hstep⟩ := step_overlord h
    cases hstep with
    | sendTo hs hp => exact .inl (one hs rfl (.sent rfl htodo hp))
    | await hs ha => exact .inl (one hs rfl (.answered rfl htodo ha))
    | reload hl =>
      rcases lt_or_ge id s.slots.length with hlt | hge
      · exact .inl ⟨slot', by rwa [List.getElem?_append_left hlt] at hs', .same⟩
      · rw [List.getElem?_append_right hge] at hs'
        rw [List.getElem?_map] at hs'
        obtain ⟨e, he, rfl⟩ := Option.map_eq_some_iff.mp hs'
        exact .inr ⟨hge, e, rfl, _, rest, by rw [hl], htodo, he⟩
    | _ => exact .inl (same rfl)

/-- No slot is ever taken away. -/
theorem length_slots_le {l : Label} (h : s.step l = some s') :
    s.slots.length ≤ s'.slots.length := by
  cases l with
  | tick d => exact Option.some.inj h ▸ le_rfl
  | exit e => obtain ⟨-, -, rfl⟩ := step_exit h; exact le_rfl
  | act i => obtain ⟨slot, t, -, -, -, rfl⟩ := step_act h; simp [setSlot]
  | deliver i => obtain ⟨slot, t, k, -, -, -, -, rfl⟩ := step_deliver h; simp [setSlot]
  | input i inp => obtain ⟨slot, t, -, -, -, rfl⟩ := step_input h; simp [setSlot]
  | command c => obtain ⟨-, rfl⟩ := step_command h; exact le_rfl
  | event => obtain ⟨-, ev, rest, -, rfl⟩ := step_event h; exact le_rfl
  | check name status => obtain ⟨-, rfl⟩ := step_check h; exact le_rfl
  | stopTask i => obtain ⟨t, slot, slot', phase, -, -, -, rfl⟩ := step_stopTask h; simp [setSlot]
  | overlord load =>
    obtain ⟨i, rest, -, hstep⟩ := step_overlord h
    cases hstep <;> simp [setSlot]

/-- A slot is there after a step, changed as `SlotStep` says. -/
theorem exists_slot_step {l : Label} (h : s.step l = some s') {id : ℕ} {slot : Slot}
    (hs : s.slots[id]? = some slot) :
    ∃ slot', s'.slots[id]? = some slot' ∧ SlotStep s l id slot slot' := by
  have hlt : id < s.slots.length := (List.getElem?_eq_some_iff.mp hs).1
  have hlt' : id < s'.slots.length := hlt.trans_le (length_slots_le h)
  refine ⟨s'.slots[id], List.getElem?_eq_getElem hlt', ?_⟩
  rcases slot_step h (List.getElem?_eq_getElem hlt') with ⟨slot₀, hs₀, hstep⟩ | ⟨hge, -⟩
  · exact Option.some.inj (hs₀.symm.trans hs) ▸ hstep
  · exact absurd hge (not_le.mpr hlt)

/-- The clock is moved by ticks only. -/
theorem now_step {l : Label} (h : s.step l = some s') :
    s'.now = s.now ∨ ∃ d, l = .tick d ∧ s'.now = s.now + d := by
  cases l with
  | tick d => exact .inr ⟨d, rfl, Option.some.inj h ▸ rfl⟩
  | exit e => obtain ⟨-, -, rfl⟩ := step_exit h; exact .inl rfl
  | act i => obtain ⟨slot, t, -, -, -, rfl⟩ := step_act h; exact .inl rfl
  | deliver i => obtain ⟨slot, t, k, -, -, -, -, rfl⟩ := step_deliver h; exact .inl rfl
  | input i inp => obtain ⟨slot, t, -, -, -, rfl⟩ := step_input h; exact .inl rfl
  | command c => obtain ⟨-, rfl⟩ := step_command h; exact .inl rfl
  | event => obtain ⟨-, ev, rest, -, rfl⟩ := step_event h; exact .inl rfl
  | check name status => obtain ⟨-, rfl⟩ := step_check h; exact .inl rfl
  | stopTask i => obtain ⟨t, slot, slot', phase, -, -, -, rfl⟩ := step_stopTask h; exact .inl rfl
  | overlord load =>
    obtain ⟨i, rest, -, hstep⟩ := step_overlord h
    cases hstep <;> exact .inl rfl

/-! ## One actor's loop -/

/-- What happens to a slot is nothing to its task, or a step of the actor's loop. -/
theorem SlotStep.loop {l : Label} {id : ℕ} {slot slot' : Slot} (h : SlotStep s l id slot slot') :
    slot'.task = slot.task ∨ ∃ l', Loop.step ⟨s.now, slot.task⟩ l' = some ⟨s.now, slot'.task⟩ ∧
      ((∀ inp, l' ≠ .input inp) ∨ ∃ inp, l' = .input inp ∧ l = .input id inp ∧
        s.admits id slot inp = true ∧ (slot.task.take s.now inp).isSome = true) := by
  cases h with
  | same => exact .inl rfl
  | act hl hc ht => exact .inr ⟨.act, by rw [Loop.step, ht]; rfl, .inl nofun⟩
  | deliver hl ht => exact .inr ⟨.deliver, by rw [Loop.step, ht]; rfl, .inl nofun⟩
  | input hl hm ht =>
    exact .inr ⟨.input _, by rw [Loop.step, ht]; rfl, .inr ⟨_, rfl, hl, hm, by rw [ht]; rfl⟩⟩
  | sent hl htodo hp => exact .inl (Slot.task_push hp)
  | answered hl htodo ha => exact .inl (Slot.task_takeAnswer ha)
  | stopTask hl hi hid hp => exact .inl hp.task

/-- In a run of the daemon, every actor has a run of its own loop behind it, whose inputs meet the
condition `G'` if the daemon's do. -/
theorem reaches_loop {G : Daemon → Label → Prop} (G' : Loop → Loop.Label → Prop)
    (hG : ∀ (s : Daemon) id inp slot, G s (.input id inp) → s.slots[id]? = some slot →
      s.admits id slot inp = true → (slot.task.take s.now inp).isSome = true →
      G' ⟨s.now, slot.task⟩ (.input inp))
    (hG' : ∀ s l, (∀ inp, l ≠ .input inp) → G' s l) {plan : Plan}
    (h : Runs.Reaches step G (init plan) s) {id : ℕ} {slot : Slot} (hs : s.slots[id]? = some slot) :
    ∃ name config now,
      Runs.Reaches Loop.step G' (Loop.init name config now) ⟨s.now, slot.task⟩ := by
  induction h generalizing slot with
  | refl =>
    obtain ⟨e, -, rfl⟩ := List.mem_map.mp (List.mem_of_getElem? hs)
    exact ⟨e.1, e.2, 0, .refl⟩
  | @tail s s' l hr hl hstep ih =>
    -- A tick is a tick of every loop, and every other step leaves the clock.
    have tick : ∀ {t : Task} {name config now},
        Runs.Reaches Loop.step G' (Loop.init name config now) ⟨s.now, t⟩ →
        Runs.Reaches Loop.step G' (Loop.init name config now) ⟨s'.now, t⟩ := by
      intro t name config now hloop
      rcases now_step hstep with hn | ⟨d, -, hn⟩
      · rw [hn]; exact hloop
      · rw [hn]; exact hloop.tail (l := .tick d) (hG' _ _ nofun) rfl
    rcases slot_step hstep hs with ⟨slot₀, hs₀, hslot⟩ | ⟨-, e, rfl, -⟩
    · obtain ⟨name, config, now, hloop⟩ := ih hs₀
      refine ⟨name, config, now, tick ?_⟩
      rcases hslot.loop with heq | ⟨l', hl', hin⟩
      · rw [heq]; exact hloop
      · refine hloop.tail ?_ hl'
        rcases hin with hn | ⟨inp, rfl, rfl, hm, ht⟩
        · exact hG' _ _ hn
        · exact hG _ _ _ _ hl hs₀ hm ht
    · exact ⟨e.1, e.2, s'.now, .refl⟩

end Daemon

end Vigil
