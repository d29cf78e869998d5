import Mathlib.Algebra.Order.BigOperators.Group.List
import Vigil.Overlord.Progress

/-!
# When the overlord and an actor wait for each other

While a handler of the overlord runs, nobody takes events out of the event channel. If the handler
waits for an actor that waits for room in the channel, neither ever goes on (`Deadlocked`).

What decides is how many events there are, in the channel and still to be sent by the actors in
their present turns (`load`), when an actor takes an input while the overlord is in a handler, and
when the overlord takes up a handler. If they all fit into the channel, or every actor that the
handler still has to do with has nothing left to send, all is well (`Roomy`), and no other step
spoils it. So in every run that keeps to this where it takes something up (`Admissible`), there is
no deadlock (`not_deadlocked_of_reaches`).
-/

namespace Vigil

open Actor (Input)

/-- A sum over a list in which one element is replaced. -/
theorem sum_map_set {α : Type*} (f : α → ℕ) (l : List α) (i : ℕ) {x : α} (y : α)
    (h : l[i]? = some x) : ((l.set i y).map f).sum + f x = (l.map f).sum + f y := by
  induction l generalizing i with
  | nil => cases h
  | cons a l ih =>
    cases i with
    | zero =>
      obtain rfl : a = x := Option.some.inj h
      simp only [List.set_cons_zero, List.map_cons, List.sum_cons]
      omega
    | succ i =>
      simp only [List.set_cons_succ, List.map_cons, List.sum_cons]
      have := ih i h
      omega

namespace Overlord

/-- A handler with the action has to do with the actor. A reload only reads the plan; what it then
has to do with whom is in the actions that follow. -/
def Instr.Concerns (o : Overlord) (stopTasks : List StopTask) (id : ℕ) : Instr → Prop
  | .request name _ _ => o.idOf name = some id
  | .sendTo _ id' _ _ => id' = id
  | .await id' => id' = id
  | .stopAll => ∃ name, o.idOf name = some id
  | .join => ∃ t ∈ stopTasks, t.id = id ∧ t.phase ≠ .done
  | .enable _ | .reload | .finish _ => False

end Overlord

namespace Daemon

open Runs

variable (s : Daemon)

/-- The actors' tasks. -/
def tasks : List Task := s.slots.map Slot.task

/-- The events that an actor still has to send in its turn. -/
def sending (id : ℕ) : ℕ := (s.tasks[id]?.map fun t => t.unsent.length).getD 0

/-- The events in the channel and those that actors still have to send in their turns. -/
def load : ℕ := s.events.length + (s.tasks.map fun t => t.unsent.length).sum

/-- The overlord's handler still has to do with the actor. -/
def Concerned (id : ℕ) : Prop := ∃ i ∈ s.todo, i.Concerns s.overlord s.stopTasks id

/-- Every actor that the overlord's handler has to do with has nothing left to send, or all that is
to be sent fits into the channel. -/
def Roomy : Prop := ∀ id, s.Concerned id → s.sending id = 0 ∨ s.load ≤ eventCapacity

/-- The number of events that an actor sends on an input. -/
def cost (id : ℕ) (inp : Input) : ℕ :=
  (s.tasks[id]?.map fun t => ((t.actor.script inp).filterMap Actor.sends).length).getD 0

/-- What is taken up leaves the events room: an input, with the events that it makes, and a handler
of the overlord, with the actors that it has to do with. -/
def Admissible : Label → Prop
  | .input id inp => ∀ j, s.Concerned j →
    (s.sending j = 0 ∧ (j = id → s.cost id inp = 0)) ∨ s.load + s.cost id inp ≤ eventCapacity
  | .command c => { s with todo := s.overlord.handleCmd c }.Roomy
  | .event => ∀ ev rest, s.events = ev :: rest →
    { s with
      overlord := (s.overlord.handleSvcEvent ev).1
      todo := (s.overlord.handleSvcEvent ev).2
      events := rest }.Roomy
  | .check name status => { s with todo := s.overlord.handleCheckEvent name status }.Roomy
  | .overlord (some plan) => ∀ rest, s.todo = .reload :: rest →
    { s with
      overlord := (s.overlord.reloadLayers plan s.slots.length).1
      todo := (s.overlord.reloadLayers plan s.slots.length).2.2 ++ rest }.Roomy
  | _ => True

/-- The overlord is waiting for the actor: for its answer, or for room in its mailbox. -/
def WaitsFor (id : ℕ) (slot : Slot) : Prop :=
  match s.todo with
  | .sendTo _ id' c _ :: _ => id' = id ∧ slot.push c = none
  | .await id' :: _ => id' = id ∧ slot.takeAnswer = none
  | .join :: _ => ∃ t ∈ s.stopTasks, t.id = id ∧
    match t.phase with
    | .stop => slot.push .stop = none
    | .await => slot.takeAnswer = none
    | .shutdown => slot.push .shutdown = none
    | .done => False
  | _ => False

/-- The overlord is waiting for an actor that is waiting for room in the full event channel. -/
def Deadlocked : Prop :=
  ∃ id slot, s.slots[id]? = some slot ∧ s.WaitsFor id slot ∧ slot.task.outbox.isSome ∧
    eventCapacity ≤ s.events.length

variable {s} {s' : Daemon} {l : Label}

/-- The overlord's handler has to do with whom it waits for. -/
theorem WaitsFor.concerned {id : ℕ} {slot : Slot} (h : s.WaitsFor id slot) : s.Concerned id := by
  unfold WaitsFor at h
  unfold Concerned
  split at h
  · next htodo => rw [htodo]; exact ⟨_, List.mem_cons_self, h.1⟩
  · next htodo => rw [htodo]; exact ⟨_, List.mem_cons_self, h.1⟩
  · next htodo =>
    rw [htodo]
    obtain ⟨t, ht, hid, hph⟩ := h
    exact ⟨_, List.mem_cons_self, t, ht, hid, fun hd => by rw [hd] at hph; exact hph⟩
  · exact h.elim

/-- The task of an actor is at the actor's place. -/
theorem tasks_getElem? {id : ℕ} {slot : Slot} (hs : s.slots[id]? = some slot) :
    s.tasks[id]? = some slot.task := by
  rw [tasks, List.getElem?_map, hs]; rfl

/-- Where there is room, there is no deadlock. -/
theorem Roomy.not_deadlocked (h : s.Roomy) : ¬s.Deadlocked := by
  rintro ⟨id, slot, hs, hw, ho, hf⟩
  obtain ⟨k, hk⟩ := Option.isSome_iff_exists.mp ho
  have hpos : 0 < slot.task.unsent.length := by simp [Task.unsent, hk]
  have hle : slot.task.unsent.length ≤ (s.tasks.map fun t => t.unsent.length).sum :=
    List.le_sum_of_mem (List.mem_map_of_mem (f := fun t : Task => t.unsent.length)
      (List.mem_of_getElem? (tasks_getElem? hs)))
  rcases h id hw.concerned with h | h
  · rw [sending, tasks_getElem? hs, Option.map_some, Option.getD_some] at h
    omega
  · rw [load] at h
    omega

/-- Room is kept where the handler has to do with no more actors, and they and all together have no
more to send. -/
theorem Roomy.mono (h : s.Roomy) (hc : ∀ id, s'.Concerned id → s.Concerned id)
    (hs : ∀ id, s'.sending id ≤ s.sending id) (hl : s'.load ≤ s.load) : s'.Roomy := by
  intro id hid
  rcases h id (hc id hid) with h | h
  · exact .inl (Nat.le_zero.mp (h ▸ hs id))
  · exact .inr (hl.trans h)

/-- Room is kept where the tasks and the channel are as before. -/
theorem Roomy.of_tasks (h : s.Roomy) (hc : ∀ id, s'.Concerned id → s.Concerned id)
    (ht : s'.tasks = s.tasks) (he : s'.events = s.events) : s'.Roomy :=
  h.mono hc (fun _ => by rw [sending, sending, ht]) (by rw [load, load, ht, he])

/-- A change of a slot is one of its actor's task. -/
theorem tasks_setSlot (id : ℕ) (slot : Slot) :
    (s.setSlot id slot).tasks = s.tasks.set id slot.task := List.map_set

/-- A slot's change that leaves its task leaves the tasks. -/
theorem tasks_setSlot_of_task {id : ℕ} {slot slot' : Slot} (hs : s.slots[id]? = some slot)
    (ht : slot'.task = slot.task) : (s.setSlot id slot').tasks = s.tasks := by
  rw [tasks_setSlot, ht]
  obtain ⟨hlt, heq⟩ := List.getElem?_eq_some_iff.mp (tasks_getElem? hs)
  rw [← heq, List.set_getElem_self]

/-- After a change of one task, its actor has to send what the task has, and the others what they
had. -/
theorem sending_of_set {id : ℕ} {t t' : Task} (hs : s.tasks[id]? = some t)
    (ht : s'.tasks = s.tasks.set id t') (j : ℕ) :
    s'.sending j = if j = id then t'.unsent.length else s.sending j := by
  have hlt := (List.getElem?_eq_some_iff.mp hs).1
  rw [sending, sending, ht, List.getElem?_set]
  split_ifs with h₁ h₂ h₃ <;> first | rfl | simp_all

/-- The sum over the tasks after a task's change. -/
theorem sum_of_set {id : ℕ} {t t' : Task} (hs : s.tasks[id]? = some t)
    (ht : s'.tasks = s.tasks.set id t') :
    (s'.tasks.map fun t => t.unsent.length).sum + t.unsent.length =
      (s.tasks.map fun t => t.unsent.length).sum + t'.unsent.length := by
  rw [ht]
  exact sum_map_set _ _ _ _ hs

/-- The overlord's next action leaves the rest of its handler with no more actors to do with. -/
theorem concerned_overlordStep {load : Option Plan} {i : Overlord.Instr}
    {rest : List Overlord.Instr}
    (htodo : s.todo = i :: rest) (h : OverlordStep s load i rest s')
    (hr : ∀ plan, load = some plan → i ≠ .reload) {id : ℕ} (hid : s'.Concerned id) :
    s.Concerned id := by
  obtain ⟨j, hj, hc⟩ := hid
  rw [Concerned, htodo]
  -- An action of the rest, with the same services and tasks of `stop_all`.
  cases h with
  | unknown hn => exact ⟨j, List.mem_cons_of_mem _ hj, hc⟩
  | @request name c why rest e he =>
    have hid : s.overlord.idOf name = some e.id := Overlord.idOf_eq_some_iff.mpr ⟨e, he, rfl⟩
    rcases List.mem_cons.mp hj with rfl | hj
    · exact ⟨_, List.mem_cons_self, hid.trans (congrArg some hc)⟩
    · rcases List.mem_cons.mp hj with rfl | hj
      · exact ⟨_, List.mem_cons_self, hid.trans (congrArg some hc)⟩
      · exact ⟨j, List.mem_cons_of_mem _ hj, hc⟩
  | sendTo hs hp => exact ⟨j, List.mem_cons_of_mem _ hj, hc⟩
  | await hs ha => exact ⟨j, List.mem_cons_of_mem _ hj, hc⟩
  | enable => exact ⟨j, List.mem_cons_of_mem _ hj, hc⟩
  | reloadFailed hl => exact ⟨j, List.mem_cons_of_mem _ hj, hc⟩
  | reload hl => exact (hr _ hl rfl).elim
  | stopAll =>
    cases j with
    | join =>
      obtain ⟨t, ht, rfl, -⟩ := hc
      obtain ⟨e, he, rfl⟩ := List.mem_map.mp ht
      exact ⟨_, List.mem_cons_self, e.1,
        Overlord.idOf_eq_some_iff.mpr ⟨e.2, IndexMap.get?_eq_some_iff.mpr he, rfl⟩⟩
    | _ => exact ⟨_, List.mem_cons_of_mem _ hj, hc⟩
  | join hd => exact ⟨j, List.mem_cons_of_mem _ hj, hc⟩
  | finish => cases hj

/-- A task of `stop_all` does not come back from being done. -/
theorem concerned_stopTask {i : ℕ} {t : StopTask} {slot slot' : Slot} {phase : StopPhase}
    (hi : s.stopTasks[i]? = some t) (hp : StopStep slot t.phase slot' phase) {id : ℕ}
    (hid : Concerned { s with stopTasks := s.stopTasks.set i { t with phase } } id) :
    s.Concerned id := by
  have hnot : t.phase ≠ .done := fun hd => by rw [hd] at hp; cases hp
  obtain ⟨j, hj, hc⟩ := hid
  cases j with
  | join =>
    refine ⟨_, hj, ?_⟩
    obtain ⟨u, hu, rfl, hph⟩ := hc
    rcases List.mem_or_eq_of_mem_set hu with hu | rfl
    · exact ⟨u, hu, rfl, hph⟩
    · exact ⟨t, List.mem_of_getElem? hi, rfl, hnot⟩
  | _ => exact ⟨_, hj, hc⟩

/-- Room is kept where a task has no more to send, and what it has less went into the channel. -/
theorem Roomy.of_set (H : s.Roomy) {id : ℕ} {t t' : Task} (hs : s.tasks[id]? = some t)
    (ht : s'.tasks = s.tasks.set id t') (hc : ∀ j, s'.Concerned j → s.Concerned j)
    (hle : t'.unsent.length ≤ t.unsent.length)
    (hev : s'.events.length + t'.unsent.length = s.events.length + t.unsent.length) : s'.Roomy := by
  refine H.mono hc (fun j => ?_) ?_
  · rw [sending_of_set hs ht]
    split_ifs with hj
    · rw [hj, sending, hs]; exact hle
    · exact le_rfl
  · have hsum := sum_of_set hs ht
    rw [load, load]
    omega

/-- There is room for the events after new actors have come, since these have nothing to send. -/
theorem Roomy.of_new (H : s.Roomy) (new : List (String × ServiceConfig)) {log : List Entry} :
    Roomy { s with slots := s.slots ++ new.map .new, log } := by
  have htasks : ({ s with slots := s.slots ++ new.map .new, log } : Daemon).tasks =
      s.tasks ++ new.map fun e => .new e.1 e.2 := by
    rw [tasks, tasks, List.map_append, List.map_map]; rfl
  refine H.mono (fun _ hj => hj) (fun j => ?_) ?_
  · rw [sending, sending, htasks]
    rcases lt_or_ge j s.tasks.length with hlt | hge
    · rw [List.getElem?_append_left hlt]
    · rw [List.getElem?_append_right hge, List.getElem?_map]
      cases new[j - s.tasks.length]? <;> exact Nat.zero_le _
  · have hzero : ((new.map fun e => Task.new e.1 e.2).map fun t => t.unsent.length).sum = 0 :=
      List.sum_eq_zero fun x hx => by
        obtain ⟨t, ht, rfl⟩ := List.mem_map.mp hx
        obtain ⟨e, -, rfl⟩ := List.mem_map.mp ht
        rfl
    rw [load, load, htasks, List.map_append, List.sum_append, hzero]
    exact le_rfl

/-- A step that takes something up in an admissible way, or nothing at all, keeps the room. -/
theorem Roomy.step (H : s.Roomy) (hG : s.Admissible l) (h : s.step l = some s') : s'.Roomy := by
  cases l with
  | tick d => exact Option.some.inj h ▸ H
  | exit e => obtain ⟨-, -, rfl⟩ := step_exit h; exact H
  | act id =>
    obtain ⟨slot, t, hs, -, ht, rfl⟩ := step_act h
    have hu := congrArg List.length (Task.unsent_act ht)
    exact H.of_set (tasks_getElem? hs) (tasks_setSlot id _) (fun _ hj => hj) hu.le
      (congrArg (s.events.length + ·) hu)
  | deliver id =>
    obtain ⟨slot, t, k, hs, -, -, ht, rfl⟩ := step_deliver h
    obtain ⟨k, -, hu⟩ := Task.unsent_deliver ht
    refine H.of_set (tasks_getElem? hs) (tasks_setSlot id { slot with task := t })
      (fun _ hj => hj) ?_ ?_
    · rw [hu]; exact Nat.le_succ _
    · rw [hu]; simp only [List.length_append, List.length_cons, List.length_nil]; omega
  | input id inp =>
    obtain ⟨slot, t, hs, -, ht, rfl⟩ := step_input h
    obtain ⟨hi, -, ht'⟩ := Task.take_eq_some_iff.mp ht
    have hts := tasks_setSlot (s := s) id { slot with task := t, mailbox := slot.nextMailbox inp }
    have hcost : s.cost id inp = t.unsent.length := by
      rw [cost, tasks_getElem? hs, Task.unsent_take ht, Task.settled_of_idle hi]; rfl
    have hsum := sum_of_set (tasks_getElem? hs) hts
    rw [Task.unsent_of_idle hi] at hsum
    intro j hj
    rw [sending_of_set (tasks_getElem? hs) hts]
    rcases hG j hj with ⟨hz, hid⟩ | hle
    · left
      split_ifs with hjd
      · exact hcost.symm.trans (hid hjd)
      · exact hz
    · right
      rw [load] at hle ⊢
      rw [hcost] at hle
      simp only [List.length_nil] at hsum
      change s.events.length + _ ≤ _
      omega
  | command c => obtain ⟨-, rfl⟩ := step_command h; exact hG
  | event => obtain ⟨-, ev, rest, he, rfl⟩ := step_event h; exact hG ev rest he
  | check name status => obtain ⟨-, rfl⟩ := step_check h; exact hG
  | stopTask i =>
    obtain ⟨t, slot, slot', phase, hi, hs, hp, rfl⟩ := step_stopTask h
    exact H.of_tasks (fun _ => concerned_stopTask hi hp) (tasks_setSlot_of_task hs hp.task) rfl
  | overlord load =>
    obtain ⟨i, rest, htodo, hstep⟩ := step_overlord h
    by_cases hr : ∃ plan, load = some plan ∧ i = .reload
    · obtain ⟨plan, rfl, rfl⟩ := hr
      cases hstep with
      | reloadFailed hl => cases hl
      | reload hl =>
        obtain rfl := Option.some.inj hl
        exact (hG rest htodo).of_new _
    · have hc : ∀ id, s'.Concerned id → s.Concerned id := fun id =>
        concerned_overlordStep htodo hstep fun plan hl hi => hr ⟨plan, hl, hi⟩
      cases hstep with
      | sendTo hs hp => exact H.of_tasks hc (tasks_setSlot_of_task hs (Slot.task_push hp)) rfl
      | await hs ha => exact H.of_tasks hc (tasks_setSlot_of_task hs (Slot.task_takeAnswer ha)) rfl
      | reload hl => exact (hr ⟨_, hl, rfl⟩).elim
      | _ => exact H.of_tasks hc rfl rfl

/-- At the start, nobody has anything to send. -/
theorem roomy_init (plan : Plan) : (init plan).Roomy := by
  intro id _
  left
  rw [sending]
  cases h : (init plan).tasks[id]? with
  | none => rfl
  | some t =>
    obtain ⟨slot, hslot, rfl⟩ := List.mem_map.mp (List.mem_of_getElem? h)
    obtain ⟨e, -, rfl⟩ := List.mem_map.mp hslot
    rfl

/-- In every run that takes up handlers and inputs in an admissible way, the overlord never waits
for an actor that waits for room in the event channel. -/
theorem not_deadlocked_of_reaches {plan : Plan} (h : Reaches step Admissible (init plan) s) :
    ¬s.Deadlocked :=
  (h.invariant (P := Roomy) (roomy_init plan) fun _ _ _ _ H hG hl => H.step hG hl).not_deadlocked

/-- All the events that there are, with those that an input makes, fit into the channel. -/
def Ample (s : Daemon) : Label → Prop
  | .input id inp => s.load + s.cost id inp ≤ eventCapacity
  | _ => s.load ≤ eventCapacity

instance (s : Daemon) (l : Label) : Decidable (s.Ample l) := by
  unfold Ample
  split <;> infer_instance

/-- Where the events have ample room, what is taken up leaves them room. -/
theorem Ample.admissible (h : s.Ample l) : s.Admissible l := by
  cases l with
  | input id inp => exact fun _ _ => .inr h
  | command c => exact fun _ _ => .inr h
  | check name status => exact fun _ _ => .inr h
  | event =>
    refine fun ev rest he _ _ => .inr (le_trans ?_ h)
    rw [load, load, he, List.length_cons]
    exact Nat.add_le_add_right (Nat.le_succ _) _
  | overlord plan =>
    cases plan with
    | none => trivial
    | some plan => exact fun _ _ _ _ => .inr h
  | _ => trivial

/-- One service is started with the daemon. Its actor waits to send its first event while the
overlord waits for its answer, and the channel is not full. -/
theorem not_deadlocked_in_boot :
    ∃ s slot, Reaches step Admissible
        (init (webPlan { command := some "/bin/web", startup := .enabled })) s ∧
      s.slots[0]? = some slot ∧ s.todo = [.await 0] ∧ slot.task.outbox.isSome = true ∧
      ¬s.Deadlocked := by
  have h : (runIf step Ample
      (init (webPlan { command := some "/bin/web", startup := .enabled }))
      [.overlord none, .overlord none, .input 0 (.cmd .start true), .act 0]).any (fun s : Daemon =>
      decide (s.todo = [.await 0]) && s.slots[0]?.any fun slot : Slot => slot.task.outbox.isSome) =
      true := by
    decide +kernel
  obtain ⟨s, hr, h⟩ := Reaches.exists_of_runIf _ h
  simp only [Bool.and_eq_true, decide_eq_true_eq, Option.any_eq_true] at h
  obtain ⟨htodo, slot, hs, ho⟩ := h
  have hr := hr.mono fun _ _ => Ample.admissible
  exact ⟨s, slot, hr, hs, htodo, ho, not_deadlocked_of_reaches hr⟩

/-! ## A deadlock -/

/-- A service with a command whose actor has just been spawned. -/
def Fresh (s : Daemon) (name : String) : Prop :=
  ∃ id config, s.overlord.idOf name = some id ∧ s.slots[id]? = some (.new (name, config)) ∧
    config.command.isSome = true

/-- The first start of a new actor whose spawn succeeds. -/
theorem handleStart_new (name : String) {config : ServiceConfig}
    (h : config.command.isSome = true) :
    (Actor.new name config).handleStart true =
      [.transition .starting false, .enter, .spawn, .transition .active false, .resetBackoff,
        .disarmStop, .reply true] := by
  have hcan : (Actor.new name config).canSpawn true = true := by
    rw [Actor.canSpawn, Bool.and_true]; exact h
  have hstate : (Actor.new name config).state = .inactive := rfl
  simp only [Actor.handleStart, Actor.doStart, hcan, hstate, ServiceState.isRunning,
    Bool.false_eq_true, if_false, if_true, reduceCtorEq]

/-- A slot's change leaves the other services fresh. -/
theorem Fresh.mono {name name' : String} {id : ℕ} {slot : Slot} (h : s.Fresh name')
    (hne : name' ≠ name) (hs : s.slots[id]? = some slot) (hname : slot.task.actor.name = name)
    {slot' : Slot} (ho : s'.overlord = s.overlord) (hslots : s'.slots = s.slots.set id slot') :
    s'.Fresh name' := by
  obtain ⟨id', config, hid', hs', hcmd⟩ := h
  refine ⟨id', config, ho ▸ hid', ?_, hcmd⟩
  rw [hslots, List.getElem?_set_ne]
  · exact hs'
  · rintro rfl
    rw [hs'] at hs
    obtain rfl := Option.some.inj hs
    exact hne hname

/-- The overlord starts new services one after the other and takes no event meanwhile. Every start
that succeeds sends two events. When the channel is full, the next actor waits for room, and the
overlord waits for its answer. -/
theorem exists_deadlocked_of_starts {names : List String} {m : ℕ}
    (htodo : s.todo = names.map Overlord.startRequest) (hfresh : ∀ name ∈ names, s.Fresh name)
    (hnd : names.Nodup) (hm : m < names.length)
    (hev : s.events.length + 2 * m = eventCapacity) :
    ∃ s', Reaches step Biased s s' ∧ s'.Deadlocked := by
  induction names generalizing s m with
  | nil => cases hm
  | cons name names ih =>
    obtain ⟨id, config, hid, hs, hcmd⟩ := hfresh name List.mem_cons_self
    have hr := reaches_asked true htodo hid hs rfl rfl
    have hs₁ := getElem?_asked name .start .autostart true (names.map Overlord.startRequest) hs
    have hscript : (Slot.new (name, config)).task.actor.script (.cmd .start true) = _ :=
      handleStart_new name hcmd
    rw [hscript] at hs₁
    generalize hs₁' : s.asked name id (.new (name, config)) .start .autostart true
      (names.map Overlord.startRequest) = s₁ at hr hs₁
    have hev₁ : s₁.events = s.events := by rw [← hs₁']; rfl
    have htodo₁ : s₁.todo = .await id :: names.map Overlord.startRequest := by rw [← hs₁']; rfl
    cases m with
    | zero =>
      -- The channel is full, and the first of the two events waits in the outbox.
      obtain ⟨t', hact, -, hend, hr'⟩ := exists_action hs₁ rfl rfl rfl
      obtain ⟨-, i, rest, ht, -, rfl⟩ := Task.act_eq_some_iff.mp hact
      obtain ⟨rfl, rfl⟩ := List.cons.inj ht
      refine ⟨_, hr.trans hr', id, _, getElem?_sent hs₁ _ _, ?_, rfl, ?_⟩
      · simp only [WaitsFor, sent, setSlot, htodo₁]
        exact ⟨trivial, rfl⟩
      · simp only [sent, hev₁, List.append_nil]
        omega
    | succ m =>
      obtain ⟨slot', evs, hr', hevs, -, -, -, hanswer⟩ :=
        exists_turn hs₁ rfl rfl (by rw [hev₁]; exact show s.events.length + 2 ≤ _ by omega)
      have htake : slot'.takeAnswer = some { slot' with answer := none } := by
        rw [Slot.takeAnswer, hanswer]; rfl
      -- The answer is received, and the next service is started.
      obtain ⟨s₂, hs₂⟩ : ∃ s₂,
          s₂ = { (s₁.sent id slot' evs).setSlot id { slot' with answer := none }
          with todo := names.map Overlord.startRequest } := ⟨_, rfl⟩
      have hr'' : Reaches step Biased (s₁.sent id slot' evs) s₂ := by
        refine .single (l := .overlord none) trivial ?_
        have htodo₁' : (s₁.sent id slot' evs).todo = s₁.todo := rfl
        simp only [step, overlordStep, htodo₁', htodo₁, getElem?_sent hs₁, Option.bind_some, htake,
          Option.map_some, hs₂]
      obtain ⟨hname, hnd⟩ := List.nodup_cons.mp hnd
      have hslots₂ : s₂.slots = s.slots.set id { slot' with answer := none } := by
        simp only [hs₂, setSlot, sent, ← hs₁', asked, List.set_set]
      have hfresh₂ : ∀ name' ∈ names, s₂.Fresh name' := fun name' h' => by
        have hne : name' ≠ name := fun h => hname (h ▸ h')
        refine (hfresh name' (List.mem_cons_of_mem _ h')).mono hne hs rfl ?_ hslots₂
        simp only [hs₂, setSlot, sent, ← hs₁', asked]
      have hlen : evs.length = 2 := hevs
      have hev₂ : s₂.events.length = s.events.length + 2 := by
        simp only [hs₂, setSlot, sent, hev₁, List.length_append, hlen]
      obtain ⟨s', hrest, hdead⟩ := ih (by rw [hs₂]) hfresh₂ hnd (Nat.lt_of_succ_lt_succ hm)
        (by omega)
      exact ⟨s', hr.trans (hr'.trans (hr''.trans hrest)), hdead⟩

/-- Without dependencies, every service is ready to be started. -/
theorem afterDepsRunning_of_free {o : Overlord} (h : ∀ e ∈ o.plan.services.entries,
    e.2.after = [] ∧ e.2.before = [] ∧ e.2.requires = []) (name : String) :
    o.afterDepsRunning name = true := by
  have hbefores : o.befores name = [] := by
    rw [Overlord.befores, List.filter_eq_nil_iff.mpr, List.map_nil]
    intro e he
    rw [(h e he).2.1]
    simp
  unfold Overlord.afterDepsRunning
  split
  · rfl
  · next config hc =>
    obtain ⟨ha, -, hq⟩ := h _ (IndexMap.get?_eq_some_iff.mp hc)
    rw [Overlord.deps, ha, hq, hbefores]
    rfl

/-- A daemon with more than half as many services to start with it as the event channel has room
for, which all have a command and no dependencies, can lock up while it starts them. -/
theorem exists_deadlocked_of_boot {plan : Plan} (hfree : ∀ e ∈ plan.services.entries,
      e.2.after = [] ∧ e.2.before = [] ∧ e.2.requires = [])
    (hcmd : ∀ e ∈ plan.services.entries, e.2.command.isSome = true)
    (hlen : eventCapacity < 2 * ({ plan } : Overlord).enabledNames.length) :
    ∃ s, Reaches step Biased (init plan) s ∧ s.Deadlocked := by
  have hsub : ({ plan } : Overlord).enabledNames.Sublist plan.services.keys :=
    List.filter_sublist.map _
  have htodo : (init plan).todo = ({ plan } : Overlord).enabledNames.map Overlord.startRequest := by
    change List.map _ (List.filter _ _) = _
    rw [List.filter_eq_self.mpr fun name _ => afterDepsRunning_of_free hfree name]
    rfl
  refine exists_deadlocked_of_starts (m := 128) htodo (fun name h => ?_)
    (plan.services.nodup_keys.sublist hsub) ?_ rfl
  · obtain ⟨id, hid⟩ := Option.isSome_iff_exists.mp
      (((wired_of_reaches (.refl : Reaches step Always (init plan) _)).keys name).mpr
        (hsub.subset h))
    obtain ⟨e, he, rfl⟩ := Overlord.idOf_eq_some_iff.mp hid
    obtain ⟨config, hc, hs, -⟩ := get?_init he
    exact ⟨e.id, config, hid, hs, hcmd _ (IndexMap.get?_eq_some_iff.mp hc)⟩
  · rw [eventCapacity] at hlen
    omega

/-- A plan with `n` services that are started with the daemon. -/
def manyPlan (n : ℕ) : Plan where
  services := ⟨(List.range n).map fun i =>
      (String.ofList (List.replicate (i + 1) 'a'),
        { command := some "/bin/a", startup := .enabled }), by
    rw [List.map_map]
    refine List.nodup_range.map fun i j h => ?_
    have := congrArg List.length (String.ofList_injective h)
    simpa using this⟩

/-- With 129 services that are started with it, the daemon can lock up. -/
theorem exists_deadlocked : ∃ s, Reaches step Biased (init (manyPlan 129)) s ∧ s.Deadlocked := by
  have hall : ∀ e ∈ (manyPlan 129).services.entries,
      ∃ name, e = (name, { command := some "/bin/a", startup := .enabled }) := by
    intro e he
    obtain ⟨i, -, rfl⟩ := List.mem_map.mp he
    exact ⟨_, rfl⟩
  refine exists_deadlocked_of_boot (fun e he => ?_) (fun e he => ?_) ?_
  · obtain ⟨name, rfl⟩ := hall e he
    exact ⟨rfl, rfl, rfl⟩
  · obtain ⟨name, rfl⟩ := hall e he
    rfl
  · rw [Overlord.enabledNames, List.length_map, List.filter_eq_self.mpr]
    · simp [manyPlan, eventCapacity]
    · intro e he
      obtain ⟨name, rfl⟩ := hall e he
      rfl

end Daemon

end Vigil
