import Vigil.Service.Stop
import Vigil.Overlord.Answers
import Vigil.Overlord.Reports

/-!
# An operator's stop

What becomes of a service that an operator has stopped, as long as nobody asks for it again: no
operator's start, restart, or autostart that names it is taken, and no reload is done (`Unbidden`).
Two of the daemon's own actions may bring it back. A failed check restarts the services whose
`on-check-failure` says so, and `handle_restart` of a service that does not run is `handle_start`.
And a start that `autostart` has deferred is sent when the dependencies run, also if the service has
been stopped in between.

In the runs without these (`Unprovoked`), after a stop that lasts in the sense of `Actor.StopLasts`,
the service's actor spawns nothing, and neither do the actors that the service had before, if they
are about to return (`Daemon.unspawned_after_stop`). The invariant has two parts: the overlord's
handler and the mailboxes hold no start of the service (`Unasked`), and each actor of the service is
quiet or about to return (`Slot.Dormant`).
-/

namespace Vigil

open Actor (Input)

/-- A command that may start a process. -/
def Cmd.isStart : Cmd → Bool
  | .start | .restart => true
  | _ => false

/-- A start in a mailbox is answered. -/
theorem Cmd.isAnswered_of_isStart {c : Cmd} (h : c.isStart = true) : c.isAnswered = true := by
  cases c with
  | start | restart => rfl
  | _ => cases h

/-! ## One actor -/

/-- A task that is about to return spawns nothing more. -/
theorem Loop.spawned_of_leaving {name : String} {config : ServiceConfig} {now : ℕ} {s : Loop}
    (h : Runs.Reaches step Runs.Always (init name config now) s) :
    s.task.leaving = true → s.task.settled.spawned = s.task.actor.spawned := by
  refine h.invariant (P := fun s => s.task.leaving = true →
    s.task.settled.spawned = s.task.actor.spawned) nofun ?_
  intro s l s' _ H _ hl
  rcases step_cases hl with ⟨d, rfl, rfl⟩ | ⟨t, rfl, ht, rfl⟩ | ⟨t, rfl, ht, rfl⟩ |
    ⟨inp, t, rfl, ht, rfl⟩
  · exact H
  · -- What has been spawned is between what was and what the actor settles to.
    intro hleav
    rw [Task.leaving_act ht] at hleav
    have hle := t.actor.spawned_le_execAll t.todo
    have hset : (t.actor.execAll t.todo).spawned = s.task.settled.spawned :=
      congrArg Actor.spawned (Task.settled_act ht)
    obtain ⟨-, i, rest, -, -, rfl⟩ := Task.act_eq_some_iff.mp ht
    have hexec := s.task.actor.spawned_le_exec i
    have := H hleav
    rw [Task.settled_act ht]
    simp only [Task.perform] at hle hset ⊢
    omega
  · rw [Task.leaving_deliver ht, Task.settled_deliver ht]
    obtain ⟨k, -, rfl⟩ := Task.deliver_eq_some_iff.mp ht
    exact H
  · obtain ⟨hi, -, ht'⟩ := Task.take_eq_some_iff.mp ht
    intro hleav
    obtain ⟨ok, rfl⟩ := Task.eq_shutdown_of_leaving ht hleav
    have hact : t.actor = s.task.actor := by rw [ht']
    rw [Task.settled_take ht, hact, Task.settled_of_idle hi]
    simp only [Actor.script, Actor.execAll_cleanup]

namespace Slot

variable {slot slot' : Slot}

/-- The actor has spawned `n` processes, and spawns no more unless it is asked to. -/
structure Dormant (n : ℕ) (slot : Slot) : Prop where
  spawned : n ≤ slot.task.actor.spawned
  settled : slot.task.settled.spawned = n
  quiet : slot.task.leaving = true ∨ slot.task.settled.Quiet

/-- A dormant actor has spawned no more. -/
theorem Dormant.eq {n : ℕ} (h : slot.Dormant n) : slot.task.actor.spawned = n := by
  have hle := slot.task.actor.spawned_le_execAll slot.task.todo
  have hset : (slot.task.actor.execAll slot.task.todo).spawned = n := h.settled
  have := h.spawned
  omega

end Slot

namespace Overlord

/-- The services that a command on services is for. -/
def targets (o : Overlord) (names : List String) : List String :=
  if names.isEmpty then o.plan.services.keys else names

/-- A stop that an operator has asked for. -/
def Instr.isOperatorStop : Instr → Bool
  | .request _ .stop .operator | .sendTo _ _ .stop .operator => true
  | _ => false

/-- Requests for stops that an operator has asked for. -/
def Stops (todo : List Instr) : Prop := ∀ i ∈ todo, ∃ n, i = .request n .stop .operator

/-- A shutdown is no operator's stop. -/
theorem isOperatorStop_shutdown (code : Option ℤ) :
    ∀ i ∈ shutdown code, i.isOperatorStop = false := by
  exact forall_mem_shutdown.mpr ⟨rfl, rfl, rfl⟩

/-- A command that is no stop asks for no stop. -/
theorem isOperatorStop_handleCmd {o : Overlord} {c : Cmd}
    (hc : ∀ names, c ≠ .services .stop names) :
    ∀ i ∈ o.handleCmd c, i.isOperatorStop = false := by
  intro i hi
  cases c with
  | services action names =>
    obtain ⟨n, -, hi⟩ := List.mem_flatMap.mp hi
    cases action with
    | stop => exact (hc names rfl).elim
    | start | restart | replan => exact List.mem_singleton.mp hi ▸ rfl
    | autostart =>
      simp only [serviceAction, List.mem_cons, List.not_mem_nil, or_false] at hi
      rcases hi with rfl | rfl <;> rfl
  | reloadLayers => exact List.mem_singleton.mp hi ▸ rfl
  | forwardSignal signal =>
    obtain ⟨e, -, rfl⟩ := List.mem_map.mp hi
    rfl
  | shutdown => exact isOperatorStop_shutdown _ i hi
  | query => exact absurd hi List.not_mem_nil

/-- What comes after an action that is not the sending of a command does not begin with a wait. -/
theorem Handling.head?_tail {i : Instr} {rest : List Instr} (h : Handling (i :: rest))
    (hi : ∀ n id c why, i ≠ .sendTo n id c why) (id : ℕ) : rest.head? ≠ some (.await id) := by
  cases h with
  | handler h =>
    cases h with
    | call hc h => exact h.head? id
    | shutdown code => nofun
  | asking hc h => exact (hi _ _ _ _ rfl).elim
  | waiting h => exact h.head? id
  | joining code => nofun
  | finishing code => nofun

end Overlord

namespace Daemon

open Runs Overlord

variable {s s' : Daemon} {l : Label} {name : String}

/-- A dormant actor that is not asked to start stays dormant. -/
theorem SlotStep.dormant {id n : ℕ} {slot slot' : Slot} (hstep : SlotStep s l id slot slot')
    (hbox : slot.task.ended = false → ∀ c ∈ slot.mailbox, c.isStart = false)
    (h : slot.Dormant n) : slot'.Dormant n := by
  have same : slot'.task = slot.task → slot'.Dormant n := fun ht =>
    ⟨ht ▸ h.spawned, ht ▸ h.settled, ht ▸ h.quiet⟩
  cases hstep with
  | act hl hc ht =>
    obtain ⟨-, i, rest, -, -, rfl⟩ := Task.act_eq_some_iff.mp ht
    refine ⟨h.spawned.trans (slot.task.actor.spawned_le_exec i), ?_, ?_⟩
    · rw [Task.settled_act ht]; exact h.settled
    · rw [Task.leaving_act ht, Task.settled_act ht]; exact h.quiet
  | deliver hl ht =>
    refine ⟨?_, ?_, ?_⟩
    · obtain ⟨k, -, rfl⟩ := Task.deliver_eq_some_iff.mp ht; exact h.spawned
    · rw [Task.settled_deliver ht]; exact h.settled
    · rw [Task.leaving_deliver ht, Task.settled_deliver ht]; exact h.quiet
  | @input t inp hl hm ht =>
    obtain ⟨hi, hr, ht'⟩ := Task.take_eq_some_iff.mp ht
    have hleav := Task.leaving_of_idle hi
    have hq : slot.task.settled.Quiet := h.quiet.resolve_left (by rw [hleav]; simp)
    have hact : t.actor = slot.task.actor := by rw [ht']
    have hset := Task.settled_take ht
    by_cases hs : ∃ ok, inp = .cmd .shutdown ok
    · -- The shutdown spawns nothing, and the task is about to return.
      obtain ⟨ok, rfl⟩ := hs
      refine ⟨hact ▸ h.spawned, ?_, .inl ?_⟩
      · rw [hset, Actor.script, Actor.execAll_cleanup]; exact h.settled
      · rw [Task.leaving_take ht, Actor.script]; exact Actor.finish_mem_cleanup _
    · have hstart : inp.isStart = false := by
        cases inp with
        | cmd c ok =>
          have hmem : c ∈ slot.mailbox := List.mem_of_head? (of_decide_eq_true hm)
          have hc := hbox (Task.ended_of_leaving hleav) c hmem
          cases c with
          | start | restart => cases hc
          | _ => rfl
        | _ => rfl
      obtain ⟨hq', hsp⟩ := hq.script hstart (fun ok h => hs ⟨ok, h⟩)
        (by rintro success ok rfl; rw [Task.settled_of_idle hi]; exact hr)
        (by rintro ok rfl; rw [Task.settled_of_idle hi]; exact (Bool.and_eq_true_iff.mp hr).1)
      refine ⟨hact ▸ h.spawned, ?_, .inr ?_⟩
      · rw [hset, hsp]; exact h.settled
      · rw [hset]; exact hq'
  | same => exact h
  | sent hl htodo hp => exact same (Slot.task_push hp)
  | answered hl htodo ha => exact same (Slot.task_takeAnswer ha)
  | stopTask hl hi hid hp => exact same hp.task

/-! ## Nobody asks -/

/-- No operator's start, restart, or autostart that names the service is taken, and no reload is
done. -/
def Unbidden (name : String) (s : Daemon) : Label → Prop
  | .command (.services action names) =>
    action = .start ∨ action = .restart ∨ action = .autostart → name ∉ s.overlord.targets names
  | .overlord (some _) => s.todo.head? ≠ some .reload
  | _ => True

instance (name : String) (s : Daemon) (l : Label) : Decidable (Unbidden name s l) :=
  match l with
  | .command (.services _ _) | .overlord (some _) => by unfold Unbidden; infer_instance
  | .command .reloadLayers | .command (.forwardSignal _) | .command .shutdown | .command .query
  | .tick _ | .exit _ | .act _ | .deliver _ | .input _ _ | .overlord none | .event | .check _ _
  | .stopTask _ => isTrue trivial

/-- No check is taken as down on whose failure the plan restarts the service, and no event is taken
that makes a deferred start of the service ready. -/
def Unprovoked (name : String) (s : Daemon) : Label → Prop
  | .check check .down => ∀ config ∈ s.overlord.plan.services.get? name,
    config.onCheckFailure.get? check ≠ some .restart
  | .event => ∀ ev ∈ s.events.head?, ∀ st ∈ ev.kind.state?, st.isRunning = true →
    name ∈ s.overlord.pendingAutostart → (s.overlord.noted ev st).afterDepsRunning name = false
  | _ => True

/-- An action of a handler that asks for no start of the service. -/
def Harmless (name : String) (s : Daemon) : Overlord.Instr → Prop
  | .request n c _ => c.isStart = true → n ≠ name
  | .sendTo _ id c _ => c.isStart = true →
    ∀ slot, s.slots[id]? = some slot → slot.task.actor.name ≠ name
  | _ => True

instance (name : String) (s : Daemon) (l : Label) : Decidable (Unprovoked name s l) := by
  unfold Unprovoked
  split <;> infer_instance

/-- Nobody asks for a start of the service: none is left in the overlord's handler, and none is in a
mailbox of the service's actors. -/
structure Unasked (name : String) (s : Daemon) : Prop where
  todo : ∀ i ∈ s.todo, Harmless name s i
  mailbox : ∀ (id : ℕ) (slot : Slot), s.slots[id]? = some slot → slot.task.actor.name = name →
    slot.task.ended = false → ∀ c ∈ slot.mailbox, c.isStart = false

/-- What is in a mailbox was there, or has been sent by the overlord, or is the stop or the shutdown
of a task of `stop_all`. -/
theorem SlotStep.mailbox {id : ℕ} {slot slot' : Slot} (hstep : SlotStep s l id slot slot')
    (he : slot'.task.ended = false) : slot.task.ended = false ∧ ∀ c ∈ slot'.mailbox,
      c ∈ slot.mailbox ∨ (∃ n why load rest, l = .overlord load ∧
        s.todo = .sendTo n id c why :: rest) ∨ c = .stop ∨ c = .shutdown := by
  cases hstep with
  | act hl hc ht => exact ⟨Task.ended_act ht he, fun c hm => .inl hm⟩
  | deliver hl ht =>
    obtain ⟨k, -, rfl⟩ := Task.deliver_eq_some_iff.mp ht
    exact ⟨he, fun c hm => .inl hm⟩
  | @input t inp hl hm ht =>
    obtain ⟨-, -, rfl⟩ := Task.take_eq_some_iff.mp ht
    refine ⟨he, fun c hm => .inl ?_⟩
    cases inp with
    | cmd c' ok => exact List.mem_of_mem_tail hm
    | _ => exact hm
  | same => exact ⟨he, fun c hm => .inl hm⟩
  | @sent n c' why rest load slot' hl htodo hp =>
    rw [Slot.task_push hp] at he
    refine ⟨he, fun c hm => ?_⟩
    rw [Slot.mailbox_push hp he] at hm
    rcases List.mem_append.mp hm with hm | hm
    · exact .inl hm
    · obtain rfl := List.mem_singleton.mp hm
      exact .inr (.inl ⟨n, why, load, rest, hl, htodo⟩)
  | answered hl htodo ha =>
    obtain ⟨-, rfl⟩ := Slot.takeAnswer_cases ha
    exact ⟨he, fun c hm => .inl hm⟩
  | stopTask hl hi hid hp =>
    rw [hp.task] at he
    refine ⟨he, fun c hm => ?_⟩
    rcases hp.inv with ⟨-, hp, -⟩ | ⟨-, ha, -⟩ | ⟨-, hp, -⟩
    · rw [Slot.mailbox_push hp he] at hm
      rcases List.mem_append.mp hm with hm | hm
      · exact .inl hm
      · exact .inr (.inr (.inl (List.mem_singleton.mp hm)))
    · obtain ⟨-, rfl⟩ := Slot.takeAnswer_cases ha
      exact .inl hm
    · rw [Slot.mailbox_push hp he] at hm
      rcases List.mem_append.mp hm with hm | hm
      · exact .inl hm
      · exact .inr (.inr (.inr (List.mem_singleton.mp hm)))

/-- Without a reload, every slot was there before the step. -/
theorem slotStep_of_unbidden (hG : Unbidden name s l) (h : s.step l = some s') {id : ℕ}
    {slot' : Slot}
    (hs' : s'.slots[id]? = some slot') :
    ∃ slot, s.slots[id]? = some slot ∧ SlotStep s l id slot slot' := by
  rcases slot_step h hs' with hstep | ⟨-, e, -, plan, rest, rfl, htodo, -⟩
  · exact hstep
  · exact absurd (by rw [htodo]; rfl) hG

/-- Without a reload, what asks for no start of the service goes on asking for none. -/
theorem Harmless.step (hG : Unbidden name s l) (h : s.step l = some s') {i : Overlord.Instr}
    (hi : Harmless name s i) : Harmless name s' i := by
  cases i with
  | sendTo n id c why =>
    intro hc slot' hs'
    obtain ⟨slot, hs, hstep⟩ := slotStep_of_unbidden hG h hs'
    rw [hstep.static.1]
    exact hi hc slot hs
  | _ => exact hi

/-- An unbidden command asks for no start of the service. -/
theorem harmless_handleCmd {c : Overlord.Cmd} (hG : Unbidden name s (.command c))
    {i : Overlord.Instr} (hi : i ∈ s.overlord.handleCmd c) : Harmless name s i := by
  cases c with
  | services action names =>
    obtain ⟨n, hn, hi⟩ := List.mem_flatMap.mp hi
    have hne : action = .start ∨ action = .restart ∨ action = .autostart → n ≠ name := by
      rintro ha rfl
      exact hG ha hn
    cases action with
    | start => exact List.mem_singleton.mp hi ▸ fun _ => hne (.inl rfl)
    | stop => exact List.mem_singleton.mp hi ▸ (by rintro ⟨⟩)
    | restart => exact List.mem_singleton.mp hi ▸ fun _ => hne (.inr (.inl rfl))
    | autostart =>
      simp only [serviceAction, List.mem_cons, List.not_mem_nil, or_false] at hi
      rcases hi with rfl | rfl
      · trivial
      · exact fun _ => hne (.inr (.inr rfl))
    | replan => exact List.mem_singleton.mp hi ▸ trivial
  | reloadLayers => exact List.mem_singleton.mp hi ▸ trivial
  | forwardSignal signal =>
    obtain ⟨e, -, rfl⟩ := List.mem_map.mp hi
    rintro ⟨⟩
  | shutdown => exact forall_mem_shutdown.mpr ⟨trivial, trivial, trivial⟩ i hi
  | query => exact absurd hi List.not_mem_nil

/-- An unprovoked check event asks for no start of the service. -/
theorem harmless_handleCheckEvent {check : String} {status : CheckStatus}
    (hG : Unprovoked name s (.check check status)) {i : Overlord.Instr}
    (hi : i ∈ s.overlord.handleCheckEvent check status) : Harmless name s i := by
  have hend : ∀ code, i ∈ Overlord.shutdown code → Harmless name s i := fun code =>
    forall_mem_shutdown.mpr ⟨trivial, trivial, trivial⟩ i
  have hacts : ∀ es : List (String × OnExit), (name, .restart) ∉ es →
      i ∈ checkActions check es → Harmless name s i := by
    intro es
    induction es with
    | nil => exact fun _ hi => absurd hi List.not_mem_nil
    | cons e es ih =>
      obtain ⟨n, action⟩ := e
      intro hne hi
      have hne' : (name, .restart) ∉ es := fun hm => hne (List.mem_cons_of_mem _ hm)
      cases action with
      | restart =>
        rcases List.mem_cons.mp hi with rfl | hi
        · rintro - rfl
          exact hne List.mem_cons_self
        · exact ih hne' hi
      | ignore => exact ih hne' hi
      | shutdown | successShutdown | failureShutdown => exact hend _ hi
  unfold handleCheckEvent at hi
  split_ifs at hi with hs
  · subst hs
    refine hacts _ (fun hm => ?_) hi
    obtain ⟨e, he, heq⟩ := List.mem_filterMap.mp hm
    obtain ⟨a, ha, heq⟩ := Option.map_eq_some_iff.mp heq
    obtain ⟨rfl, rfl⟩ := Prod.mk.inj heq
    exact hG e.2 (IndexMap.get?_eq_some_iff.mpr he) ha
  · exact absurd hi List.not_mem_nil

/-- An unprovoked event asks for no start of the service. -/
theorem harmless_handleSvcEvent {ev : Event} {rest : List Event} (hev : s.events = ev :: rest)
    (hG : Unprovoked name s .event) {i : Overlord.Instr}
    (hi : i ∈ (s.overlord.handleSvcEvent ev).2) : Harmless name s i := by
  have hstep := s.overlord.eventStep ev
  generalize (s.overlord.handleSvcEvent ev).1 = o', (s.overlord.handleSvcEvent ev).2 = is
    at hstep hi
  cases hstep with
  | @started st hk hr =>
    obtain ⟨n, hn, rfl⟩ := List.mem_map.mp hi
    obtain ⟨hpending, hready⟩ := List.mem_filter.mp hn
    rintro - rfl
    -- A service that is started here has been pending, and is ready.
    have := hG ev (by rw [hev]; rfl) st (by rw [hk]; rfl) hr hpending
    rw [hready] at this
    cases this
  | stopped hk hs =>
    obtain ⟨n, -, rfl⟩ := List.mem_map.mp hi
    exact nofun
  | passed | exited => exact absurd hi List.not_mem_nil
  | shutdown hk => exact forall_mem_shutdown.mpr ⟨trivial, trivial, trivial⟩ i hi

/-- The runs in which nobody asks for a start of the service. -/
def LeftAlone (name : String) (s : Daemon) (l : Label) : Prop :=
  Unbidden name s l ∧ Unprovoked name s l

instance (name : String) (s : Daemon) (l : Label) : Decidable (LeftAlone name s l) :=
  inferInstanceAs (Decidable (Unbidden name s l ∧ Unprovoked name s l))

/-- Every step of such a run leaves the service unasked for. -/
theorem Unasked.step (H : Unasked name s) (hw : s.Wired) (hG : LeftAlone name s l)
    (h : s.step l = some s') : Unasked name s' := by
  obtain ⟨hU, hP⟩ := hG
  refine ⟨?_, fun id slot' hs' hn he c hc => ?_⟩
  · -- What asks for no start before the step asks for none after it.
    have old : ∀ {todo : List Overlord.Instr}, s'.todo = todo → (∀ i ∈ todo, Harmless name s i) →
        ∀ i ∈ s'.todo, Harmless name s' i := fun ht hi i hm => (hi i (ht ▸ hm)).step hU h
    cases handlerStep h with
    | same _ ht => exact old ht H.todo
    | command => exact old rfl fun i => harmless_handleCmd hU
    | check => exact old rfl fun i => harmless_handleCheckEvent hP
    | event _ hev => exact old rfl fun i => harmless_handleSvcEvent hev hP
    | @overlord load i rest s' htodo hstep =>
      have hi := H.todo i (htodo ▸ List.mem_cons_self)
      have hrest : ∀ j ∈ rest, Harmless name s j := fun j hj =>
        H.todo j (htodo ▸ List.mem_cons_of_mem _ hj)
      cases hstep with
      | @request n c why rest e he =>
        refine old rfl fun j hj => ?_
        simp only [List.mem_cons] at hj
        rcases hj with rfl | rfl | hj
        · -- The actor of another service has another name.
          intro hc slot hs hname
          obtain ⟨slot', hs', hn⟩ := hw.slot n e.id (idOf_eq_some_iff.mpr ⟨e, he, rfl⟩)
          rw [hs] at hs'
          obtain rfl := Option.some.inj hs'
          exact hi hc (hn.symm.trans hname)
        · trivial
        · exact hrest j hj
      | reload hl =>
        subst hl
        exact absurd (by rw [htodo]; rfl) hU
      | finish => exact old rfl fun j hj => absurd hj List.not_mem_nil
      | _ => exact old rfl hrest
  · obtain ⟨slot, hs, hstep⟩ := slotStep_of_unbidden hU h hs'
    rw [hstep.static.1] at hn
    obtain ⟨he, hbox⟩ := hstep.mailbox he
    rcases hbox c hc with hc | ⟨n, why, load, rest, -, htodo⟩ | rfl | rfl
    · exact H.mailbox id slot hs hn he c hc
    · by_contra hstart
      have hi : Harmless name s (.sendTo n id c why) := H.todo _ (htodo ▸ List.mem_cons_self)
      exact hi (by simpa using hstart) slot hs hn
    · rfl
    · rfl

/-! ## An operator's stop -/

/-- Whether the handler is that of an operator's stop, and how far it is: then only such stops are
left in it. -/
inductive Serving (s : Daemon) : Prop
  | other (h : ∀ i ∈ s.todo, i.isOperatorStop = false)
    (hw : ∀ id, s.todo.head? = some (.await id) →
      ∀ n j, s.log.head? ≠ some (.sent n j .stop .operator))
  | stops (h : Stops s.todo)
  | asking {n : String} {id : ℕ} {rest : List Overlord.Instr}
    (ht : s.todo = .sendTo n id .stop .operator :: .await id :: rest) (h : Stops rest)
  | waiting {id : ℕ} {rest : List Overlord.Instr} (ht : s.todo = .await id :: rest) (h : Stops rest)

namespace Serving

/-- A handler that has no stop of an operator and does not begin with a wait. -/
theorem of_handler (hh : Overlord.Handler s.todo) (h : ∀ i ∈ s.todo, i.isOperatorStop = false) :
    s.Serving :=
  .other h fun id hw => (hh.head? id hw).elim

/-- A step of another task leaves the overlord's handler. -/
theorem mono (H : s.Serving) (ht : s'.todo = s.todo) (hlog : s'.log = s.log) : s'.Serving := by
  cases H with
  | other h hw => exact .other (ht ▸ h) (by rw [ht, hlog]; exact hw)
  | stops h => exact .stops (ht ▸ h)
  | asking h hr => exact .asking (ht.trans h) hr
  | waiting h hr => exact .waiting (ht.trans h) hr

/-- The next action of the overlord's handler leaves nothing but stops of an operator in the handler
of such a stop. -/
theorem step_overlord (H : s.Serving) (hA : s.Answered) {load : Option Plan} {i : Overlord.Instr}
    {rest : List Overlord.Instr} (htodo : s.todo = i :: rest) (h : OverlordStep s load i rest s') :
    s'.Serving := by
  have hhand := hA.handling
  rw [htodo] at hhand
  cases H with
  | other hall hw =>
    have hi := hall i (htodo ▸ List.mem_cons_self)
    have hrest : ∀ j ∈ rest, j.isOperatorStop = false := fun j hj =>
      hall j (htodo ▸ List.mem_cons_of_mem _ hj)
    cases h with
    | @request n c why rest e he =>
      refine .other (fun j hj => ?_) fun _ => nofun
      simp only [List.mem_cons] at hj
      rcases hj with rfl | rfl | hj
      · cases c with
        | stop => cases why <;> exact hi
        | _ => rfl
      · rfl
      · exact hrest j hj
    | @sendTo n id c why rest slot slot' hs hp =>
      refine .other hrest fun id hw n' j' hlog => ?_
      obtain ⟨rfl, rfl, rfl, rfl⟩ := Entry.sent.inj (Option.some.inj hlog)
      cases hi
    | @reload rest plan hl =>
      refine .other (fun j hj => ?_) fun id hw n j => nofun
      rcases List.mem_append.mp hj with hj | hj
      · rcases s.overlord.reloadInstr_of_mem hj with ⟨e, -, rfl⟩ | ⟨name, rfl⟩ <;> rfl
      · exact hrest j hj
    | finish => exact .other (List.forall_mem_nil _) fun _ => nofun
    | _ =>
      refine .other hrest fun id hw => (hhand.head?_tail (fun n j c why hi => ?_) id hw).elim
      cases hi
  | stops hall =>
    obtain ⟨n, rfl⟩ := hall i (htodo ▸ List.mem_cons_self)
    have hrest : Stops rest := fun j hj => hall j (htodo ▸ List.mem_cons_of_mem _ hj)
    cases h with
    | unknown hn => exact .stops hrest
    | request he => exact .asking rfl hrest
  | asking ht hr =>
    rw [htodo] at ht
    obtain ⟨rfl, rfl⟩ := List.cons.inj ht
    cases h with
    | sendTo hs hp => exact .waiting rfl hr
  | waiting ht hr =>
    rw [htodo] at ht
    obtain ⟨rfl, rfl⟩ := List.cons.inj ht
    cases h with
    | await hs ha => exact .stops hr

/-- A step of the daemon leaves nothing but stops of an operator in the handler of such a stop. -/
theorem step (H : s.Serving) (hA : s.Answered) (h : s.step l = some s') : s'.Serving := by
  cases handlerStep h with
  | same _ ht hlog => exact H.mono ht hlog
  | @command c =>
    by_cases hc : ∃ names, c = .services .stop names
    · obtain ⟨names, rfl⟩ := hc
      refine .stops fun i hi => ?_
      obtain ⟨n, -, hi⟩ := List.mem_flatMap.mp hi
      exact ⟨n, List.mem_singleton.mp hi⟩
    · exact of_handler (s.overlord.handler_handleCmd c)
        (isOperatorStop_handleCmd fun names hn => hc ⟨names, hn⟩)
  | @check check status =>
    refine of_handler (s.overlord.handler_handleCheckEvent check status) fun i hi => ?_
    cases checkInstr_of_mem hi <;> rfl
  | @event ev rest =>
    refine of_handler (s.overlord.handler_handleSvcEvent ev) fun i hi => ?_
    have hstep := s.overlord.eventStep ev
    dsimp only at hi
    generalize (s.overlord.handleSvcEvent ev).1 = o', (s.overlord.handleSvcEvent ev).2 = is
      at hstep hi
    cases hstep with
    | started hk hr => obtain ⟨n, -, rfl⟩ := List.mem_map.mp hi; rfl
    | stopped hk hs => obtain ⟨n, -, rfl⟩ := List.mem_map.mp hi; rfl
    | passed | exited => exact absurd hi List.not_mem_nil
    | shutdown hk => exact isOperatorStop_shutdown _ i hi
  | overlord htodo hstep => exact H.step_overlord hA htodo hstep

end Serving

/-- In every run, where the overlord waits for the answer to an operator's stop, only such stops are
left in its handler. -/
theorem serving_of_reaches {plan : Plan} (h : Reaches step Always (init plan) s) : s.Serving := by
  refine h.invariant (P := Serving) (.other (fun i hi => ?_) fun id hw => ?_)
    fun s l s' hr H _ hl => H.step (answered_of_reaches hr) hl
  · obtain ⟨n, -, rfl⟩ := List.mem_map.mp hi
    rfl
  · obtain ⟨n, -, hn⟩ := List.mem_map.mp (List.mem_of_head? hw)
    cases hn

/-- When an actor takes an operator's stop, nobody asks for a start of any service. -/
theorem unasked_of_stop {plan : Plan} (h : Reaches step Always (init plan) s) {id : ℕ} {slot : Slot}
    (htodo : s.todo.head? = some (.await id)) {n : String} {j : ℕ}
    (hsent : s.log.head? = some (.sent n j .stop .operator)) (hs : s.slots[id]? = some slot)
    (hm : slot.mailbox.head? = some .stop) : Unasked name s := by
  have hA := answered_of_reaches h
  obtain ⟨rest, hrest⟩ := List.head?_eq_some_iff.mp htodo
  have hdone := hA.done fun code hc => by rw [hc] at hrest; cases hrest
  refine ⟨fun i hi => ?_, fun k slot' hs' _ he c hc => ?_⟩
  · have hstops : Stops rest := by
      cases serving_of_reaches h with
      | other _ hw => exact (hw id htodo n j hsent).elim
      | stops hall =>
        obtain ⟨n', hn'⟩ := hall _ (hrest ▸ List.mem_cons_self)
        cases hn'
      | asking ht => rw [hrest] at ht; cases ht
      | waiting ht hr =>
        rw [hrest] at ht
        obtain ⟨-, rfl⟩ := List.cons.inj ht
        exact hr
    rw [hrest] at hi
    rcases List.mem_cons.mp hi with rfl | hi
    · trivial
    · obtain ⟨n', rfl⟩ := hstops i hi
      exact nofun
  · have howed := hA.owed k slot' hs' he
    by_contra hstart
    have hans : c.isAnswered = true := Cmd.isAnswered_of_isStart (by simpa using hstart)
    by_cases hk : k = id
    · -- The one answered command in the mailbox is the stop.
      subst hk
      rw [hs] at hs'
      obtain rfl := Option.some.inj hs'
      obtain ⟨tail, hbox⟩ := List.head?_eq_some_iff.mp hm
      rw [awaited_of_await hdone htodo, Slot.owed, hbox, List.countP_cons_of_pos rfl] at howed
      rw [hbox] at hc
      rcases List.mem_cons.mp hc with rfl | hc
      · exact hstart rfl
      · have hpos := List.countP_pos_iff.mpr ⟨c, hc, hans⟩
        omega
    · have hpos := List.countP_pos_iff.mpr ⟨c, hc, hans⟩
      rw [awaited_of_done hdone fun hw => hk (by rw [htodo] at hw; cases hw; rfl), Slot.owed]
        at howed
      omega

/-! ## The runs after it -/

/-- When the stop that the actor `id` takes lasts: it lasts for that actor, and the actors that the
service had before have begun to return. -/
structure Lasting (name : String) (id : ℕ) (s : Daemon) : Prop where
  current : ∀ slot ∈ s.slots[id]?, slot.task.actor.StopLasts
  earlier : ∀ (j : ℕ) (slot : Slot), s.slots[j]? = some slot → slot.task.actor.name = name →
    j ≠ id → slot.task.leaving = true

/-- Since a state, no process of the service has been spawned. -/
def Unspawned (name : String) (s s' : Daemon) : Prop :=
  ∀ (id : ℕ) (slot' : Slot), s'.slots[id]? = some slot' → slot'.task.actor.name = name →
    ∃ slot, s.slots[id]? = some slot ∧ slot'.task.actor.spawned = slot.task.actor.spawned

/-- The actors of the service are dormant since a state. -/
def Resting (name : String) (s s' : Daemon) : Prop :=
  ∀ (id : ℕ) (slot' : Slot), s'.slots[id]? = some slot' → slot'.task.actor.name = name →
    ∃ slot, s.slots[id]? = some slot ∧ slot'.Dormant slot.task.actor.spawned

/-- The actors of the service are dormant after a stop that lasts. -/
theorem resting_of_stop {plan : Plan} (h : Reaches step Always (init plan) s) {id : ℕ} {ok : Bool}
    (hstop : s.step (.input id (.cmd .stop ok)) = some s') (hl : Lasting name id s) :
    Resting name s s' := by
  obtain ⟨slot₀, t, hs₀, -, ht, rfl⟩ := step_input hstop
  intro j slot' hs' hn
  have hloop : ∀ {k : ℕ} {slot : Slot}, s.slots[k]? = some slot → ∃ n config now,
      Reaches Loop.step Always (Loop.init n config now) ⟨s.now, slot.task⟩ := fun hs =>
    reaches_loop Always (fun _ _ _ _ _ _ _ _ => trivial) (fun _ _ _ => trivial) h hs
  rcases getElem?_setSlot hs' with ⟨rfl, rfl⟩ | ⟨hne, hs⟩
  · obtain ⟨n, config, now, hr⟩ := hloop hs₀
    obtain ⟨hi, -, ht'⟩ := Task.take_eq_some_iff.mp ht
    have hset := Task.settled_of_idle hi
    have P := Loop.plausible_of_reaches hr (Task.leaving_of_idle hi)
    obtain ⟨hq, hsp⟩ := Actor.quiet_handleStop (hset ▸ P) (hl.current slot₀ hs₀)
    have hact : t.actor = slot₀.task.actor := by rw [ht']
    have hafter : t.settled = slot₀.task.actor.execAll slot₀.task.actor.handleStop := by
      rw [Task.settled_take ht, hset]
      rfl
    exact ⟨slot₀, hs₀, by rw [hact], hafter ▸ hsp, .inr (hafter ▸ hq)⟩
  · obtain ⟨n, config, now, hr⟩ := hloop hs
    have hleav := hl.earlier j slot' hs hn hne
    exact ⟨slot', hs, le_rfl, Loop.spawned_of_leaving hr hleav, .inl hleav⟩

/-- In every run, once an actor has taken an operator's stop, and the stop lasts, no process of the
service is spawned as long as nobody asks for a start of it. -/
theorem unspawned_after_stop {plan : Plan} {s₁ s₂ : Daemon} {id : ℕ} {ok : Bool}
    (h : Reaches step Always (init plan) s)
    (hsent : s.log.head? = some (.sent name id .stop .operator))
    (htodo : s.todo.head? = some (.await id))
    (hstop : s.step (.input id (.cmd .stop ok)) = some s₁) (hl : Lasting name id s)
    (hrun : Reaches step (LeftAlone name) s₁ s₂) : Unspawned name s s₂ := by
  have h₁ : Reaches step Always (init plan) s₁ := h.tail trivial hstop
  have hasked : Unasked name s₁ := by
    obtain ⟨slot, t, hs, hm, -, -⟩ := step_input hstop
    have H : Unasked name s := unasked_of_stop h htodo hsent hs (of_decide_eq_true hm)
    exact H.step (l := .input id (.cmd .stop ok)) (wired_of_reaches h) ⟨trivial, trivial⟩ hstop
  have hinv := hrun.invariant (P := fun s' => Unasked name s' ∧ Resting name s s')
    ⟨hasked, resting_of_stop h hstop hl⟩ ?_
  · intro j slot' hs' hn
    obtain ⟨slot, hs, hd⟩ := hinv.2 j slot' hs' hn
    exact ⟨slot, hs, hd.eq⟩
  · rintro s' l s'' hr ⟨hU, hR⟩ hG hl'
    have hw := wired_of_reaches (h₁.trans hr.always)
    refine ⟨hU.step hw hG hl', fun j slot'' hs'' hn => ?_⟩
    obtain ⟨slot', hs', hstep⟩ := slotStep_of_unbidden hG.1 hl' hs''
    rw [hstep.static.1] at hn
    obtain ⟨slot, hs, hd⟩ := hR j slot' hs' hn
    exact ⟨slot, hs, hstep.dormant (hU.mailbox j slot' hs' hn) hd⟩

/-- A service that is started with the daemon, and restarted when its check fails. -/
def checkedPlan : Plan :=
  webPlan
    { command := some "/bin/web"
      startup := .enabled
      onCheckFailure := IndexMap.insert ∅ "up" .restart }

/-- The start of the daemon with the plan, and an operator's stop, up to its sending. -/
def stopLabels : List Label :=
  startLabels 0 ++
    [.event, .event, .command (.services .stop ["web"]), .overlord none, .overlord none]

/-- What follows the taking of the stop: it is answered, and the process exits. -/
def stoppedLabels : List Label :=
  [.act 0, .act 0, .deliver 0, .act 0, .act 0, .overlord none, .exit ⟨0, 0, true⟩,
    .input 0 (.childExit true true), .act 0, .deliver 0, .act 0, .act 0, .act 0, .deliver 0, .event,
    .event, .event]

/-- The operator stops the running service, its process exits, and the check passes. Nothing is
spawned. -/
theorem unspawned_after_exit :
    ∃ s s₁ s₂, Reaches step Always (init checkedPlan) s ∧
      s.step (.input 0 (.cmd .stop true)) = some s₁ ∧
      Reaches step (LeftAlone "web") s₁ s₂ ∧ s₂.exited 0 0 = true ∧ Unspawned "web" s s₂ := by
  have h : (runIf step Always (init checkedPlan) stopLabels).any (fun s : Daemon =>
      decide (s.log.head? = some (.sent "web" 0 .stop .operator)) &&
      decide (s.todo.head? = some (.await 0)) && decide (s.slots.length = 1) &&
      (s.slots[0]?.any fun slot : Slot => decide (slot.task.actor.state = .active) &&
        decide (slot.task.actor.backoffSleep = none) && !slot.task.actor.pendingRestart) &&
      (s.step (.input 0 (.cmd .stop true))).any fun s₁ : Daemon =>
        (runIf step (LeftAlone "web") s₁ (stoppedLabels ++ [.check "up" .up])).any
          fun s₂ : Daemon => s₂.exited 0 0) = true := by
    decide +kernel
  obtain ⟨s, hr, h⟩ := Reaches.exists_of_runIf _ h
  simp only [Bool.and_eq_true, decide_eq_true_eq, Option.any_eq_true, Bool.not_eq_true'] at h
  obtain ⟨⟨⟨⟨hsent, htodo⟩, hlen⟩, slot, hs, ⟨ha, hb⟩, hp⟩, s₁, hs₁, h⟩ := h
  obtain ⟨s₂, hr₂, hx⟩ := Reaches.exists_of_runIf _ ((Option.any_eq_true _ _).mpr h)
  refine ⟨s, s₁, s₂, hr, hs₁, hr₂, hx, unspawned_after_stop hr hsent htodo hs₁ ⟨?_, ?_⟩ hr₂⟩
  · intro slot' hs'
    rw [hs] at hs'
    obtain rfl := Option.some.inj hs'
    exact .inr ⟨.inr hb, hp, by simp [ha]⟩
  · intro j slot' hs' _ hj
    have hlt := (List.getElem?_eq_some_iff.mp hs').1
    omega

/-- The operator stops the running service, the stop is answered, its process exits, and then the
check fails. The service is started again. -/
theorem exists_spawn_after_check :
    ∃ s s₁ s₂, Reaches step Biased (init checkedPlan) s ∧
      s.log.head? = some (.sent "web" 0 .stop .operator) ∧ s.todo.head? = some (.await 0) ∧
      s.step (.input 0 (.cmd .stop true)) = some s₁ ∧
      Reaches step (fun s l => s.Biased l ∧ Unbidden "web" s l) s₁ s₂ ∧
      ¬Unspawned "web" s s₂ := by
  have h : (runIf step Biased (init checkedPlan) stopLabels).any (fun s : Daemon =>
      decide (s.log.head? = some (.sent "web" 0 .stop .operator)) &&
      decide (s.todo.head? = some (.await 0)) &&
      (s.slots[0]?.any fun slot : Slot => decide (slot.task.actor.spawned = 1)) &&
      (s.step (.input 0 (.cmd .stop true))).any fun s₁ : Daemon =>
        (runIf step (fun s l => s.Biased l ∧ Unbidden "web" s l) s₁ (stoppedLabels ++
          [.check "up" .down, .overlord none, .overlord none, .input 0 (.cmd .restart true),
            .act 0, .deliver 0, .act 0, .act 0])).any fun s₂ : Daemon =>
          s₂.slots[0]?.any fun slot : Slot => decide (slot.task.actor.name = "web") &&
            decide (slot.task.actor.spawned = 2)) = true := by
    decide +kernel
  obtain ⟨s, hr, h⟩ := Reaches.exists_of_runIf _ h
  simp only [Bool.and_eq_true, decide_eq_true_eq, Option.any_eq_true] at h
  obtain ⟨⟨⟨hsent, htodo⟩, slot, hs, hone⟩, s₁, hs₁, s₂, hr₂, slot', hs', hn, htwo⟩ := h
  refine ⟨s, s₁, s₂, hr, hsent, htodo, hs₁, .of_runIf hr₂, fun H => ?_⟩
  obtain ⟨slot₀, hs₀, heq⟩ := H 0 slot' hs' hn
  rw [hs] at hs₀
  obtain rfl := Option.some.inj hs₀
  omega

end Daemon

end Vigil
