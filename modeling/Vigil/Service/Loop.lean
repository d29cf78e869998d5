import Vigil.Lib.Runs
import Vigil.Service.Actor

/-!
# The actor's loop

`run` of `service/actor/mod.rs`, one action at a time. A turn of the loop begins when the actor,
back at its `select!`, takes an input. It then does the actions of that turn's script in order. An
action that sends an event fills the outbox, and nothing else happens in the actor until the event
channel has taken it. Sleeping and waiting for an exit hold the actor up in the same way.

Two readings of a task make its invariants short. `settled` is the actor as it will be at the end of
its turn, and `history` is what it will have done by then. The actions of a turn change neither, so
an invariant of them is a matter of the inputs alone (`settled_act`, `history_act`). `unsent` is
what the task has still to send in its turn, in order.
-/

namespace Vigil

open Actor (Effect Input)

namespace Actor

/-- The actor after a list of actions. -/
def execAll (a : Actor) (is : List Instr) : Actor := is.foldl exec a

/-- The effects of a list of actions before the earlier effects `h`, the newest first. -/
def effects : Actor → List Instr → List Effect → List Effect
  | _, [], h => h
  | a, i :: is, h => effects (a.exec i) is ((a.effect i).toList ++ h)

/-- Nothing is left to do. -/
@[simp] theorem execAll_nil (a : Actor) : a.execAll [] = a := rfl

/-- The first action comes first. -/
@[simp] theorem execAll_cons (a : Actor) (i : Instr) (is : List Instr) :
    a.execAll (i :: is) = (a.exec i).execAll is := rfl

/-- No action, no effect. -/
@[simp] theorem effects_nil (a : Actor) (h : List Effect) : a.effects [] h = h := rfl

/-- The first action's effect is the oldest. -/
@[simp] theorem effects_cons (a : Actor) (i : Instr) (is : List Instr) (h : List Effect) :
    a.effects (i :: is) h = (a.exec i).effects is ((a.effect i).toList ++ h) := rfl

/-- Effects are only ever added. -/
theorem suffix_effects (a : Actor) (is : List Instr) (h : List Effect) : h <:+ a.effects is h := by
  induction is generalizing a h with
  | nil => exact List.suffix_refl h
  | cons i is ih => exact (List.suffix_append _ h).trans (ih _ _)

/-- No action changes the configuration. -/
@[simp] theorem config_exec (a : Actor) (i : Instr) : (a.exec i).config = a.config := by
  cases i <;> rfl

/-- No list of actions changes the configuration. -/
@[simp] theorem config_execAll (a : Actor) (is : List Instr) :
    (a.execAll is).config = a.config := by
  induction is generalizing a with
  | nil => rfl
  | cons i is ih => rw [execAll_cons, ih, config_exec]

/-- No action changes the name. -/
@[simp] theorem name_exec (a : Actor) (i : Instr) : (a.exec i).name = a.name := by
  cases i <;> rfl

end Actor

/-- The task that runs an actor. -/
structure Task where
  actor : Actor
  /-- The actions that are left of the present turn. -/
  todo : List Instr := []
  /-- The event that waits for room in the event channel. -/
  outbox : Option (EventKind × Bool) := none
  /-- When the kill timer elapses, if it is armed. -/
  stopAt : ℕ := 0
  /-- When the backoff timer elapses, if it is armed. -/
  backoffAt : ℕ := 0
  /-- The task has returned. -/
  ended : Bool := false
  /-- What the actor has done, with the time, the newest first. -/
  log : List (ℕ × Effect) := []

namespace Task

variable (t : Task)

/-- The task of a new actor. -/
def new (name : String) (config : ServiceConfig) : Task where
  actor := .new name config

/-- The actor is at its loop head. -/
def idle : Bool := t.todo.isEmpty && t.outbox.isNone && !t.ended

/-- Whether an action can be done at the time. -/
def enabled (now : ℕ) : Instr → Bool
  | .wake time => time ≤ now
  | _ => true

/-- Do the action `i`, before `rest`, at the time `now`. -/
def perform (now : ℕ) (i : Instr) (rest : List Instr) : Task where
  actor := t.actor.exec i
  todo := match i with
    | .sleep d => .wake (now + d) :: rest
    | _ => rest
  outbox := Actor.sends i
  stopAt := match i with
    | .armStop => now + t.actor.killDelay
    | _ => t.stopAt
  backoffAt := match i with
    | .armBackoff d => now + d
    | _ => t.backoffAt
  ended := match i with
    | .finish => true
    | _ => t.ended
  log := (t.actor.effect i).toList.map (now, ·) ++ t.log

/-- Do the next action, if nothing holds the actor up. -/
def act (now : ℕ) : Option Task :=
  match t.outbox, t.todo with
  | none, i :: rest => if enabled now i then some (t.perform now i rest) else none
  | _, _ => none

/-- The event channel takes the event in the outbox. -/
def deliver : Option Task := t.outbox.map fun _ => { t with outbox := none }

/-- Whether the branch of the `select!` that an input stands for is ready. A command and an exit
come from outside. -/
def ready (now : ℕ) : Input → Bool
  | .cmd _ _ => true
  | .childExit _ _ => t.actor.child.isSome
  | .killDeadline => t.actor.stopDeadline.isSome && t.stopAt ≤ now
  | .backoffExpired _ => t.actor.backoffSleep.isSome && t.backoffAt ≤ now

/-- Begin a turn. -/
def take (now : ℕ) (inp : Input) : Option Task :=
  if t.idle && t.ready now inp then some { t with todo := t.actor.script inp } else none

/-- The actor as it will be at the end of its turn. -/
def settled : Actor := t.actor.execAll t.todo

/-- What the actor has done so far, the newest first. -/
def done : List Effect := t.log.map Prod.snd

/-- What the actor will have done at the end of its turn, the newest first. -/
def history : List Effect := t.actor.effects t.todo t.done

/-- What the task has still to send in its turn, in order. -/
def unsent : List (EventKind × Bool) := t.outbox.toList ++ t.todo.filterMap Actor.sends

/-- The task has returned, or will at the end of its turn. -/
def leaving : Bool := t.ended || t.todo.contains .finish

/-! ## What a step does -/

variable {t} {t' : Task} {now : ℕ} {inp : Input}

/-- At the loop head, the actor is what it has settled to. -/
theorem settled_of_idle (h : t.idle = true) : t.settled = t.actor := by
  simp only [idle, Bool.and_eq_true, List.isEmpty_iff] at h
  rw [settled, h.1.1, Actor.execAll_nil]

/-- At the loop head, the history is what has been done. -/
theorem history_of_idle (h : t.idle = true) : t.history = t.done := by
  simp only [idle, Bool.and_eq_true, List.isEmpty_iff] at h
  rw [history, h.1.1, Actor.effects_nil]

/-- An actor at its loop head is not about to return. -/
theorem leaving_of_idle (h : t.idle = true) : t.leaving = false := by
  simp only [idle, Bool.and_eq_true, List.isEmpty_iff, Bool.not_eq_true'] at h
  rw [leaving, h.1.1, h.2]; rfl

/-- At the loop head, nothing is left to send. -/
theorem unsent_of_idle (h : t.idle = true) : t.unsent = [] := by
  simp only [idle, Bool.and_eq_true, List.isEmpty_iff, Option.isNone_iff_eq_none] at h
  rw [unsent, h.1.1, h.1.2]; rfl

/-- A task that is not about to return has not returned. -/
theorem ended_of_leaving (h : t.leaving = false) : t.ended = false := by
  rw [leaving, Bool.or_eq_false_iff] at h
  exact h.1

/-- What has been done is the older part of the history. -/
theorem done_suffix (t : Task) : t.done <:+ t.history := t.actor.suffix_effects _ _

/-- `act` performs the first action of the turn if the outbox is empty and the action is enabled. -/
theorem act_eq_some_iff :
    t.act now = some t' ↔ t.outbox = none ∧
      ∃ i rest, t.todo = i :: rest ∧ enabled now i = true ∧ t' = t.perform now i rest := by
  unfold act
  split
  · next i rest ho ht =>
    rw [ho, ht]
    constructor
    · intro h
      split_ifs at h with he
      exact ⟨rfl, i, rest, rfl, he, (Option.some.inj h).symm⟩
    · rintro ⟨-, i', rest', h, he, rfl⟩
      obtain ⟨rfl, rfl⟩ := List.cons.inj h
      rw [if_pos he]
  · next h =>
    constructor
    · intro h'
      cases h'
    · rintro ⟨ho, i, rest, ht, -⟩
      exact (h i rest ho ht).elim

/-- `deliver` empties the outbox. -/
theorem deliver_eq_some_iff :
    t.deliver = some t' ↔ ∃ k, t.outbox = some k ∧ t' = { t with outbox := none } := by
  unfold deliver
  cases t.outbox with
  | none => simp
  | some k => simp [eq_comm]

/-- `take` begins the turn of an input that is ready, if none is going on. -/
theorem take_eq_some_iff :
    t.take now inp = some t' ↔ t.idle = true ∧ t.ready now inp = true ∧
      t' = { t with todo := t.actor.script inp } := by
  unfold take
  split_ifs with h
  · rw [Bool.and_eq_true] at h
    simp [h, eq_comm]
  · rw [Bool.and_eq_true] at h
    constructor
    · intro h'
      cases h'
    · rintro ⟨h₁, h₂, -⟩
      exact (h ⟨h₁, h₂⟩).elim

/-- An action leaves what the actor settles to. -/
theorem settled_act (h : t.act now = some t') : t'.settled = t.settled := by
  obtain ⟨-, i, rest, ht, -, rfl⟩ := act_eq_some_iff.mp h
  rw [settled, settled, ht]
  cases i <;> rfl

/-- An action adds its effect to what has been done. -/
theorem done_perform (t : Task) (now : ℕ) (i : Instr) (rest : List Instr) :
    (t.perform now i rest).done = (t.actor.effect i).toList ++ t.done := by
  simp only [done, perform, List.map_append, List.map_map]
  rw [show (Prod.snd ∘ fun e : Effect => (now, e)) = id from rfl, List.map_id]

/-- An action leaves the history of the states as it is. -/
theorem history_act (h : t.act now = some t') : t'.history = t.history := by
  obtain ⟨-, i, rest, ht, -, rfl⟩ := act_eq_some_iff.mp h
  rw [history, history, done_perform, ht]
  cases i <;> rfl

/-- An action leaves what is still to be sent. -/
theorem unsent_act (h : t.act now = some t') : t'.unsent = t.unsent := by
  obtain ⟨ho, i, rest, ht, -, rfl⟩ := act_eq_some_iff.mp h
  rw [unsent, unsent, ho, ht]
  cases i <;> rfl

/-- An action leaves whether the task is about to return. -/
theorem leaving_act (h : t.act now = some t') : t'.leaving = t.leaving := by
  obtain ⟨-, i, rest, ht, -, rfl⟩ := act_eq_some_iff.mp h
  rw [leaving, leaving, ht]
  cases i <;> simp [perform]

/-- A delivery leaves what the actor settles to. -/
theorem settled_deliver (h : t.deliver = some t') : t'.settled = t.settled := by
  obtain ⟨k, -, rfl⟩ := deliver_eq_some_iff.mp h; rfl

/-- A delivery leaves the history of the states as it is. -/
theorem history_deliver (h : t.deliver = some t') : t'.history = t.history := by
  obtain ⟨k, -, rfl⟩ := deliver_eq_some_iff.mp h; rfl

/-- A delivery leaves whether the task is about to return. -/
theorem leaving_deliver (h : t.deliver = some t') : t'.leaving = t.leaving := by
  obtain ⟨k, -, rfl⟩ := deliver_eq_some_iff.mp h; rfl

/-- A delivery takes the first of what is still to be sent. -/
theorem unsent_deliver (h : t.deliver = some t') : ∃ k, t.outbox = some k ∧
    t.unsent = k :: t'.unsent := by
  obtain ⟨k, hk, rfl⟩ := deliver_eq_some_iff.mp h
  exact ⟨k, hk, by simp [unsent, hk]⟩

/-- An input settles the actor as its script does. -/
theorem settled_take (h : t.take now inp = some t') :
    t'.settled = t.settled.execAll (t.settled.script inp) := by
  obtain ⟨hi, -, rfl⟩ := take_eq_some_iff.mp h
  rw [settled_of_idle hi]; rfl

/-- An input adds the effects of its script to the history. -/
theorem history_take (h : t.take now inp = some t') :
    t'.history = t.settled.effects (t.settled.script inp) t.history := by
  obtain ⟨hi, -, rfl⟩ := take_eq_some_iff.mp h
  rw [settled_of_idle hi, history_of_idle hi]; rfl

/-- An input sends what its script sends. -/
theorem unsent_take (h : t.take now inp = some t') :
    t'.unsent = (t.settled.script inp).filterMap Actor.sends := by
  obtain ⟨hi, -, rfl⟩ := take_eq_some_iff.mp h
  rw [settled_of_idle hi]
  simp only [idle, Bool.and_eq_true, List.isEmpty_iff, Option.isNone_iff_eq_none] at hi
  simp only [unsent, hi.1.2]; rfl

/-- Only a shutdown makes the task return. -/
theorem leaving_take (h : t.take now inp = some t') :
    t'.leaving = (t.settled.script inp).contains .finish := by
  obtain ⟨hi, -, rfl⟩ := take_eq_some_iff.mp h
  rw [settled_of_idle hi]
  simp only [idle, Bool.and_eq_true, Bool.not_eq_true'] at hi
  simp only [leaving, hi.2]; rfl

/-- A task that has not returned after an action had not returned before it. -/
theorem ended_act (h : t.act now = some t') (he : t'.ended = false) : t.ended = false := by
  obtain ⟨-, i, rest, -, -, rfl⟩ := act_eq_some_iff.mp h
  cases i <;> first | exact he | cases he

/-- The name of a task's actor never changes. -/
theorem name_act (h : t.act now = some t') : t'.actor.name = t.actor.name := by
  obtain ⟨-, i, rest, -, -, rfl⟩ := act_eq_some_iff.mp h
  exact t.actor.name_exec i

/-- The configuration of a task's actor never changes. -/
theorem config_act (h : t.act now = some t') : t'.actor.config = t.actor.config := by
  obtain ⟨-, i, rest, -, -, rfl⟩ := act_eq_some_iff.mp h
  exact t.actor.config_exec i

end Task

/-- The loop of one actor, with the clock. -/
structure Loop where
  now : ℕ
  task : Task

namespace Loop

/-- What can happen to an actor. -/
inductive Label
  /-- Time passes. -/
  | tick (d : ℕ)
  /-- The actor does its next action. -/
  | act
  /-- The event channel takes the event that the actor is sending. -/
  | deliver
  /-- The actor, at its loop head, takes an input. -/
  | input (inp : Input)
  deriving DecidableEq

/-- A step of the loop. -/
def step (s : Loop) : Label → Option Loop
  | .tick d => some { s with now := s.now + d }
  | .act => (s.task.act s.now).map fun t => { s with task := t }
  | .deliver => s.task.deliver.map fun t => { s with task := t }
  | .input inp => (s.task.take s.now inp).map fun t => { s with task := t }

/-- The loop of an actor that is spawned at a time. -/
def init (name : String) (config : ServiceConfig) (now : ℕ) : Loop := ⟨now, .new name config⟩

/-- A step lets time pass, or is an action, a delivery or an input of the task. -/
theorem step_cases {s s' : Loop} {l : Label} (h : step s l = some s') :
    (∃ d, l = .tick d ∧ s' = { s with now := s.now + d }) ∨
    (∃ t, l = .act ∧ s.task.act s.now = some t ∧ s' = { s with task := t }) ∨
    (∃ t, l = .deliver ∧ s.task.deliver = some t ∧ s' = { s with task := t }) ∨
    (∃ inp t, l = .input inp ∧ s.task.take s.now inp = some t ∧ s' = { s with task := t }) := by
  cases l with
  | tick d => exact .inl ⟨d, rfl, (Option.some.inj h).symm⟩
  | act =>
    obtain ⟨t, ht, rfl⟩ := Option.map_eq_some_iff.mp h
    exact .inr (.inl ⟨t, rfl, ht, rfl⟩)
  | deliver =>
    obtain ⟨t, ht, rfl⟩ := Option.map_eq_some_iff.mp h
    exact .inr (.inr (.inl ⟨t, rfl, ht, rfl⟩))
  | input inp =>
    obtain ⟨t, ht, rfl⟩ := Option.map_eq_some_iff.mp h
    exact .inr (.inr (.inr ⟨inp, t, rfl, ht, rfl⟩))

/-- The name and the configuration of an actor never change. -/
theorem static_step {s s' : Loop} {l : Label} (h : step s l = some s') :
    s'.task.actor.name = s.task.actor.name ∧ s'.task.actor.config = s.task.actor.config := by
  rcases step_cases h with ⟨d, rfl, rfl⟩ | ⟨t, rfl, ht, rfl⟩ | ⟨t, rfl, ht, rfl⟩ |
    ⟨inp, t, rfl, ht, rfl⟩
  · exact ⟨rfl, rfl⟩
  · exact ⟨Task.name_act ht, Task.config_act ht⟩
  · obtain ⟨k, -, rfl⟩ := Task.deliver_eq_some_iff.mp ht; exact ⟨rfl, rfl⟩
  · obtain ⟨-, -, rfl⟩ := Task.take_eq_some_iff.mp ht; exact ⟨rfl, rfl⟩

/-- Without an input, the actor goes on settling to the same. -/
theorem settled_of_reaches {s s' : Loop}
    (h : Runs.Reaches step (fun _ l => ∀ inp, l ≠ .input inp) s s') :
    s'.task.settled = s.task.settled :=
  h.constant (fun s => s.task.settled) fun s l s' _ hG hl => by
    rcases step_cases hl with ⟨d, rfl, rfl⟩ | ⟨t, rfl, ht, rfl⟩ | ⟨t, rfl, ht, rfl⟩ |
      ⟨inp, t, rfl, ht, rfl⟩
    · rfl
    · exact Task.settled_act ht
    · exact Task.settled_deliver ht
    · exact (hG inp rfl).elim

end Loop

end Vigil
