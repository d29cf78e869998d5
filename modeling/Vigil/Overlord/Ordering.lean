import Vigil.Overlord.Cascade

/-!
# The order of automatic starts

A service counts as running from `Starting` on, so an automatic start is sent as soon as the
dependencies are about to be spawned, and also if a spawn fails. What the overlord has to look at
for the dependencies to have been up is the snapshot, which must be `Active` and not `Starting`, and
what is on its way from their actors, which must not say that they are down (`Daemon.readied`). Then
the actors' own histories say so (`Daemon.reachedActive_of_sent`).
-/

namespace Vigil

open Actor (Effect Input)

/-- Whether the service has reached `Active` since it was last inactive, in backoff or in error, by
what its actor has done, the newest first. -/
def Actor.reachedActive : List Effect → Bool
  | [] => false
  | .stateSet .active :: _ => true
  | .stateSet .inactive :: _ | .stateSet .backoff :: _ | .stateSet .error :: _ => false
  | _ :: h => reachedActive h

/-- The last state that is not on the way to another, in a list of states with the newest first. -/
def lastStanding (states : List ServiceState) : Option ServiceState :=
  states.find? fun st => decide (st ≠ .starting ∧ st ≠ .stopping)

/-- `Active` has been reached if and only if it is the last state that is not on the way to
another. -/
theorem Actor.reachedActive_eq (h : List Effect) :
    reachedActive h = decide (lastStanding (h.filterMap Effect.state?) = some .active) := by
  induction h with
  | nil => rfl
  | cons e h ih =>
    cases e with
    | stateSet st =>
      cases st with
      | starting => exact ih
      | stopping => exact ih
      | _ => rfl
    | _ => exact ih

/-- In every state of every run of an actor's loop, what is left of a turn reports the states that
it sets. -/
theorem Loop.all_isHonest_of_reaches {G : Loop → Loop.Label → Prop} {name : String}
    {config : ServiceConfig} {now : ℕ} {s : Loop}
    (h : Runs.Reaches Loop.step G (Loop.init name config now) s) :
    s.task.todo.all Instr.isHonest = true := by
  refine h.invariant (P := fun s => s.task.todo.all Instr.isHonest = true) rfl ?_
  intro s l s' _ H _ hl
  rcases Loop.step_cases hl with ⟨d, rfl, rfl⟩ | ⟨t, rfl, ht, rfl⟩ | ⟨t, rfl, ht, rfl⟩ |
    ⟨inp, t, rfl, ht, rfl⟩
  · exact H
  · obtain ⟨-, i, rest, htodo, -, rfl⟩ := Task.act_eq_some_iff.mp ht
    rw [htodo, List.all_cons, Bool.and_eq_true] at H
    cases i <;> exact H.2
  · obtain ⟨k, -, rfl⟩ := Task.deliver_eq_some_iff.mp ht
    exact H
  · obtain ⟨-, -, rfl⟩ := Task.take_eq_some_iff.mp ht
    exact Actor.all_isHonest_script _ _

namespace Daemon

open Runs

variable {s s' : Daemon} {l : Label}

/-- The reports of an actor that have been made and not been handled, the oldest first: those in the
channel, and the one that the actor is sending. -/
def onTheWay (s : Daemon) (id : ℕ) (slot : Slot) : List ServiceState :=
  s.inFlight id ++ slot.task.outbox.toList.filterMap fun k => k.1.state?

/-- As far as the overlord can be told, the dependency is up: the snapshot is a report of the actor
that is held for it, and the last standing state among those on the way, or else the snapshot, is
`Active`. -/
def readied (s : Daemon) (dep : String) : Bool :=
  (s.overlord.services.get? dep).any fun e => decide (e.reporter = e.id) &&
    s.slots[e.id]?.any fun slot =>
      decide (lastStanding ((s.onTheWay e.id slot).reverse ++ [e.state]) = some .active)

/-- If the action sends an automatic start, every dependency of the service is up as far as the
overlord can be told. -/
def startsReadied (s : Daemon) : Overlord.Instr → Prop
  | .sendTo name _ .start .autostart => ∀ config ∈ s.overlord.plan.services.get? name,
    ∀ dep ∈ s.overlord.deps name config, s.readied dep = true
  | _ => True

instance (i : Overlord.Instr) : Decidable (s.startsReadied i) := by
  unfold startsReadied
  split <;> infer_instance

/-- Whenever an automatic start is sent, the dependencies are up. -/
def Readied (s : Daemon) : Label → Prop
  | .overlord _ => ∀ i ∈ s.todo.head?, s.startsReadied i
  | _ => True

instance (l : Label) : Decidable (s.Readied l) := by
  unfold Readied
  split <;> infer_instance

/-- What an actor has reported so far is what has been handled and what is on the way. -/
theorem Reported.states_done (H : s.Reported) {id : ℕ} {slot : Slot}
    (hs : s.slots[id]? = some slot) (hh : slot.task.todo.all Instr.isHonest = true) :
    ∃ handled, slot.task.done.filterMap Effect.state? = (s.onTheWay id slot).reverse ++ handled ∧
      ∀ name e, s.overlord.services.get? name = some e → e.reporter = id →
        e.state = handled.head?.getD .inactive := by
  obtain ⟨handled, hstates, hsnap⟩ := H.order id slot hs
  refine ⟨handled, ?_, hsnap⟩
  -- The states that are still to be set come last in both.
  have hdone : slot.task.states = (Actor.passes slot.task.todo).reverse ++
      slot.task.done.filterMap Effect.state? := by
    rw [Task.states, Task.history, Actor.states_effects _ hh]
  have hunhandled : s.unhandled id slot = s.onTheWay id slot ++ Actor.passes slot.task.todo := by
    rw [unhandled, onTheWay, Task.unreported, Task.unsent, List.filterMap_append, List.append_assoc]
    rfl
  rw [hunhandled, List.reverse_append, List.append_assoc, hdone] at hstates
  exact List.append_cancel_left hstates

/-- A dependency that is up as far as the overlord can be told is. -/
theorem reachedActive_of_readied {G : Daemon → Label → Prop} {plan : Plan}
    (h : Reaches step G (init plan) s) {dep : String} (hr : s.readied dep = true) :
    ∃ id slot, s.overlord.idOf dep = some id ∧ s.slots[id]? = some slot ∧
      Actor.reachedActive slot.task.done = true := by
  rw [readied, Option.any_eq_true] at hr
  obtain ⟨e, hget, hr⟩ := hr
  rw [Bool.and_eq_true, Option.any_eq_true] at hr
  obtain ⟨hrep, slot, hs, hup⟩ := hr
  have hrep := of_decide_eq_true hrep
  have hup := of_decide_eq_true hup
  refine ⟨e.id, slot, Overlord.idOf_eq_some_iff.mpr ⟨e, hget, rfl⟩, hs, ?_⟩
  obtain ⟨name, config, now, hloop⟩ := reaches_loop Always (fun _ _ _ _ _ _ _ _ => trivial)
    (fun _ _ _ => trivial) h hs
  obtain ⟨handled, hdone, hsnap⟩ :=
    (reported_of_reaches h).states_done hs (Loop.all_isHonest_of_reaches hloop)
  have hstate := hsnap dep e hget hrep
  rw [Actor.reachedActive_eq, hdone, decide_eq_true_eq]
  rw [lastStanding, List.find?_append] at hup ⊢
  cases hway : (s.onTheWay e.id slot).reverse.find? fun st =>
    decide (st ≠ .starting ∧ st ≠ .stopping) with
  | some st =>
    rw [hway] at hup
    exact hup
  | none =>
    -- Nothing that stands is on the way, so the snapshot does.
    rw [hway, Option.none_or] at hup
    have hactive : e.state = .active := List.mem_singleton.mp (List.mem_of_find?_eq_some hup) ▸ rfl
    rw [hactive] at hstate
    cases handled with
    | nil => cases hstate
    | cons st handled =>
      obtain rfl : ServiceState.active = st := hstate
      rfl

/-- A step that logs a command that is sent sends it. -/
theorem todo_of_sent {name : String} {id : ℕ} {c : Cmd} {why : Reason} (h : s.step l = some s')
    (hlog : s'.log = .sent name id c why :: s.log) :
    ∃ load rest, l = .overlord load ∧ s.todo = .sendTo name id c why :: rest := by
  have same : s'.log ≠ s.log := fun he => by
    rw [hlog] at he
    exact List.cons_ne_self _ _ he
  cases handlerStep h with
  | same _ _ hlog' => exact (same hlog').elim
  | command | check => exact (same rfl).elim
  | event => cases (List.cons.inj hlog).1
  | @overlord load i rest _ htodo hstep =>
    cases hstep with
    | sendTo hs hp =>
      obtain ⟨rfl, rfl, rfl, rfl⟩ := Entry.sent.inj (List.cons.inj hlog).1
      exact ⟨load, rest, rfl, htodo⟩
    | reload hl => cases (List.cons.inj hlog).1
    | finish => cases (List.cons.inj hlog).1
    | _ => exact (same rfl).elim

end Daemon

end Vigil
