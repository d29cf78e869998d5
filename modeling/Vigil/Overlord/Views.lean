import Vigil.Overlord.Reports

/-!
# The overlord's view of its services

An event names the service and not the actor, so a report of an actor that a reload has removed is
taken for one of the actor that a later reload has spawned for the service. As long as every report
that is handled comes from the actor that the overlord holds (`Daemon.Current`), the snapshots are
the states of the actors whenever all queues are empty (`Daemon.faithful_of_reaches`). A service
that is removed and added again while reports of its first actor are in the channel has a snapshot
that stays wrong (`Daemon.exists_unfaithful`).
-/

namespace Vigil.Daemon

open Actor (Input)
open Runs

variable {s s' : Daemon} {l : Label}

/-- The report that the overlord handles next is of the actor that it holds for the service. -/
def Current (s : Daemon) : Label → Prop
  | .event => ∀ ev ∈ s.events.head?, ev.kind.state?.isSome = true →
    ∀ id ∈ s.overlord.idOf ev.service, id = ev.src
  | _ => True

instance (l : Label) : Decidable (s.Current l) := by
  unfold Current
  split <;> infer_instance

/-- All queues are empty: no handler is at work, no event is in the channel or about to be sent, and
no actor that is there has a command or anything left to do. -/
structure Quiescent (s : Daemon) : Prop where
  todo : s.todo = []
  events : s.events = []
  tasks : ∀ slot ∈ s.slots, slot.task.todo = [] ∧ slot.task.outbox = none
  mailboxes : ∀ slot ∈ s.slots, slot.task.ended = true ∨ slot.mailbox = []

/-- The snapshot of each service is the state of the actor that the overlord holds for it. -/
def Faithful (s : Daemon) : Prop :=
  ∀ name e, s.overlord.services.get? name = some e →
    ∃ slot, s.slots[e.id]? = some slot ∧ e.state = slot.task.actor.state

/-- The snapshots are reports of the actors that the overlord holds. -/
def Attributed (s : Daemon) : Prop :=
  ∀ name e, s.overlord.services.get? name = some e → e.reporter = e.id

/-- A step that handles no report of an earlier actor keeps the snapshots in order. -/
theorem Attributed.step (H : s.Attributed) (hG : s.Current l) (h : s.step l = some s') :
    s'.Attributed := by
  have same : s'.overlord.services = s.overlord.services → s'.Attributed := fun he name e hget =>
    H name e (he ▸ hget)
  cases handlerStep h with
  | same ho => exact same (by rw [ho])
  | command | check => exact same rfl
  | overlord _ hstep =>
    cases hstep with
    | reload hl =>
      intro name e hget
      rcases (s.overlord.get?_reloadLayers hget).2 with hget | ⟨i, config, -, rfl⟩
      · exact H name e hget
      · rfl
    | _ => exact same rfl
  | @event ev rest _ he =>
    have report : ∀ (o' : Overlord) st, ev.kind = .stateChanged st →
        o'.services = (s.overlord.noted ev st).services →
        ∀ name e, o'.services.get? name = some e → e.reporter = e.id := by
      intro o' st hk hserv name e hget
      rw [hserv, Overlord.get?_noted] at hget
      split_ifs at hget with hn
      · -- The report is of the actor that is held.
        obtain ⟨e₀, he₀, rfl⟩ := Option.map_eq_some_iff.mp hget
        have hid : s.overlord.idOf ev.service = some e₀.id :=
          Overlord.idOf_eq_some_iff.mpr ⟨e₀, hn ▸ he₀, rfl⟩
        have hev : ev ∈ s.events.head? := by rw [he]; rfl
        exact (hG ev hev (by rw [hk]; rfl) e₀.id hid).symm
      · exact H name e hget
    have hstep := s.overlord.eventStep ev
    unfold Attributed
    dsimp only
    generalize (s.overlord.handleSvcEvent ev).1 = o', (s.overlord.handleSvcEvent ev).2 = is
      at hstep ⊢
    cases hstep with
    | started hk hr => exact report _ _ hk rfl
    | stopped hk hs => exact report _ _ hk rfl
    | passed hk hs => exact report _ _ hk rfl
    | exited hk => exact H
    | shutdown hk => exact H

/-- Where the snapshots are reports of the actors that are held, and all queues are empty, the view
is faithful. -/
theorem Attributed.faithful {G : Daemon → Label → Prop} {plan : Plan} (H : s.Attributed)
    (h : Reaches Daemon.step G (init plan) s) (hq : s.Quiescent) : s.Faithful := by
  intro name e hget
  have hw := wired_of_reaches h
  obtain ⟨slot, hs, -⟩ := hw.slot name e.id (Overlord.idOf_eq_some_iff.mpr ⟨e, hget, rfl⟩)
  obtain ⟨htodo, hout⟩ := hq.tasks slot (List.mem_of_getElem? hs)
  have hset : slot.task.settled = slot.task.actor := by
    rw [Task.settled, htodo, Actor.execAll_nil]
  have hu : s.unhandled e.id slot = [] := by
    rw [unhandled, inFlight, hq.events, Task.unreported, Task.unsent, htodo, hout]
    rfl
  refine ⟨slot, hs, ?_⟩
  rw [← hset]
  exact (reported_of_reaches h).state_eq hs (state_of_reaches h hs) hu hget (H name e hget)

/-- In every run in which each report that is handled comes from the actor that the overlord holds
for the service, the view is faithful whenever all queues are empty. -/
theorem faithful_of_reaches {plan : Plan} (h : Reaches step Current (init plan) s)
    (hq : s.Quiescent) : s.Faithful := by
  have hinit : (init plan).Attributed := fun name e hget => by
    obtain ⟨config, -, -, he⟩ := get?_init hget
    exact congrArg ServiceEntry.reporter he
  have H : s.Attributed :=
    h.invariant (P := Attributed) hinit fun s l s' _ H hG hl => H.step hG hl
  exact H.faithful h hq

/-- The labels of an operator's start of the service `web`, whose actor is the first. -/
def operatorStart : List Label := .command (.services .start ["web"]) :: startLabels 0

instance : Decidable s.Quiescent :=
  decidable_of_iff (s.todo = [] ∧ s.events = [] ∧
      (∀ slot ∈ s.slots, slot.task.todo = [] ∧ slot.task.outbox = none) ∧
      ∀ slot ∈ s.slots, slot.task.ended = true ∨ slot.mailbox = [])
    ⟨fun ⟨h₁, h₂, h₃, h₄⟩ => ⟨h₁, h₂, h₃, h₄⟩, fun h => ⟨h.todo, h.events, h.tasks, h.mailboxes⟩⟩

/-- A service that is started, and whose reports are handled, is seen as it is. -/
theorem faithful_after_start :
    ∃ s, Reaches step Current (init (webPlan { command := some "/bin/a" })) s ∧ s.Quiescent ∧
      s.Faithful := by
  have h : (runIf step Current (init (webPlan { command := some "/bin/a" }))
      (operatorStart ++ [.event, .event])).any (fun s : Daemon => decide s.Quiescent) = true := by
    decide +kernel
  obtain ⟨s, hr, h⟩ := Reaches.exists_of_runIf _ h
  have hq := of_decide_eq_true h
  exact ⟨s, hr, hq, faithful_of_reaches hr hq⟩

/-- A service that is started, removed, and added again before the reports of its start are handled.
Then the first actor is told to return, and does. The overlord goes on taking the service for
active, and it has never been started since. -/
theorem exists_unfaithful :
    ∃ s, Reaches step Biased (init (webPlan { command := some "/bin/a" })) s ∧ s.Quiescent ∧
      ¬s.Faithful := by
  have h : (runIf step Biased (init (webPlan { command := some "/bin/a" }))
      (operatorStart ++ [.command .reloadLayers, .overlord (some {}), .overlord none,
        .command .reloadLayers, .overlord (some (webPlan { command := some "/bin/a" })),
        .event, .event, .input 0 (.cmd .shutdown true), .act 0, .act 0, .tick 500, .act 0, .act 0,
        .exit ⟨0, 0, false⟩, .act 0, .act 0])).any (fun s : Daemon =>
      decide s.Quiescent &&
      (s.overlord.services.get? "web").any fun e => decide (e.state = .active) &&
        s.slots[e.id]?.any fun slot : Slot =>
          decide (slot.task.actor.state = .inactive)) = true := by
    decide +kernel
  obtain ⟨s, hr, h⟩ := Reaches.exists_of_runIf _ h
  simp only [Bool.and_eq_true, decide_eq_true_eq, Option.any_eq_true] at h
  obtain ⟨hq, e, he, hactive, slot, hs, hinactive⟩ := h
  refine ⟨s, hr, hq, fun H => ?_⟩
  obtain ⟨slot', hs', hstate⟩ := H "web" e he
  obtain rfl := Option.some.inj (hs.symm.trans hs')
  rw [hactive, hinactive] at hstate
  cases hstate

end Vigil.Daemon
