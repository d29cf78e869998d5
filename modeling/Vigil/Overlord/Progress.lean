import Vigil.Overlord.Wiring
import Vigil.Service.Turn

/-!
# Steps that can be taken

What an actor needs to finish its turn is room in the event channel for what it still has to send
(`Daemon.exists_turn`), and what a request needs to be taken up is an actor that is at its loop head
with an empty mailbox (`Daemon.reaches_asked`). The runs keep to the order of `biased` `select!`.
-/

namespace Vigil.Daemon

open Runs
open Actor (Input)

variable {s : Daemon} {id : ℕ} {slot : Slot}

/-- The state in which an actor's slot has changed and events have been sent. -/
def sent (s : Daemon) (id : ℕ) (slot : Slot) (evs : List Event) : Daemon :=
  { s.setSlot id slot with events := s.events ++ evs }

/-- The slot is the one that was put there. -/
theorem getElem?_sent (hs : s.slots[id]? = some slot) (slot' : Slot) (evs : List Event) :
    (s.sent id slot' evs).slots[id]? = some slot' := by
  have hlt := (List.getElem?_eq_some_iff.mp hs).1
  simp only [sent, setSlot]
  rw [List.getElem?_set_self hlt]

/-- Two changes of one slot are the later one, with the events of both. -/
theorem sent_sent (slot' slot'' : Slot) (evs evs' : List Event) :
    (s.sent id slot' evs).sent id slot'' evs' = s.sent id slot'' (evs ++ evs') := by
  simp only [sent, setSlot, List.set_set, List.append_assoc]

/-- A slot that is set to what it is, without events, changes nothing. -/
theorem sent_self (hs : s.slots[id]? = some slot) : s.sent id slot [] = s := by
  obtain ⟨hlt, heq⟩ := List.getElem?_eq_some_iff.mp hs
  simp only [sent, setSlot, List.append_nil, ← heq, List.set_getElem_self]

/-- The answer that a list of actions leaves. -/
def lastAnswer (answer : Option Bool) : List Instr → Option Bool
  | [] => answer
  | .reply ok :: is => lastAnswer (some ok) is
  | _ :: is => lastAnswer answer is

/-- The slot once the event in the outbox has been delivered. -/
def flushed (slot : Slot) : Slot := { slot with task := { slot.task with outbox := none } }

/-- If there is room, the event in the outbox is delivered. -/
theorem exists_delivery (hs : s.slots[id]? = some slot)
    (hroom : s.events.length + slot.task.outbox.toList.length ≤ eventCapacity) :
    ∃ evs, Reaches step Biased s (s.sent id (flushed slot) evs) ∧
      evs.length = slot.task.outbox.toList.length := by
  cases ho : slot.task.outbox with
  | none =>
    have hsame : flushed slot = slot := by rw [flushed, ← ho]
    exact ⟨[], by rw [hsame, sent_self hs]; exact .refl, rfl⟩
  | some k =>
    rw [ho] at hroom
    refine ⟨[⟨id, slot.task.actor.name, k.1, k.2⟩], .single (l := .deliver id) trivial ?_, rfl⟩
    have hlt : s.events.length < eventCapacity := hroom
    simp only [step, hs, Option.bind_some, ho, if_pos hlt, Task.deliver, Option.map_some, sent,
      flushed]

/-- A plain action can be done as soon as nothing waits in the outbox. -/
theorem exists_action {i : Instr} {rest : List Instr} (hs : s.slots[id]? = some slot)
    (ho : slot.task.outbox = none) (ht : slot.task.todo = i :: rest) (hp : i.isPlain = true) :
    ∃ t', slot.task.act s.now = some t' ∧ t'.todo = rest ∧ t'.ended = slot.task.ended ∧
      Reaches step Biased s (s.sent id { slot with task := t', answer := slot.nextAnswer } []) := by
  have hact : slot.task.act s.now = some (slot.task.perform s.now i rest) :=
    Task.act_eq_some_iff.mpr ⟨ho, i, rest, ht, by cases i <;> first | rfl | (cases hp), rfl⟩
  have hcan : s.canAct id slot.task = true := by
    rw [canAct, ht]
    cases i <;> first | rfl | (cases hp)
  refine ⟨_, hact, ?_, ?_, .single (l := .act id) trivial ?_⟩
  · cases i <;> first | rfl | (cases hp)
  · cases i <;> first | rfl | (cases hp)
  · simp only [step, hs, Option.bind_some, if_pos hcan, hact, Option.map_some, sent, setSlot,
      List.append_nil]

/-- The next answer, and then those of the rest. -/
theorem lastAnswer_cons {i : Instr} {rest : List Instr} (ht : slot.task.todo = i :: rest) :
    lastAnswer slot.answer (i :: rest) = lastAnswer slot.nextAnswer rest := by
  rw [Slot.nextAnswer, ht]
  cases i <;> rfl

/-- If there is room for all that it has to send, an actor finishes its turn. -/
theorem exists_turn (hs : s.slots[id]? = some slot)
    (hplain : slot.task.todo.all Instr.isPlain = true) (hend : slot.task.ended = false)
    (hroom : s.events.length + slot.task.unsent.length ≤ eventCapacity) :
    ∃ slot' evs, Reaches step Biased s (s.sent id slot' evs) ∧
      evs.length = slot.task.unsent.length ∧ slot'.task.idle = true ∧
      slot'.task.actor = slot.task.settled ∧ slot'.mailbox = slot.mailbox ∧
      slot'.answer = lastAnswer slot.answer slot.task.todo := by
  induction htodo : slot.task.todo generalizing s slot with
  | nil =>
    have hu : slot.task.unsent = slot.task.outbox.toList := by simp [Task.unsent, htodo]
    obtain ⟨evs, hr, hevs⟩ := exists_delivery hs (hu ▸ hroom)
    refine ⟨_, evs, hr, by rw [hevs, hu], by simp [Task.idle, flushed, htodo, hend], ?_,
      rfl, rfl⟩
    simp only [Task.settled, htodo, Actor.execAll_nil, flushed]
  | cons i rest ih =>
    have hu : slot.task.unsent.length =
        slot.task.outbox.toList.length + (flushed slot).task.unsent.length := by
      simp [Task.unsent, flushed]
    rw [htodo, List.all_cons, Bool.and_eq_true] at hplain
    obtain ⟨evs, hr, hevs⟩ := exists_delivery hs (by omega)
    obtain ⟨t', hact, ht', he', hr'⟩ :=
      exists_action (getElem?_sent hs (flushed slot) evs) rfl htodo hplain.1
    rw [sent_sent, List.append_nil] at hr'
    have hu' := congrArg List.length (Task.unsent_act hact)
    obtain ⟨slot', evs', hr'', hevs', hidle, hactor, hbox, hanswer⟩ :=
      ih (getElem?_sent hs { slot with task := t', answer := slot.nextAnswer } evs)
        (by rw [ht']; exact hplain.2) (he'.trans hend)
        (by simp only [sent, List.length_append]; omega) ht'
    rw [sent_sent] at hr''
    refine ⟨slot', evs ++ evs', hr.trans (hr'.trans hr''), ?_, hidle, ?_, hbox, ?_⟩
    · rw [List.length_append, hevs', hu, hevs, hu']
    · rw [hactor, Task.settled_act hact]; rfl
    · rw [hanswer]
      exact (lastAnswer_cons htodo).symm

/-- The state in which an actor has begun its turn for a command that the overlord waits for. -/
def asked (s : Daemon) (name : String) (id : ℕ) (slot : Slot) (c : Cmd) (why : Reason) (ok : Bool)
    (rest : List Overlord.Instr) : Daemon :=
  { s.setSlot id
      { slot with task := { slot.task with todo := slot.task.actor.script (.cmd c ok) } } with
    todo := .await id :: rest
    log := .sent name id c why :: s.log }

/-- The slot of the actor that has begun its turn. -/
theorem getElem?_asked (name : String) (c : Cmd) (why : Reason) (ok : Bool)
    (rest : List Overlord.Instr) (hs : s.slots[id]? = some slot) :
    (s.asked name id slot c why ok rest).slots[id]? =
      some { slot with task := { slot.task with todo := slot.task.actor.script (.cmd c ok) } } :=
  List.getElem?_set_self (List.getElem?_eq_some_iff.mp hs).1

/-- A request reaches an actor that is at its loop head with an empty mailbox. -/
theorem reaches_asked {name : String} {c : Cmd} {why : Reason} {rest : List Overlord.Instr}
    (ok : Bool) (htodo : s.todo = .request name c why :: rest)
    (hid : s.overlord.idOf name = some id) (hs : s.slots[id]? = some slot)
    (hidle : slot.task.idle = true) (hbox : slot.mailbox = []) :
    Reaches step Biased s (s.asked name id slot c why ok rest) := by
  obtain ⟨e, he, rfl⟩ := Overlord.idOf_eq_some_iff.mp hid
  have hend : slot.task.ended = false := by
    simp only [Task.idle, Bool.and_eq_true, Bool.not_eq_true'] at hidle
    exact hidle.2
  have hlt := (List.getElem?_eq_some_iff.mp hs).1
  have hpush : slot.push c = some { slot with mailbox := [c] } := by
    rw [Slot.push, hend, hbox]; rfl
  refine .head (l := .overlord none) trivial
    (s := { s with todo := .sendTo name e.id c why :: .await e.id :: rest }) ?_
    (.head (l := .overlord none) trivial
      (s := { s.setSlot e.id { slot with mailbox := [c] } with
        todo := .await e.id :: rest, log := .sent name e.id c why :: s.log }) ?_
      (.single (l := .input e.id (.cmd c ok)) trivial ?_))
  · simp only [step, overlordStep, htodo, he]
  · simp only [step, overlordStep, hs, Option.bind_some, hpush, Option.map_some]
    rfl
  · have htake : slot.task.take s.now (.cmd c ok) =
        some { slot.task with todo := slot.task.actor.script (.cmd c ok) } :=
      Task.take_eq_some_iff.mpr ⟨hidle, rfl, rfl⟩
    simp only [step, setSlot, List.getElem?_set_self hlt, Option.bind_some, admits, List.head?_cons,
      decide_true, if_true, htake, Option.map_some, Slot.nextMailbox, List.tail_cons, List.set_set,
      asked, hbox]

end Vigil.Daemon
