import Vigil.Overlord.Answers
import Vigil.Service.Kill

/-!
# How the daemon ends

`stop_all` sends every actor a stop and then a shutdown, and the daemon ends as soon as all are
sent. A shutdown makes an actor kill its process after half a second, and nobody waits for that. So
the daemon ends as it should if the shutdowns, those of `stop_all` and those of services that a
reload removes, are sent to actors that have no process any more (`Daemon.Gentle`): then every
process has exited when the daemon ends (`Daemon.graceful_of_reaches`), and no process is killed
before its kill delay is over.
-/

namespace Vigil

open Actor (Effect Input)

/-! ## Exits -/

/-- An action that collects the exit of the held process. -/
def Instr.collects : Instr → Bool
  | .collect | .wait => true
  | _ => false

namespace Actor

variable {a : Actor} {h : List Effect} {p : ℕ}

/-- Without such an action, no exit is collected. -/
theorem collected_of_effects (is : List Instr) (hn : is.all (!·.collects) = true)
    (hm : .collected p ∈ a.effects is h) : .collected p ∈ h := by
  induction is generalizing a h with
  | nil => exact hm
  | cons i is ih =>
    rw [List.all_cons, Bool.and_eq_true] at hn
    rcases List.mem_append.mp (ih hn.2 hm) with hm | hm
    · cases i with
      | collect | wait => cases hn.1
      | stopSignal | sigkill | signal =>
        obtain ⟨q, -, heq⟩ := Option.map_eq_some_iff.mp (Option.mem_toList.mp hm)
        cases heq
      | _ => cases Option.mem_toList.mp hm
    · exact hm

/-- A turn collects an exit only on a child exit and in `cleanup`, and that of the held process. -/
theorem collected_of_script {inp : Input} (hm : .collected p ∈ a.effects (a.script inp) h) :
    .collected p ∈ h ∨ a.child = some p ∧
      ((∃ success ok, inp = .childExit success ok) ∨ ∃ ok, inp = .cmd .shutdown ok) := by
  have hstart : ∀ ok, (a.handleStart ok).all (!·.collects) = true := by
    intro ok
    unfold handleStart doStart
    split_ifs <;> rfl
  cases inp with
  | cmd c ok =>
    cases c with
    | start => exact .inl (collected_of_effects _ (hstart ok) hm)
    | stop =>
      refine .inl (collected_of_effects _ ?_ hm)
      simp only [script]
      unfold handleStop
      cases a.state <;> rfl
    | restart =>
      refine .inl (collected_of_effects _ ?_ hm)
      simp only [script]
      unfold handleRestart
      split_ifs
      · rfl
      · exact hstart ok
    | status => exact .inl hm
    | forwardSignal sig => exact .inl (collected_of_effects [.signal sig] rfl hm)
    | shutdown =>
      simp only [script] at hm
      unfold cleanup at hm
      split_ifs at hm with hc
      · obtain ⟨q, hq⟩ := Option.isSome_iff_exists.mp hc
        simp [effect, exec, hq] at hm
        rcases hm with rfl | hm
        · exact .inr ⟨hq, .inr ⟨ok, rfl⟩⟩
        · exact .inl hm
      · exact .inl (collected_of_effects [.finish] rfl hm)
  | childExit success ok =>
    have hm := collected_of_effects (a := a.exitNoted) ((a.handleChildExit success ok).drop 3) (by
        unfold handleChildExit applyExitPolicy doStart
        repeat' split
        all_goals rfl) hm
    rcases List.mem_append.mp hm with hm | hm
    · cases hm
    · rcases List.mem_append.mp hm with hm | hm
      · obtain ⟨q, hq, heq⟩ := Option.map_eq_some_iff.mp (Option.mem_toList.mp hm)
        cases heq
        exact .inr ⟨hq, .inl ⟨success, ok, rfl⟩⟩
      · exact .inl hm
  | killDeadline =>
    refine .inl (collected_of_effects _ ?_ hm)
    simp only [script]
    unfold handleKillDeadline
    split_ifs <;> rfl
  | backoffExpired ok =>
    refine .inl (collected_of_effects _ ?_ hm)
    simp only [script]
    unfold handleBackoffExpired doStart
    split_ifs <;> rfl

end Actor

/-! ## Actors that have been sent a shutdown -/

namespace Slot

/-- The actor has been sent a shutdown. -/
def Dismissed (slot : Slot) : Prop := slot.task.leaving = true ∨ .shutdown ∈ slot.mailbox

/-- The actor will end without a process: it has none, and takes no start before the shutdown. -/
structure Retired (slot : Slot) : Prop where
  child : slot.task.settled.child = none
  coming : slot.task.leaving = true ∨ ∃ before after,
    slot.mailbox = before ++ .shutdown :: after ∧ ∀ c ∈ before, c.isAnswered = false

variable {slot slot' : Slot}

/-- An actor that has been sent a shutdown has been after further commands. -/
theorem Dismissed.push (h : slot.Dismissed) {c : Cmd} (hp : slot.push c = some slot') :
    slot'.Dismissed := by
  rcases push_cases hp with ⟨-, rfl⟩ | ⟨-, -, rfl⟩
  · exact h
  · exact h.imp_right fun hm => List.mem_append_left _ hm

/-- An actor whose mailbox takes a shutdown has been sent one. -/
theorem dismissed_push (hp : slot.push .shutdown = some slot') : slot'.Dismissed := by
  rcases push_cases hp with ⟨he, rfl⟩ | ⟨-, -, rfl⟩
  · exact .inl (by rw [Task.leaving, he]; rfl)
  · exact .inr (List.mem_append_right _ (List.mem_singleton_self _))

/-- A retired actor that is sent a command is retired. -/
theorem Retired.push (h : slot.Retired) {c : Cmd} (hp : slot.push c = some slot') :
    slot'.Retired := by
  rcases push_cases hp with ⟨-, rfl⟩ | ⟨-, -, rfl⟩
  · exact h
  · refine ⟨h.child, h.coming.imp_right ?_⟩
    rintro ⟨before, after, hbox, hb⟩
    exact ⟨before, after ++ [c], by simp [hbox], hb⟩

/-- The shutdown of an actor without a process and without a start in its mailbox. -/
theorem retired_push (hc : slot.task.settled.child = none)
    (hb : ∀ c ∈ slot.mailbox, c.isAnswered = false) (hp : slot.push .shutdown = some slot') :
    slot'.Retired := by
  rcases push_cases hp with ⟨he, rfl⟩ | ⟨-, -, rfl⟩
  · exact ⟨hc, .inl (by rw [Task.leaving, he]; rfl)⟩
  · exact ⟨hc, .inr ⟨slot.mailbox, [], rfl, hb⟩⟩

/-- A retired actor that takes a command is retired. -/
theorem Retired.take (h : slot.Retired) {now : ℕ} {c : Cmd} {ok : Bool} {t : Task}
    (hbox : slot.mailbox.head? = some c) (ht : slot.task.take now (.cmd c ok) = some t) :
    ({ slot with task := t, mailbox := slot.nextMailbox (.cmd c ok) } : Slot).Retired := by
  obtain ⟨hi, -, -⟩ := Task.take_eq_some_iff.mp ht
  have hset := Task.settled_take ht
  have hleave := Task.leaving_take ht
  obtain ⟨before, after, hmail, hb⟩ :=
    h.coming.resolve_left (by rw [Task.leaving_of_idle hi]; simp)
  cases before with
  | nil =>
    rw [hmail] at hbox
    obtain rfl := Option.some.inj hbox
    refine ⟨?_, .inl ?_⟩
    · simp only [hset, Actor.script, Actor.execAll_cleanup]
    · simp only [hleave]
      exact Actor.finish_mem_cleanup _
  | cons c' before =>
    rw [hmail] at hbox
    obtain rfl := Option.some.inj hbox
    have hc := hb _ List.mem_cons_self
    refine ⟨?_, .inr ⟨before, after, by simp [nextMailbox, hmail],
      fun c hm => hb c (List.mem_cons_of_mem _ hm)⟩⟩
    simp only [hset]
    cases c' with
    | start | stop | restart => cases hc
    | status => exact h.child
    | forwardSignal sig => exact h.child
    | shutdown =>
      simp only [Actor.script, Actor.execAll_cleanup]

end Slot

namespace Daemon

open Runs

variable {s s' : Daemon} {l : Label} {id : ℕ} {slot slot' : Slot}

/-- No start and no restart is taken in `Backoff`, and a shutdown is sent only to an actor that,
when it has done what it has begun, has no process. -/
def Gentle (s : Daemon) : Label → Prop
  | .input id inp => inp.isStart = true → ∀ slot ∈ s.slots[id]?, slot.task.actor.state ≠ .backoff
  | .overlord _ =>
    match s.todo with
    | .sendTo _ id .shutdown _ :: _ => ∀ slot ∈ s.slots[id]?, slot.task.settled.child = none
    | _ => True
  | .stopTask i => ∀ t ∈ s.stopTasks[i]?, t.phase = .shutdown →
    ∀ slot ∈ s.slots[t.id]?, slot.task.settled.child = none
  | _ => True

instance (s : Daemon) (l : Label) : Decidable (s.Gentle l) :=
  match l with
  | .input _ _ | .stopTask _ => by unfold Gentle; infer_instance
  | .overlord _ => by simp only [Gentle]; split <;> infer_instance
  | .tick _ | .exit _ | .act _ | .deliver _ | .command _ | .event | .check _ _ => isTrue trivial

/-- A step leaves a retired actor retired. -/
theorem SlotStep.retired (h : SlotStep s l id slot slot') (hB : s.Biased l)
    (hs : s.slots[id]? = some slot) (H : slot.Retired) : slot'.Retired := by
  cases h with
  | same => exact H
  | act hl hc ht => exact ⟨by rw [Task.settled_act ht]; exact H.child,
      by rw [Task.leaving_act ht]; exact H.coming⟩
  | deliver hl ht => exact ⟨by rw [Task.settled_deliver ht]; exact H.child,
      by rw [Task.leaving_deliver ht]; exact H.coming⟩
  | @input t inp hl hm ht =>
    obtain ⟨hi, -, -⟩ := Task.take_eq_some_iff.mp ht
    subst hl
    -- A command is there, and commands come first.
    have hbox : slot.mailbox ≠ [] := by
      obtain ⟨before, after, hmail, -⟩ :=
        H.coming.resolve_left (by rw [Task.leaving_of_idle hi]; simp)
      simp [hmail]
    cases inp with
    | cmd c ok => exact H.take (of_decide_eq_true hm) ht
    | childExit success ok => exact (hbox (hB slot hs)).elim
    | killDeadline => exact (hbox (hB slot hs).1).elim
    | backoffExpired ok => exact (hbox (hB slot hs).1).elim
  | sent hl htodo hp => exact H.push hp
  | answered hl htodo ha =>
    obtain ⟨-, rfl⟩ := Slot.takeAnswer_cases ha
    exact ⟨H.child, H.coming⟩
  | stopTask hl hi hid hp =>
    rcases hp.inv with ⟨-, hp, -⟩ | ⟨-, ha, -⟩ | ⟨-, hp, -⟩
    · exact H.push hp
    · obtain ⟨-, rfl⟩ := Slot.takeAnswer_cases ha
      exact ⟨H.child, H.coming⟩
    · exact H.push hp

/-- A step leaves an actor that has been sent a shutdown so. -/
theorem SlotStep.dismissed (h : SlotStep s l id slot slot') (H : slot.Dismissed) :
    slot'.Dismissed := by
  cases h with
  | same => exact H
  | act hl hc ht => exact H.imp_left fun h => by rw [Task.leaving_act ht]; exact h
  | deliver hl ht => exact H.imp_left fun h => by rw [Task.leaving_deliver ht]; exact h
  | @input t inp hl hm ht =>
    obtain ⟨hi, -, -⟩ := Task.take_eq_some_iff.mp ht
    have hmem := H.resolve_left (by rw [Task.leaving_of_idle hi]; simp)
    cases inp with
    | cmd c ok =>
      obtain ⟨rest, hbox⟩ := List.head?_eq_some_iff.mp (of_decide_eq_true hm)
      rw [hbox] at hmem
      rcases List.mem_cons.mp hmem with rfl | hmem
      · left
        simp only [Task.leaving_take ht]
        exact Actor.finish_mem_cleanup _
      · right
        simpa only [Slot.nextMailbox, hbox, List.tail_cons] using hmem
    | _ => exact .inr hmem
  | sent hl htodo hp => exact H.push hp
  | answered hl htodo ha =>
    obtain ⟨-, rfl⟩ := Slot.takeAnswer_cases ha
    exact H
  | stopTask hl hi hid hp =>
    rcases hp.inv with ⟨-, hp, -⟩ | ⟨-, ha, -⟩ | ⟨-, hp, -⟩
    · exact H.push hp
    · obtain ⟨-, rfl⟩ := Slot.takeAnswer_cases ha
      exact H
    · exact H.push hp

/-- An actor that a step makes one that has been sent a shutdown is sent it by the step, in the
overlord's handler or by a task of `stop_all`. -/
theorem SlotStep.dismissed_cases (h : SlotStep s l id slot slot') (H : slot'.Dismissed) :
    slot.Dismissed ∨ slot.push .shutdown = some slot' ∧
      ((∃ load name why rest, l = .overlord load ∧ s.todo = .sendTo name id .shutdown why :: rest) ∨
        ∃ i t, l = .stopTask i ∧ s.stopTasks[i]? = some t ∧ t.id = id ∧ t.phase = .shutdown) := by
  -- A push of another command changes nothing in this.
  have push : ∀ {c : Cmd}, slot.push c = some slot' → c ≠ .shutdown → slot.Dismissed := by
    intro c hp hc
    rcases Slot.push_cases hp with ⟨-, rfl⟩ | ⟨-, -, rfl⟩
    · exact H
    · refine H.imp_right fun hm => ?_
      rcases List.mem_append.mp hm with hm | hm
      · exact hm
      · exact (hc (List.mem_singleton.mp hm).symm).elim
  cases h with
  | same => exact .inl H
  | act hl hc ht => exact .inl (H.imp_left fun h => by rw [← Task.leaving_act ht]; exact h)
  | deliver hl ht => exact .inl (H.imp_left fun h => by rw [← Task.leaving_deliver ht]; exact h)
  | @input t inp hl hm ht =>
    refine .inl (.inr ?_)
    rcases H with hleave | hmem
    · obtain ⟨ok, rfl⟩ := Task.eq_shutdown_of_leaving ht hleave
      exact List.mem_of_head? (of_decide_eq_true hm)
    · cases inp with
      | cmd c ok => exact List.mem_of_mem_tail hmem
      | _ => exact hmem
  | @sent name c why rest load slot' hl htodo hp =>
    by_cases hc : c = .shutdown
    · subst hc
      exact .inr ⟨hp, .inl ⟨load, name, why, rest, hl, htodo⟩⟩
    · exact .inl (push hp hc)
  | answered hl htodo ha =>
    obtain ⟨-, rfl⟩ := Slot.takeAnswer_cases ha
    exact .inl H
  | stopTask hl hi hid hp =>
    rcases hp.inv with ⟨-, hp, -⟩ | ⟨-, ha, -⟩ | ⟨hph, hp, -⟩
    · exact .inl (push hp nofun)
    · obtain ⟨-, rfl⟩ := Slot.takeAnswer_cases ha
      exact .inl H
    · exact .inr ⟨hp, .inr ⟨_, _, hl, hi, hid, hph⟩⟩

/-- Between two calls of the overlord, no actor has a command to answer in its mailbox. -/
theorem Answered.isAnswered_of_awaited (H : s.Answered) (hs : s.slots[id]? = some slot)
    (he : slot.task.ended = false) (ha : s.awaited id = 0) :
    ∀ c ∈ slot.mailbox, c.isAnswered = false := by
  have howed := H.owed _ _ hs he
  have hzero : slot.mailbox.countP Cmd.isAnswered = 0 := by
    rw [ha, Slot.owed] at howed
    omega
  intro c hc
  simpa using List.countP_eq_zero.mp hzero c hc

/-- A shutdown is sent by nobody who waits for the actor, and while nobody else does. -/
theorem Answered.awaited_of_shutdown (H : s.Answered)
    (h : (∃ load name why rest,
        l = .overlord load ∧ s.todo = .sendTo name id .shutdown why :: rest) ∨
      ∃ i t, l = .stopTask i ∧ s.stopTasks[i]? = some t ∧ t.id = id ∧ t.phase = .shutdown) :
    s.awaited id = 0 := by
  rcases h with ⟨load, name, why, rest, -, htodo⟩ | ⟨i, t, -, hi, rfl, hph⟩
  · exact awaited_of_done (H.done fun code hc => by rw [hc] at htodo; cases htodo)
      (by rw [htodo]; nofun)
  · obtain ⟨code, hcode⟩ :=
      (H.joining t (List.mem_of_getElem? hi)).resolve_left (by rw [hph]; nofun)
    refine awaited_eq_zero (by rw [hcode]; nofun) fun u hu hid => ?_
    -- There is one task for each actor.
    rw [List.inj_on_of_nodup_map H.nodup hu (List.mem_of_getElem? hi) hid, hph]
    nofun

/-- Actors that have been sent a shutdown are retired. -/
def Retiring (s : Daemon) : Prop :=
  ∀ (id : ℕ) (slot : Slot), s.slots[id]? = some slot → slot.Dismissed → slot.Retired

/-- After a gentle step the actors that have been sent a shutdown are retired. -/
theorem Retiring.step (H : s.Retiring) (hA : s.Answered) (hB : s.Biased l) (hG : s.Gentle l)
    (h : s.step l = some s') : s'.Retiring := by
  intro id slot' hs' hd'
  rcases slot_step h hs' with ⟨slot, hs, hstep⟩ | ⟨-, e, rfl, -⟩
  · rcases hstep.dismissed_cases hd' with hd | ⟨hp, hwho⟩
    · exact hstep.retired hB hs (H _ _ hs hd)
    · have hchild : slot.task.settled.child = none := by
        rcases hwho with ⟨load, name, why, rest, rfl, htodo⟩ | ⟨i, t, rfl, hi, rfl, hph⟩
        · simp only [Gentle, htodo] at hG
          exact hG slot hs
        · exact hG t hi hph slot hs
      cases he : slot.task.ended with
      | false =>
        exact Slot.retired_push hchild
          (hA.isAnswered_of_awaited hs he (hA.awaited_of_shutdown hwho)) hp
      | true =>
        have hd : slot.Dismissed := .inl (by rw [Task.leaving, he]; rfl)
        exact (H _ _ hs hd).push hp
  · rcases hd' with hl | hm
    · cases hl
    · exact absurd hm List.not_mem_nil

/-- An exit is an exit for good. -/
theorem exited_step {id p : ℕ} (h : s.step l = some s') (he : s.exited id p = true) :
    s'.exited id p = true := by
  have same : s'.exits = s.exits → s'.exited id p = true := fun hx => by rw [exited, hx]; exact he
  cases l with
  | tick d => exact same (Option.some.inj h ▸ rfl)
  | exit e =>
    obtain ⟨-, -, rfl⟩ := step_exit h
    rw [exited, List.any_cons, Bool.or_eq_true]
    exact .inr he
  | act i => obtain ⟨slot, t, -, -, -, rfl⟩ := step_act h; exact same rfl
  | deliver i => obtain ⟨slot, t, k, -, -, -, -, rfl⟩ := step_deliver h; exact same rfl
  | input i inp => obtain ⟨slot, t, -, -, -, rfl⟩ := step_input h; exact same rfl
  | command c => obtain ⟨-, rfl⟩ := step_command h; exact same rfl
  | event => obtain ⟨-, ev, rest, -, rfl⟩ := step_event h; exact same rfl
  | check name status => obtain ⟨-, rfl⟩ := step_check h; exact same rfl
  | stopTask i => obtain ⟨t, slot, slot', phase, -, -, -, rfl⟩ := step_stopTask h; exact same rfl
  | overlord load =>
    obtain ⟨i, rest, -, hstep⟩ := step_overlord h
    cases hstep <;> exact same rfl

/-- The exits that actors have collected, or will at the end of their turns, have happened. -/
def Collecting (s : Daemon) : Prop :=
  ∀ (id : ℕ) (slot : Slot), s.slots[id]? = some slot →
    ∀ p, .collected p ∈ slot.task.history → s.exited id p = true

/-- A step keeps it so where retired actors have no process. -/
theorem Collecting.step (H : s.Collecting) (hR : s.Retiring) (h : s.step l = some s') :
    s'.Collecting := by
  intro id slot' hs' p hp
  rcases slot_step h hs' with ⟨slot, hs, hstep⟩ | ⟨-, e, rfl, -⟩
  · refine exited_step h ?_
    cases hstep with
    | act hl hc ht => rw [Task.history_act ht] at hp; exact H _ _ hs p hp
    | deliver hl ht => rw [Task.history_deliver ht] at hp; exact H _ _ hs p hp
    | @input t inp hl hm ht =>
      obtain ⟨hi, -, -⟩ := Task.take_eq_some_iff.mp ht
      rw [Task.history_take ht] at hp
      rcases Actor.collected_of_script hp with hp | ⟨hc, hinp⟩
      · exact H _ _ hs p hp
      · rcases hinp with ⟨success, ok, rfl⟩ | ⟨ok, rfl⟩
        · rw [Task.settled_of_idle hi] at hc
          simp only [admits, hc, Option.any_some, List.contains_iff_mem] at hm
          exact List.any_eq_true.mpr ⟨_, hm, by simp⟩
        · have hd : slot.Dismissed := .inr (List.mem_of_head? (of_decide_eq_true hm))
          rw [(hR _ _ hs hd).child] at hc
          cases hc
    | same => exact H _ _ hs p hp
    | sent hl htodo hpush => rw [Slot.task_push hpush] at hp; exact H _ _ hs p hp
    | answered hl htodo ha => rw [Slot.task_takeAnswer ha] at hp; exact H _ _ hs p hp
    | stopTask hl hi hid hph => rw [hph.task] at hp; exact H _ _ hs p hp
  · exact absurd hp List.not_mem_nil

/-! ## Nobody is forgotten -/

/-- The actor is still to be sent a shutdown: it is a service's and the daemon does not end yet, or
the handler will send it one, or a task of `stop_all` will. -/
inductive Due (s : Daemon) (id : ℕ) : Prop
  | served {name : String} (hid : s.overlord.idOf name = some id)
    (hj : ∀ code, s.todo ≠ [.join, .finish code]) (hf : ∀ code, s.todo ≠ [.finish code])
  | removed {name : String} {why : Reason} (hm : .sendTo name id .shutdown why ∈ s.todo)
  | stopping {code : Option ℤ} {t : StopTask} (hj : s.todo = [.join, .finish code])
    (ht : t ∈ s.stopTasks) (hid : t.id = id) (hp : t.phase ≠ .done)

/-- Every actor has been sent a shutdown, or is to be sent one before the daemon ends. -/
def Watching (s : Daemon) : Prop :=
  ∀ (id : ℕ) (slot : Slot), s.slots[id]? = some slot →
    slot.Dismissed ∨ s.ended = false ∧ s.Due id

/-- A handler is not what is left at the end of the daemon. -/
theorem due_of_handler {name : String} (hh : Overlord.Handler s.todo)
    (hid : s.overlord.idOf name = some id) : s.Due id :=
  .served hid hh.ne_joining fun code hc => by rw [hc] at hh; cases hh with | call hi h => cases hi

/-- A step that leaves the overlord and the tasks of `stop_all` leaves what is due. -/
theorem Due.mono (h : s.Due id) (hid : ∀ name, s'.overlord.idOf name = s.overlord.idOf name)
    (ht : s'.todo = s.todo) (hstop : s'.stopTasks = s.stopTasks) : s'.Due id := by
  cases h with
  | served h hj hf => exact .served ((hid _).trans h) (ht ▸ hj) (ht ▸ hf)
  | removed hm => exact .removed (ht ▸ hm)
  | stopping hj hm hid hp => exact .stopping (ht ▸ hj) (hstop ▸ hm) hid hp

/-- The next action of a task of `stop_all` leaves what is due, or sends the shutdown. -/
theorem Due.step_stopTask (h : s.Due id) (hA : s.Answered) {i : ℕ} {t : StopTask}
    {slot₀ slot₁ : Slot} {phase : StopPhase} (hi : s.stopTasks[i]? = some t)
    (hs : s.slots[t.id]? = some slot₀) (hp : StopStep slot₀ t.phase slot₁ phase)
    (hs' : (s.setSlot t.id slot₁).slots[id]? = some slot') :
    slot'.Dismissed ∨
      Due { s.setSlot t.id slot₁ with stopTasks := s.stopTasks.set i { t with phase } } id := by
  have hmem : t ∈ s.stopTasks := List.mem_of_getElem? hi
  obtain ⟨code, hcode⟩ := (hA.joining t hmem).resolve_left fun hd => by rw [hd] at hp; cases hp
  cases h with
  | served h hj hf => exact (hj code hcode).elim
  | removed hm => rw [hcode] at hm; simp at hm
  | @stopping code u hj hu hid hph =>
    obtain ⟨j, hlt, hget⟩ := List.mem_iff_getElem.mp hu
    have hlt' : i < s.stopTasks.length := (List.getElem?_eq_some_iff.mp hi).1
    by_cases hji : j = i
    · have heq : u = t := by
        subst hji
        exact Option.some.inj ((List.getElem?_eq_some_iff.mpr ⟨hlt, hget⟩).symm.trans hi)
      subst heq
      have hnew : { u with phase } ∈ s.stopTasks.set i { u with phase } :=
        List.mem_of_getElem? (List.getElem?_set_self hlt')
      rcases hp.inv with ⟨-, -, rfl⟩ | ⟨-, -, rfl⟩ | ⟨-, hpush, -⟩
      · exact .inr (.stopping hj hnew hid nofun)
      · exact .inr (.stopping hj hnew hid nofun)
      · rcases getElem?_setSlot hs' with ⟨-, rfl⟩ | ⟨hne, -⟩
        · exact .inl (Slot.dismissed_push hpush)
        · exact (hne hid.symm).elim
    · refine .inr (.stopping hj (List.mem_of_getElem? (i := j) ?_) hid hph)
      simp only
      rw [List.getElem?_set_ne (Ne.symm hji), List.getElem?_eq_some_iff]
      exact ⟨hlt, hget⟩

/-- An action of the overlord's that is not the shutdown leaves what is due. -/
theorem Due.rest (h : s.Due id) {i : Overlord.Instr} {rest : List Overlord.Instr}
    (htodo : s.todo = i :: rest) (hi : ∀ name why, i ≠ .sendTo name id .shutdown why)
    (hid : ∀ name, s'.overlord.idOf name = s.overlord.idOf name) (hsub : ∀ j ∈ rest, j ∈ s'.todo)
    (hj : ∀ code, s.todo ≠ [.join, .finish code]) (hj' : ∀ code, s'.todo ≠ [.join, .finish code])
    (hf' : ∀ code, s'.todo ≠ [.finish code]) : s'.Due id := by
  cases h with
  | served h _ _ => exact .served ((hid _).trans h) hj' hf'
  | removed hm =>
    rw [htodo] at hm
    rcases List.mem_cons.mp hm with rfl | hm
    · exact (hi _ _ rfl).elim
    · exact .removed (hsub _ hm)
  | stopping h _ _ _ => exact (hj _ h).elim

/-- A handler goes on with the rest. -/
theorem Due.tail (h : s.Due id) {i : Overlord.Instr} {rest : List Overlord.Instr}
    (hh : Overlord.Handler (i :: rest)) (htodo : s.todo = i :: rest) (hstop : i ≠ .stopAll)
    (hi : ∀ name why, i ≠ .sendTo name id .shutdown why)
    (hid : ∀ name, s'.overlord.idOf name = s.overlord.idOf name) (ht : s'.todo = rest) :
    s'.Due id := by
  have hrest : Overlord.Handler s'.todo := ht ▸ hh.tail hstop
  exact h.rest htodo hi hid (fun _ hm => ht ▸ hm) (htodo ▸ hh).ne_joining hrest.ne_joining
    hrest.ne_finishing

/-- The next action of the overlord's handler leaves what is due, or sends the shutdown. -/
theorem Due.step_overlord (h : s.Due id) (hA : s.Answered) {load : Option Plan}
    {i : Overlord.Instr} {rest : List Overlord.Instr} (htodo : s.todo = i :: rest)
    (hstep : OverlordStep s load i rest s') (he : s.ended = false)
    (hs' : s'.slots[id]? = some slot') : slot'.Dismissed ∨ s'.ended = false ∧ s'.Due id := by
  have hhand := hA.handling
  rw [htodo] at hhand
  cases hstep with
  | unknown hn =>
    cases hhand with
    | handler hh => exact .inr ⟨he, h.tail hh htodo (by simp) (by simp) (fun _ => rfl) rfl⟩
  | request hn =>
    cases hhand with
    | handler hh =>
      exact .inr ⟨he, h.rest htodo (by simp) (fun _ => rfl)
        (fun _ hm => List.mem_cons_of_mem _ (List.mem_cons_of_mem _ hm)) (htodo ▸ hh).ne_joining
        (by simp) (by simp)⟩
  | @sendTo name id' c why rest slot₀ slot₁ hs hp =>
    -- Either it is the shutdown that is due, or the handler goes on.
    by_cases hown : c = .shutdown ∧ id' = id
    · obtain ⟨rfl, rfl⟩ := hown
      rcases getElem?_setSlot (s := s) hs' with ⟨-, rfl⟩ | ⟨hne, -⟩
      · exact .inl (Slot.dismissed_push hp)
      · exact (hne rfl).elim
    · have hi : ∀ name' why', Overlord.Instr.sendTo name id' c why ≠
          .sendTo name' id .shutdown why' := by
        rintro name' why' heq
        cases heq
        exact hown ⟨rfl, rfl⟩
      cases hhand with
      | handler hh => exact .inr ⟨he, h.tail hh htodo (by simp) hi (fun _ => rfl) rfl⟩
      | asking hc hrest =>
        exact .inr ⟨he, h.rest htodo hi (fun _ => rfl) (fun _ hm => hm)
          (fun code hc => by rw [hc] at htodo; cases htodo) (by simp) (by simp)⟩
  | await hs ha =>
    have hj : ∀ code, s.todo ≠ [.join, .finish code] := fun code hc => by
      rw [hc] at htodo; cases htodo
    cases hhand with
    | handler hh => cases hh with | call hi h => cases hi
    | waiting hrest =>
      exact .inr ⟨he, h.rest htodo (by simp) (fun _ => rfl) (fun _ hm => hm) hj hrest.ne_joining
        hrest.ne_finishing⟩
  | enable =>
    cases hhand with
    | handler hh => exact .inr ⟨he, h.tail hh htodo (by simp) (by simp) (fun _ => rfl) rfl⟩
  | reloadFailed hl =>
    cases hhand with
    | handler hh => exact .inr ⟨he, h.tail hh htodo (by simp) (by simp) (fun _ => rfl) rfl⟩
  | @reload rest plan hl =>
    cases hhand with
    | handler hh =>
      have hnew := s.overlord.handler_reloadLayers plan s.slots.length (hh.tail nofun)
      refine .inr ⟨he, ?_⟩
      cases h with
      | served hid _ _ =>
        -- A reload keeps the actor, or its own actions send it the shutdown.
        rcases s.overlord.idOf_reloadLayers plan s.slots.length hid with h | hm
        · exact due_of_handler hnew h
        · exact .removed (List.mem_append_left _ hm)
      | removed hm =>
        rw [htodo] at hm
        exact .removed (List.mem_append_right _ ((List.mem_cons.mp hm).resolve_left nofun))
      | stopping hj _ _ _ => rw [hj] at htodo; cases htodo
  | stopAll =>
    cases hhand with
    | handler hh =>
      cases hh with
      | call hi h => cases hi
      | shutdown code =>
        refine .inr ⟨he, ?_⟩
        cases h with
        | served hid _ _ =>
          obtain ⟨e, hget, rfl⟩ := Overlord.idOf_eq_some_iff.mp hid
          exact .stopping rfl
            (List.mem_map.mpr ⟨_, IndexMap.get?_eq_some_iff.mp hget, rfl⟩) rfl nofun
        | removed hm => rw [htodo] at hm; simp at hm
        | stopping hj _ _ _ => rw [hj] at htodo; cases htodo
  | join hd =>
    cases hhand with
    | handler hh => cases hh with | call hi h => cases hi
    | joining code =>
      cases h with
      | served _ hj _ => exact (hj code htodo).elim
      | removed hm => rw [htodo] at hm; simp at hm
      | stopping _ ht _ hp => exact (hp (hd _ ht)).elim
  | finish =>
    cases hhand with
    | handler hh => cases hh with | call hi h => cases hi
    | finishing code =>
      cases h with
      | served _ _ hf => exact (hf _ htodo).elim
      | removed hm => rw [htodo] at hm; simp at hm
      | stopping hj _ _ _ => rw [hj] at htodo; cases htodo

/-- A step leaves what is due, or sends the shutdown. -/
theorem Due.step (H : s.Due id) (hA : s.Answered) (he : s.ended = false) (h : s.step l = some s')
    (hs' : s'.slots[id]? = some slot') : slot'.Dismissed ∨ s'.ended = false ∧ s'.Due id := by
  -- Where a handler begins, the actor is a service's.
  have begin : ∀ {todo : List Overlord.Instr}, s.atHead = true → s'.todo = todo →
      Overlord.Handler todo → (∀ name, s'.overlord.idOf name = s.overlord.idOf name) →
        s'.Due id := by
    intro todo hhead ht hh hid
    simp only [atHead, Bool.and_eq_true, List.isEmpty_iff] at hhead
    cases H with
    | served h _ _ => exact due_of_handler (ht ▸ hh) ((hid _).trans h)
    | removed hm => rw [hhead.1] at hm; exact absurd hm List.not_mem_nil
    | stopping hj _ _ _ => rw [hj] at hhead; cases hhead.1
  cases l with
  | tick d =>
    obtain rfl := Option.some.inj h
    exact .inr ⟨he, H.mono (fun _ => rfl) rfl rfl⟩
  | exit e =>
    obtain ⟨-, -, rfl⟩ := step_exit h
    exact .inr ⟨he, H.mono (fun _ => rfl) rfl rfl⟩
  | act i =>
    obtain ⟨slot, t, -, -, -, rfl⟩ := step_act h
    exact .inr ⟨he, H.mono (fun _ => rfl) rfl rfl⟩
  | deliver i =>
    obtain ⟨slot, t, k, -, -, -, -, rfl⟩ := step_deliver h
    exact .inr ⟨he, H.mono (fun _ => rfl) rfl rfl⟩
  | input i inp =>
    obtain ⟨slot, t, -, -, -, rfl⟩ := step_input h
    exact .inr ⟨he, H.mono (fun _ => rfl) rfl rfl⟩
  | command c =>
    obtain ⟨hh, rfl⟩ := step_command h
    exact .inr ⟨he, begin hh rfl (s.overlord.handler_handleCmd c) fun _ => rfl⟩
  | event =>
    obtain ⟨hh, ev, rest, -, rfl⟩ := step_event h
    exact .inr ⟨he, begin hh rfl (s.overlord.handler_handleSvcEvent ev)
      (s.overlord.idOf_handleSvcEvent ev)⟩
  | check name status =>
    obtain ⟨hh, rfl⟩ := step_check h
    exact .inr ⟨he, begin hh rfl (s.overlord.handler_handleCheckEvent name status) fun _ => rfl⟩
  | stopTask i =>
    obtain ⟨t, slot₀, slot₁, phase, hi, hs, hp, rfl⟩ := Daemon.step_stopTask h
    exact (H.step_stopTask hA hi hs hp hs').imp_right fun hd => ⟨he, hd⟩
  | overlord load =>
    obtain ⟨i, rest, htodo, hstep⟩ := Daemon.step_overlord h
    exact H.step_overlord hA htodo hstep he hs'

/-- After every step, each actor has been sent a shutdown or is to be sent one. -/
theorem Watching.step (H : s.Watching) (hA : s.Answered) (hE : s.ended = true → s.todo = [])
    (h : s.step l = some s') : s'.Watching := by
  intro id slot' hs'
  rcases slot_step h hs' with ⟨slot, hs, hstep⟩ | ⟨hge, e, rfl, plan, rest, rfl, htodo, hnew⟩
  · rcases H _ _ hs with hd | ⟨he, hd⟩
    · exact .inl (hstep.dismissed hd)
    · exact hd.step hA he h hs'
  · -- A new actor is its service's.
    obtain ⟨i, rest', htodo', hstep⟩ := Daemon.step_overlord h
    rw [htodo] at htodo'
    obtain ⟨rfl, rfl⟩ := List.cons.inj htodo'
    have hhand := hA.handling
    rw [htodo] at hhand
    cases hstep with
    | reloadFailed hl => cases hl
    | reload hl =>
      obtain rfl := Option.some.inj hl
      have hid := s.overlord.idOf_spawned_reloadLayers hnew
      rw [Nat.add_sub_cancel' hge] at hid
      cases hhand with
      | handler hh =>
        have he : s.ended = false := by
          cases he : s.ended with
          | false => rfl
          | true => rw [hE he] at htodo; cases htodo
        exact .inr ⟨he, due_of_handler (s.overlord.handler_reloadLayers _ _ (hh.tail nofun)) hid⟩

/-! ## The end -/

/-- What a graceful end is: no process was sent `SIGKILL` before the kill delay after the stop
signal was over, and when the overlord's task has ended, every process has exited. -/
structure Graceful (s : Daemon) : Prop where
  kills : ∀ (id : ℕ) (slot : Slot), s.slots[id]? = some slot →
    ∀ time p, (time, .killed p) ∈ slot.task.log →
      Warned slot.task.log slot.task.actor.killDelay p time
  exited : s.ended = true → ∀ (id : ℕ) (slot : Slot), s.slots[id]? = some slot →
    ∀ p spec, .spawned p spec ∈ slot.task.done → s.exited id p = true

/-- The runs whose steps are gentle, in the order of `biased` `select!`. -/
def BiasedGentle (s : Daemon) (l : Label) : Prop := s.Biased l ∧ s.Gentle l

instance (s : Daemon) (l : Label) : Decidable (s.BiasedGentle l) :=
  inferInstanceAs (Decidable (s.Biased l ∧ s.Gentle l))

/-- In such a run, actors that have been sent a shutdown are retired, exits that have been collected
have happened, and nobody is forgotten. -/
theorem parting_of_reaches {plan : Plan} (h : Reaches step BiasedGentle (init plan) s) :
    s.Retiring ∧ s.Collecting ∧ s.Watching := by
  refine h.invariant (P := fun s => s.Retiring ∧ s.Collecting ∧ s.Watching) ⟨?_, ?_, ?_⟩ ?_
  · intro id slot hs hd
    obtain ⟨e, rfl, -⟩ := getElem?_init hs
    rcases hd with hl | hm
    · cases hl
    · exact absurd hm List.not_mem_nil
  · intro id slot hs p hp
    obtain ⟨e, rfl, -⟩ := getElem?_init hs
    exact absurd hp List.not_mem_nil
  · intro id slot hs
    obtain ⟨e, rfl, hid⟩ := getElem?_init hs
    refine .inr ⟨rfl, due_of_handler (.of_calls fun i hi => ?_) hid⟩
    obtain ⟨name, -, rfl⟩ := List.mem_map.mp hi
    rfl
  · rintro s l s' hr ⟨hR, hC, hW⟩ ⟨hB, hG⟩ hl
    have hA := answered_of_reaches hr
    exact ⟨hR.step hA hB hG hl, hC.step hR hl, hW.step hA (todo_of_ended hr) hl⟩

/-- A process that was spawned is uncollected or has been collected. -/
theorem uncollected_or_collected {h : List Effect} {p : ℕ} {spec : SpawnSpec}
    (hm : .spawned p spec ∈ h) : p ∈ uncollected h ∨ .collected p ∈ h := by
  induction h with
  | nil => exact absurd hm List.not_mem_nil
  | cons e h ih =>
    rcases List.mem_cons.mp hm with rfl | hm
    · exact .inl List.mem_cons_self
    · rcases ih hm with hu | hc
      · cases e with
        | spawned q spec' => exact .inl (List.mem_cons_of_mem _ hu)
        | collected q =>
          by_cases hpq : p = q
          · exact .inr (hpq ▸ List.mem_cons_self)
          · exact .inl ((List.mem_erase_of_ne hpq).mpr hu)
        | _ => exact .inl hu
      · exact .inr (List.mem_cons_of_mem _ hc)

/-- In such a run, every actor is spared an early shutdown. -/
theorem reaches_spares {plan : Plan} (h : Reaches step BiasedGentle (init plan) s)
    (hs : s.slots[id]? = some slot) : ∃ name config now,
      Reaches Loop.step Loop.Spares (Loop.init name config now) ⟨s.now, slot.task⟩ := by
  have h' : Reaches step (fun s l => s.Gentle l ∧ s.Retiring) (init plan) s :=
    h.strengthen fun s l hr hG => ⟨hG.2, (parting_of_reaches hr).1⟩
  refine reaches_loop Loop.Spares (fun s id inp slot hG hs hm ht => ?_) (fun s l hl => ?_) h' hs
  · obtain ⟨t, ht⟩ := Option.isSome_iff_exists.mp ht
    obtain ⟨hi, -, -⟩ := Task.take_eq_some_iff.mp ht
    refine ⟨fun hstart => hG.1 hstart slot hs, ?_⟩
    rintro ok rfl
    have hd : slot.Dismissed := .inr (List.mem_of_head? (of_decide_eq_true hm))
    rw [← Task.settled_of_idle hi]
    exact (hG.2 _ _ hs hd).child
  · cases l with
    | input inp => exact (hl inp rfl).elim
    | _ => trivial

/-- In every run in which no actor is asked to start in `Backoff`, and a shutdown is sent only to
actors without a process, the daemon ends gracefully. -/
theorem graceful_of_reaches {plan : Plan} (h : Reaches step BiasedGentle (init plan) s) :
    s.Graceful := by
  obtain ⟨hR, hC, hW⟩ := parting_of_reaches h
  refine ⟨fun id slot hs time p hk => ?_, fun he id slot hs p spec hp => ?_⟩
  · obtain ⟨name, config, now, hloop⟩ := reaches_spares h hs
    exact Loop.warned_of_reaches hloop hk
  · obtain ⟨name, config, now, hloop⟩ := reaches_spares h hs
    have hkept := (Loop.invariant_of_reaches (hloop.mono fun _ _ => Loop.Spares.noStart)).kept
    have hd : slot.Dismissed := (hW _ _ hs).resolve_right fun hw => by rw [he] at hw; cases hw.1
    have hheld : uncollected slot.task.history = [] := by
      rw [hkept.held, (hR _ _ hs hd).child]
      rfl
    rcases uncollected_or_collected (slot.task.done_suffix.subset hp) with hu | hc
    · rw [hheld] at hu
      exact absurd hu List.not_mem_nil
    · exact hC _ _ hs p hc

/-- The process that an effect is the spawn of. -/
def spawnedProcess : Effect → Option ℕ
  | .spawned p _ => some p
  | _ => none

/-- The process that `SIGKILL` is sent to. -/
def killedProcess : Effect → Option ℕ
  | .killed p => some p
  | _ => none

/-- The service is started with the daemon and stopped by the operator, its process exits, and then
the daemon is shut down. -/
theorem graceful_after_stop :
    ∃ s, Reaches step BiasedGentle
        (init (webPlan { command := some "/bin/web", startup := .enabled })) s ∧
      s.ended = true ∧ s.exited 0 0 = true ∧ s.Graceful := by
  have h : (runIf step BiasedGentle
      (init (webPlan { command := some "/bin/web", startup := .enabled }))
      [.overlord none, .overlord none, .input 0 (.cmd .start true), .act 0, .deliver 0, .act 0,
        .act 0, .act 0, .deliver 0, .act 0, .act 0, .act 0, .overlord none, .event, .event,
        .command (.services .stop ["web"]), .overlord none, .overlord none,
        .input 0 (.cmd .stop true), .act 0, .act 0, .deliver 0, .act 0, .act 0, .overlord none,
        .exit ⟨0, 0, true⟩, .input 0 (.childExit true true), .act 0, .deliver 0, .act 0, .act 0,
        .act 0, .deliver 0, .event, .event, .event, .command .shutdown, .overlord none, .stopTask 0,
        .input 0 (.cmd .stop true), .act 0, .stopTask 0, .stopTask 0, .overlord none,
        .overlord none]).any (fun s : Daemon => s.ended && s.exited 0 0) = true := by
    decide +kernel
  obtain ⟨s, hr, h⟩ := Reaches.exists_of_runIf _ h
  rw [Bool.and_eq_true] at h
  exact ⟨s, hr, h.1, h.2, graceful_of_reaches hr⟩

/-- A daemon that is shut down while a service runs. It may end while the process is alive, and the
process may be killed half a second after the stop signal, with a kill delay of five seconds. -/
theorem exists_not_graceful :
    (∃ s, Reaches step Biased
        (init (webPlan { command := some "/bin/web", startup := .enabled })) s ∧
      s.ended = true ∧ ¬s.Graceful) ∧
    ∃ s, Reaches step Biased
        (init (webPlan { command := some "/bin/web", startup := .enabled })) s ∧
      s.ended = false ∧ s.stopTasks ≠ [] ∧ ¬s.Graceful := by
  constructor
  · have h : (runIf step Biased
        (init (webPlan { command := some "/bin/web", startup := .enabled }))
        [.overlord none, .overlord none, .input 0 (.cmd .start true), .act 0, .deliver 0, .act 0,
          .act 0, .act 0, .deliver 0, .act 0, .act 0, .act 0, .overlord none, .event, .event,
          .command .shutdown, .overlord none, .stopTask 0, .input 0 (.cmd .stop true), .act 0,
          .act 0, .deliver 0, .act 0, .act 0, .stopTask 0, .stopTask 0, .overlord none,
          .overlord none]).any (fun s : Daemon =>
        s.ended && !s.exited 0 0 && s.slots[0]?.any fun slot : Slot =>
          slot.task.done.any fun e => decide (spawnedProcess e = some 0)) = true := by
      decide +kernel
    obtain ⟨s, hr, h⟩ := Reaches.exists_of_runIf _ h
    simp only [Bool.and_eq_true, Bool.not_eq_true', Option.any_eq_true, List.any_eq_true,
      decide_eq_true_eq] at h
    obtain ⟨⟨he, hx⟩, slot, hs, e, hmem, hp⟩ := h
    refine ⟨s, hr, he, fun H => ?_⟩
    cases e with
    | spawned p spec =>
      obtain rfl := Option.some.inj hp
      rw [H.exited he 0 slot hs _ _ hmem] at hx
      cases hx
    | _ => cases hp
  · have h : (runIf step Biased
        (init (webPlan { command := some "/bin/web", startup := .enabled }))
        [.overlord none, .overlord none, .input 0 (.cmd .start true), .act 0, .deliver 0, .act 0,
          .act 0, .act 0, .deliver 0, .act 0, .act 0, .act 0, .overlord none, .event, .event,
          .command .shutdown, .overlord none, .stopTask 0, .input 0 (.cmd .stop true), .act 0,
          .act 0, .deliver 0, .act 0, .act 0, .stopTask 0, .stopTask 0,
          .input 0 (.cmd .shutdown true), .act 0, .act 0, .tick 500, .act 0, .act 0]).any
        (fun s : Daemon => !s.ended && !s.stopTasks.isEmpty && s.slots[0]?.any fun slot : Slot =>
          decide (slot.task.actor.killDelay = 5000) && slot.task.log.any fun x =>
            decide (x.1 = 500 ∧ killedProcess x.2 = some 0)) = true := by
      decide +kernel
    obtain ⟨s, hr, h⟩ := Reaches.exists_of_runIf _ h
    simp only [Bool.and_eq_true, Bool.not_eq_true', Option.any_eq_true, List.any_eq_true,
      decide_eq_true_eq] at h
    obtain ⟨⟨he, hstop⟩, slot, hs, hdelay, ⟨time, e⟩, hmem, rfl, hp⟩ := h
    refine ⟨s, hr, he, List.isEmpty_eq_false_iff.mp hstop, fun H => ?_⟩
    cases e with
    | killed p =>
      -- Half a second is no five seconds after any stop signal.
      obtain ⟨t₁, sig, -, hle⟩ := H.kills 0 slot hs 500 p hmem
      rw [hdelay] at hle
      omega
    | _ => cases hp

end Daemon

end Vigil
