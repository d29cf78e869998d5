import Vigil.Overlord.Shutdown

/-!
# Whom the overlord asks

`svc_cmd` has an error for an actor whose mailbox is closed, and one for an actor that drops the
reply. Neither ever comes up: before `stop_all`, the actors of the overlord's map are not sent a
shutdown, and what the overlord asks is asked of actors of the map (`Daemon.Attended`). A reload
takes a service out of the map before it sends the shutdown, and `stop_all` is the last that the
overlord does.
-/

namespace Vigil

/-- A reload takes an actor out of the map only if it was there for a service that the plan no
longer has. -/
theorem Overlord.removed_reloadLayers {o : Overlord} {plan : Plan} {next : ℕ}
    {e : String × ServiceEntry} (h : e ∈ ({ o with plan }.syncActors next).1.removed) :
    o.idOf e.1 = some e.2.id ∧ e.1 ∉ plan.services.keys := by
  obtain ⟨hmem, hc⟩ := List.mem_filter.mp h
  have hplan : e.1 ∉ plan.services.keys := fun hk => by
    have hk' : plan.services.contains e.1 = true := IndexMap.contains_iff.mpr hk
    have hc' : (!plan.services.contains e.1) = true := hc
    rw [hk'] at hc'
    cases hc'
  refine ⟨?_, hplan⟩
  have hs := Overlord.synced_syncActors { o with plan } next
  rcases hs.entry _ _ (IndexMap.get?_eq_some_iff.mpr hmem) with hold | ⟨i, config, hi, -⟩
  · exact Overlord.idOf_eq_some_iff.mpr ⟨e.2, hold, rfl⟩
  · -- A new actor is of a service of the plan.
    have hin := hs.sublist.subset (List.mem_of_getElem? hi)
    exact absurd (IndexMap.mem_keys_of_get? (IndexMap.get?_eq_some_iff.mpr hin)) hplan

namespace Daemon

open Runs

variable {s s' : Daemon} {l : Label}

/-- What a step does to the tasks of `stop_all`: only `stop_all` itself makes any, and none is ever
taken away. -/
theorem stopTasks_step (h : s.step l = some s') :
    s'.stopTasks = s.stopTasks ∨ (s.stopTasks ≠ [] ∧ s'.stopTasks ≠ []) ∨
      ∃ rest, s.todo = .stopAll :: rest ∧ s'.todo = rest ∧ s'.overlord = s.overlord ∧
        s'.stopTasks = s.overlord.services.entries.map fun e => { name := e.1, id := e.2.id } := by
  cases l with
  | tick d => obtain rfl := Option.some.inj h; exact .inl rfl
  | exit e => obtain ⟨-, -, rfl⟩ := step_exit h; exact .inl rfl
  | act i => obtain ⟨slot, t, -, -, -, rfl⟩ := step_act h; exact .inl rfl
  | deliver i => obtain ⟨slot, t, k, -, -, -, -, rfl⟩ := step_deliver h; exact .inl rfl
  | input i inp => obtain ⟨slot, t, -, -, -, rfl⟩ := step_input h; exact .inl rfl
  | command c => obtain ⟨-, rfl⟩ := step_command h; exact .inl rfl
  | event => obtain ⟨-, ev, rest, -, rfl⟩ := step_event h; exact .inl rfl
  | check name status => obtain ⟨-, rfl⟩ := step_check h; exact .inl rfl
  | stopTask i =>
    obtain ⟨t, slot, slot', phase, hi, -, -, rfl⟩ := step_stopTask h
    have hne : s.stopTasks ≠ [] := fun hnil => by
      rw [hnil] at hi
      cases hi
    exact .inr (.inl ⟨hne, fun hnil => hne ((List.set_eq_nil_iff _ _).mp hnil)⟩)
  | overlord load =>
    obtain ⟨i, rest, htodo, hstep⟩ := step_overlord h
    cases hstep with
    | stopAll => exact .inr (.inr ⟨rest, htodo, rfl, rfl, rfl⟩)
    | _ => exact .inl rfl

/-- Before `stop_all`, no actor of the overlord's map has been sent a shutdown, the shutdowns that
are to be sent are for actors that are no longer in the map, and what is asked or waited for is of
actors of the map. -/
structure Attended (s : Daemon) : Prop where
  /-- Once there are tasks of `stop_all`, the overlord waits for them and ends. -/
  closing : s.stopTasks ≠ [] → s.ended = true ∨
    ∃ code, s.todo = [.join, .finish code] ∨ s.todo = [.finish code]
  asked : ∀ name id c why, s.todo.head? = some (.sendTo name id c why) → c.isAnswered = true →
    s.overlord.idOf name = some id
  awaited : ∀ id, s.todo.head? = some (.await id) → ∃ name, s.overlord.idOf name = some id
  removed : ∀ name id why, .sendTo name id .shutdown why ∈ s.todo →
    id < s.slots.length ∧ ∀ name', s.overlord.idOf name' ≠ some id
  kept : s.stopTasks = [] → ∀ name id slot, s.overlord.idOf name = some id →
    s.slots[id]? = some slot → ¬ slot.Dismissed

/-- A shutdown that is to be sent was to be sent before, or a reload has just decided on it. -/
theorem shutdown_of_mem (ha : s.Answered) (h : s.step l = some s') {name : String} {id : ℕ}
    {why : Reason} (hmem : .sendTo name id .shutdown why ∈ s'.todo) :
    .sendTo name id .shutdown why ∈ s.todo ∨ ∃ plan, l = .overlord (some plan) ∧
      s.todo.head? = some .reload ∧
        .sendTo name id .shutdown why ∈ (s.overlord.reloadLayers plan s.slots.length).2.2 := by
  have hcons : ∀ {i rest}, s.todo = i :: rest → .sendTo name id .shutdown why ∈ rest →
      .sendTo name id .shutdown why ∈ s.todo := fun htodo hm => by
    rw [htodo]
    exact List.mem_cons_of_mem _ hm
  cases handlerStep h with
  | same _ ht => exact .inl (ht ▸ hmem)
  | command => cases Overlord.cmdInstr_of_mem hmem
  | check => cases Overlord.checkInstr_of_mem hmem
  | @event ev rest hh hev =>
    have hstep := s.overlord.eventStep ev
    generalize (s.overlord.handleSvcEvent ev).1 = o',
      (s.overlord.handleSvcEvent ev).2 = is at hstep hmem
    cases hstep with
    | started =>
      obtain ⟨n, -, heq⟩ := List.mem_map.mp hmem
      cases heq
    | stopped =>
      obtain ⟨n, -, heq⟩ := List.mem_map.mp hmem
      cases heq
    | passed | exited => cases hmem
    | shutdown => simp [Overlord.shutdown] at hmem
  | overlord htodo hstep =>
    cases hstep with
    | @request n c w rest e he =>
      rcases List.mem_cons.mp hmem with heq | hmem
      · -- What is asked for is answered, and a shutdown is not.
        have hc : c.isAnswered = true := by
          have hh := ha.handling
          rw [htodo] at hh
          cases hh with
          | handler hh => cases hh with
            | call hi => exact hi
        cases heq
        cases hc
      · rcases List.mem_cons.mp hmem with heq | hmem
        · cases heq
        · exact .inl (hcons htodo hmem)
    | @reload rest plan hl =>
      rcases List.mem_append.mp hmem with hmem | hmem
      · exact .inr ⟨plan, by rw [hl], by rw [htodo]; rfl, hmem⟩
      · exact .inl (hcons htodo hmem)
    | finish => cases hmem
    | _ => exact .inl (hcons htodo hmem)

/-- The actor of a service after a step was its actor before, or has just been spawned. -/
theorem idOf_step (h : s.step l = some s') {name : String} {id : ℕ}
    (hid : s'.overlord.idOf name = some id) :
    s.overlord.idOf name = some id ∨ s.slots.length ≤ id ∧ ∃ e, s'.slots[id]? = some (.new e) := by
  rcases overlord_step h with hu | ⟨plan, -, -, ho, hslots⟩
  · exact .inl (hu.idOf name ▸ hid)
  · rw [ho] at hid
    obtain ⟨e, he, rfl⟩ := Overlord.idOf_eq_some_iff.mp hid
    rcases (s.overlord.get?_reloadLayers he).2 with hold | ⟨i, config, hi, rfl⟩
    · exact .inl (Overlord.idOf_eq_some_iff.mpr ⟨e, hold, rfl⟩)
    · exact .inr ⟨Nat.le_add_right _ _, (name, config), by rw [hslots, getElem?_new s.slots hi]⟩

/-- Between two calls nobody is asked or waited for. -/
theorem head?_handler {todo : List Overlord.Instr} (h : Overlord.Handler todo) :
    (∀ name id c why, todo.head? = some (.sendTo name id c why) → c.isAnswered = false) ∧
      ∀ id, todo.head? ≠ some (.await id) := by
  refine ⟨fun name id c why hhead => ?_, h.head?⟩
  cases h with
  | nil => cases hhead
  | call hi =>
    obtain rfl := Option.some.inj hhead
    simpa [Overlord.Instr.isCall] using hi
  | shutdown => cases hhead

/-- What the overlord's handler is after a step: what it was, or one between two calls, or it has
just been settled which actor of the map to ask, or that actor is waited for, or the daemon ends. -/
theorem todo_step (ha : s.Answered) (h : s.step l = some s') :
    (s'.todo = s.todo ∧ s'.overlord = s.overlord) ∨ Overlord.Handler s'.todo ∨
      (∃ name e c why rest, s'.todo = .sendTo name e.id c why :: rest ∧
        s'.overlord = s.overlord ∧ s.overlord.services.get? name = some e) ∨
      (∃ name id c why rest, s.todo = .sendTo name id c why :: .await id :: rest ∧
        c.isAnswered = true ∧ s'.todo = .await id :: rest ∧ s'.overlord = s.overlord) ∨
      ∃ code, s'.todo = [.join, .finish code] ∨ s'.todo = [.finish code] := by
  cases handlerStep h with
  | same ho ht => exact .inl ⟨ht, ho⟩
  | @command c => exact .inr (.inl (s.overlord.handler_handleCmd c))
  | @event ev => exact .inr (.inl (s.overlord.handler_handleSvcEvent ev))
  | @check name status => exact .inr (.inl (s.overlord.handler_handleCheckEvent name status))
  | @overlord load i rest s' htodo hstep =>
    have hh := ha.handling
    rw [htodo] at hh
    cases hstep with
    | @request name c why rest e he => exact .inr (.inr (.inl ⟨name, e, c, why, _, rfl, rfl, he⟩))
    | @sendTo name id c why rest slot slot' hs hp =>
      cases hh with
      | handler hh => exact .inr (.inl (hh.tail (by simp)))
      | asking hc hh => exact .inr (.inr (.inr (.inl ⟨name, id, c, why, _, htodo, hc, rfl, rfl⟩)))
    | await =>
      cases hh with
      | handler hh => cases hh with
        | call hi => cases hi
      | waiting hh => exact .inr (.inl hh)
    | stopAll =>
      cases hh with
      | handler hh => cases hh with
        | call hi => cases hi
        | shutdown code => exact .inr (.inr (.inr (.inr ⟨code, .inl rfl⟩)))
    | join =>
      cases hh with
      | handler hh => cases hh with
        | call hi => cases hi
      | joining code => exact .inr (.inr (.inr (.inr ⟨code, .inr rfl⟩)))
    | finish => exact .inr (.inl .nil)
    | @reload rest plan hl =>
      cases hh with
      | handler hh =>
        exact .inr (.inl (s.overlord.handler_reloadLayers plan s.slots.length (hh.tail (by simp))))
    | _ =>
      cases hh with
      | handler hh => exact .inr (.inl (hh.tail (by simp)))

/-- A step of the daemon keeps its actors attended. -/
theorem Attended.step (H : s.Attended) (hw : s.Wired) (ha : s.Answered)
    (he : s.ended = true → s.todo = []) (h : s.step l = some s') : s'.Attended where
  closing hne := by
    -- Where there are tasks already, the overlord is at the end.
    have old : s.stopTasks ≠ [] → s'.ended = true ∨
        ∃ code, s'.todo = [.join, .finish code] ∨ s'.todo = [.finish code] := by
      intro hold
      have head : s.atHead = true → False := fun hh => by
        simp only [atHead, Bool.and_eq_true, List.isEmpty_iff, Bool.not_eq_true'] at hh
        rcases H.closing hold with hend | ⟨code, ht | ht⟩
        · rw [hh.2] at hend
          cases hend
        all_goals
          rw [hh.1] at ht
          cases ht
      cases handlerStep h with
      | same _ ht _ hend => rw [ht, hend]; exact H.closing hold
      | command hh | event hh | check hh => exact (head hh).elim
      | overlord htodo hstep =>
        rcases H.closing hold with hend | ⟨code, ht | ht⟩
        · rw [he hend] at htodo
          cases htodo
        all_goals
          rw [ht] at htodo
          obtain ⟨rfl, rfl⟩ := List.cons.inj htodo
          cases hstep
        · exact .inr ⟨code, .inr rfl⟩
        · exact .inl rfl
    rcases stopTasks_step h with heq | ⟨hold, -⟩ | ⟨rest, htodo, ht, -, -⟩
    · exact old (heq ▸ hne)
    · exact old hold
    · -- `stop_all` is followed by the wait for its tasks.
      have hh := ha.handling
      rw [htodo] at hh
      cases hh with
      | handler hh => cases hh with
        | call hi => cases hi
        | shutdown code => exact .inr ⟨code, .inl ht⟩
  asked name id c why hhead hc := by
    rcases todo_step ha h with ⟨ht, ho⟩ | hh | ⟨n, e, c', why', rest, ht, ho, hget⟩ |
      ⟨n, i, c', why', rest, -, -, ht, -⟩ | ⟨code, ht | ht⟩
    · rw [ho]
      exact H.asked name id c why (ht ▸ hhead) hc
    · exact absurd hc (by rw [(head?_handler hh).1 _ _ _ _ hhead]; simp)
    · rw [ht] at hhead
      obtain ⟨rfl, rfl, -, -⟩ := Overlord.Instr.sendTo.inj (Option.some.inj hhead)
      rw [ho]
      exact Overlord.idOf_eq_some_iff.mpr ⟨e, hget, rfl⟩
    all_goals rw [ht] at hhead; cases hhead
  awaited id hhead := by
    rcases todo_step ha h with ⟨ht, ho⟩ | hh | ⟨n, e, c', why', rest, ht, ho, hget⟩ |
      ⟨n, i, c', why', rest, htodo, hc, ht, ho⟩ | ⟨code, ht | ht⟩
    · rw [ho]
      exact H.awaited id (ht ▸ hhead)
    · exact absurd hhead ((head?_handler hh).2 id)
    · rw [ht] at hhead
      cases hhead
    · rw [ht] at hhead
      obtain rfl := Overlord.Instr.await.inj (Option.some.inj hhead)
      rw [ho]
      exact ⟨n, H.asked n i c' why' (by rw [htodo]; rfl) hc⟩
    all_goals rw [ht] at hhead; cases hhead
  removed name id why hmem := by
    rcases shutdown_of_mem ha h hmem with hold | ⟨plan, rfl, hhead, hnew⟩
    · obtain ⟨hlt, hno⟩ := H.removed name id why hold
      refine ⟨hlt.trans_le (length_slots_le h), fun name' hid => ?_⟩
      rcases idOf_step h hid with hid | ⟨hge, -⟩
      · exact hno name' hid
      · exact absurd hlt (not_lt.mpr hge)
    · rcases s.overlord.reloadInstr_of_mem hnew with ⟨e, he, heq⟩ | ⟨n, heq⟩
      · obtain ⟨rfl, rfl, -, rfl⟩ := Overlord.Instr.sendTo.inj heq
        obtain ⟨hid, hplan⟩ := Overlord.removed_reloadLayers he
        obtain ⟨slot, hs, hname⟩ := hw.slot _ _ hid
        have hlt : e.2.id < s.slots.length := (List.getElem?_eq_some_iff.mp hs).1
        refine ⟨hlt.trans_le (length_slots_le h), fun name' hid' => ?_⟩
        -- Another service has another actor, and the service of this one is not in the plan.
        have hkey : name' ∈ plan.services.keys := by
          obtain ⟨i, rest, htodo, hstep⟩ := step_overlord h
          rw [htodo] at hhead
          obtain rfl := Option.some.inj hhead
          cases hstep with
          | reloadFailed hl => cases hl
          | reload hl =>
            obtain rfl := Option.some.inj hl
            obtain ⟨e', he', -⟩ := Overlord.idOf_eq_some_iff.mp hid'
            exact (s.overlord.get?_reloadLayers he').1
        rcases idOf_step h hid' with hid' | ⟨hge, -⟩
        · obtain ⟨slot', hs', hname'⟩ := hw.slot _ _ hid'
          obtain rfl := Option.some.inj (hs.symm.trans hs')
          exact hplan (hname.symm.trans hname' ▸ hkey)
        · exact absurd hlt (not_lt.mpr hge)
      · cases heq
  kept hnil name id slot' hid hs' hd := by
    have hnil₀ : s.stopTasks = [] ∨ s'.overlord.services.entries = [] := by
      rcases stopTasks_step h with heq | ⟨-, hne⟩ | ⟨rest, -, -, ho, heq⟩
      · exact .inl (heq ▸ hnil)
      · exact absurd hnil hne
      · exact .inr (ho ▸ List.map_eq_nil_iff.mp (heq.symm.trans hnil))
    rcases hnil₀ with hnil | hnone
    · have old : ∀ {slot : Slot}, s.slots[id]? = some slot → s.overlord.idOf name = some id := by
        intro slot hs
        rcases idOf_step h hid with hid | ⟨hge, -⟩
        · exact hid
        · exact absurd (List.getElem?_eq_some_iff.mp hs).1 (not_lt.mpr hge)
      rcases slot_step h hs' with ⟨slot, hs, hslot⟩ | ⟨-, e, rfl, -⟩
      · rcases hslot.dismissed_cases hd with hd | ⟨-, ⟨load, n, why, rest, -, htodo⟩ |
          ⟨i, t, -, hi, -⟩⟩
        · exact H.kept hnil name id slot (old hs) hs hd
        · refine (H.removed n id why ?_).2 name (old hs)
          rw [htodo]
          exact List.mem_cons_self
        · rw [hnil] at hi
          cases hi
      · rcases hd with hd | hd <;> cases hd
    · obtain ⟨e, he, -⟩ := Overlord.idOf_eq_some_iff.mp hid
      have hmem := IndexMap.get?_eq_some_iff.mp he
      rw [hnone] at hmem
      cases hmem

/-- Every state of every run is attended. -/
theorem attended_of_reaches {G : Daemon → Label → Prop} {plan : Plan}
    (h : Reaches step G (init plan) s) : s.Attended := by
  refine h.invariant (P := Attended) ?_ fun s l s' hr H _ hl =>
    H.step (wired_of_reaches hr) (answered_of_reaches hr) (todo_of_ended hr) hl
  have hh : Overlord.Handler (init plan).todo := .of_calls fun i hi => by
    obtain ⟨name, -, rfl⟩ := List.mem_map.mp hi
    rfl
  refine ⟨fun hne => absurd rfl hne, fun name id c why hhead hc => ?_, fun id hhead => ?_,
    fun name id why hmem => ?_, fun _ name id slot _ hs => ?_⟩
  · exact absurd hc (by rw [(head?_handler hh).1 _ _ _ _ hhead]; simp)
  · exact absurd hhead ((head?_handler hh).2 id)
  · obtain ⟨n, -, heq⟩ := List.mem_map.mp hmem
    cases heq
  · obtain ⟨e, -, rfl⟩ := List.mem_map.mp (List.mem_of_getElem? hs)
    rintro (hd | hd) <;> cases hd

/-- While the overlord asks or waits, there are no tasks of `stop_all`. -/
theorem Attended.stopTasks (H : s.Attended) (he : s.ended = true → s.todo = [])
    {i : Overlord.Instr} (hhead : s.todo.head? = some i) (hj : i ≠ .join)
    (hf : ∀ code, i ≠ .finish code) : s.stopTasks = [] := by
  by_contra hne
  rcases H.closing hne with hend | ⟨code, ht | ht⟩
  · rw [he hend] at hhead
    cases hhead
  all_goals
    rw [ht] at hhead
    obtain rfl := Option.some.inj hhead
  · exact hj rfl
  · exact hf code rfl

/-- The actor that the overlord is about to ask, or waits for, is the one that its map has for the
service. It has not returned and is not about to, it has no shutdown in its mailbox, and it owes the
answer that is waited for and no other. -/
structure Reachable (s : Daemon) (id : ℕ) (owed : ℕ) : Prop where
  ofMap : ∃ name, s.overlord.idOf name = some id
  slot : ∃ slot, s.slots[id]? = some slot ∧ slot.task.leaving = false ∧
    .shutdown ∉ slot.mailbox ∧ slot.owed = owed

/-- Where no task of `stop_all` is there, the actors of the map are so. -/
theorem Attended.reachable (H : s.Attended) (hw : s.Wired) (ha : s.Answered) {name : String}
    {id : ℕ} (hid : s.overlord.idOf name = some id) (hnil : s.stopTasks = []) :
    s.Reachable id (s.awaited id) := by
  obtain ⟨slot, hs, -⟩ := hw.slot name id hid
  have hd := H.kept hnil name id slot hid hs
  have hleave : slot.task.leaving = false := by
    cases hl : slot.task.leaving with
    | false => rfl
    | true => exact absurd (.inl hl) hd
  exact ⟨⟨name, hid⟩, slot, hs, hleave, fun hm => hd (.inr hm),
    ha.owed id slot hs (Task.ended_of_leaving hleave)⟩

/-- In every run, `svc_cmd` finds the actor that it asks, and gets an answer to its command from it:
the actor owes nobody an answer when the command is put into its mailbox, and when the overlord
waits, the actor is still there and owes the answer to this command. So neither of the errors of
`svc_cmd` about an actor that is gone comes up. -/
theorem reachable_of_reaches {G : Daemon → Label → Prop} {plan : Plan}
    (h : Reaches step G (init plan) s) {id : ℕ} :
    (∀ name c why, s.todo.head? = some (.sendTo name id c why) → c.isAnswered = true →
      s.Reachable id 0) ∧ (s.todo.head? = some (.await id) → s.Reachable id 1) := by
  have H := attended_of_reaches h
  have hw := wired_of_reaches h
  have ha := answered_of_reaches h
  have he := todo_of_ended h
  constructor
  · intro name c why hhead hc
    have hnil := H.stopTasks he hhead (by simp) (by simp)
    have haw : s.awaited id = 0 :=
      awaited_eq_zero (by rw [hhead]; simp) (by rw [hnil]; simp)
    exact haw ▸ H.reachable hw ha (H.asked name id c why hhead hc) hnil
  · intro hhead
    have hnil := H.stopTasks he hhead (by simp) (by simp)
    obtain ⟨name, hid⟩ := H.awaited id hhead
    have haw : s.awaited id = 1 := awaited_of_await (by rw [hnil]; simp) hhead
    exact haw ▸ H.reachable hw ha hid hnil

/-- A reload takes the service `web` out of the plan, another brings it back, and an operator starts
it: the overlord waits for the second actor, and the first one, which has been sent a shutdown, is
none that it asks. -/
theorem reachable_of_readded :
    ∃ s : Daemon, s.todo.head? = some (.await 1) ∧ s.Reachable 1 1 ∧
      ∃ slot, s.slots[0]? = some slot ∧ slot.Dismissed := by
  have h : (runIf step Always (init (webPlan { command := some "/bin/a" }))
      [.command .reloadLayers, .overlord (some {}), .overlord none, .command .reloadLayers,
        .overlord (some (webPlan { command := some "/bin/a" })),
        .command (.services .start ["web"]), .overlord none, .overlord none]).any
      (fun s : Daemon => decide (s.todo.head? = some (.await 1)) &&
        s.slots[0]?.any fun slot => decide (.shutdown ∈ slot.mailbox)) = true := by
    decide +kernel
  obtain ⟨s, hr, h⟩ := Reaches.exists_of_runIf _ h
  rw [Bool.and_eq_true, decide_eq_true_eq, Option.any_eq_true] at h
  obtain ⟨hhead, slot, hs, hm⟩ := h
  exact ⟨s, hhead, (reachable_of_reaches hr).2 hhead, slot, hs, .inr (of_decide_eq_true hm)⟩

end Daemon

end Vigil
