import Vigil.Overlord.Shutdown

/-!
# The actors of one service

A reload that removes a service sends its actor a shutdown and forgets it, and a later reload that
adds the service again spawns another actor. The earlier one takes the shutdown when its turn is
over, and then has up to half a second and the exit of its process before it. So two processes of
one service may be alive.

They are not in the runs in which a reload adds a service only when its earlier actors are `Gone`:
they have no process, spawn none in their turn, and take the shutdown next
(`Daemon.single_of_reaches`). Two invariants carry this. An actor's living process is the one that
it holds (`Daemon.child_of_alive`), as long as it is not asked to start in `Backoff`. And the
earlier one of two actors of a service is gone (`Daemon.Replaced`).
-/

namespace Vigil

open Actor (Effect Input)

/-! ## One actor -/

/-- In a run without a start in `Backoff`, at every moment the held process is the uncollected
one. -/
theorem Loop.kept_done_of_reaches {name : String} {config : ServiceConfig} {now : ℕ} {s : Loop}
    (h : Runs.Reaches step NoStartInBackoff (init name config now) s) :
    Kept s.task.actor s.task.done := by
  refine h.invariant (P := fun s => Kept s.task.actor s.task.done) ⟨orderly_nil, rfl⟩ ?_
  intro s l s' hr H hG hl
  have O : Orderly s'.task.done :=
    (invariant_of_reaches (hr.tail hG hl)).kept.orderly.of_suffix s'.task.done_suffix
  rcases step_cases hl with ⟨d, rfl, rfl⟩ | ⟨t, rfl, ht, rfl⟩ | ⟨t, rfl, ht, rfl⟩ |
    ⟨inp, t, rfl, ht, rfl⟩
  · exact H
  · obtain ⟨-, i, rest, -, -, rfl⟩ := Task.act_eq_some_iff.mp ht
    simp only [Task.done_perform] at O ⊢
    refine H.exec fun hi => ?_
    -- What is done next finds no uncollected process.
    have hnone : uncollected s.task.done = [] := by
      rcases hi with rfl | rfl
      · exact O.starts s.task.done (List.suffix_refl _)
      · have hle := O.atMostOne _ (List.suffix_refl _)
        simp only [Actor.effect, Option.toList_some, List.singleton_append, uncollected,
          List.length_cons] at hle
        exact List.eq_nil_of_length_eq_zero (by omega)
    rw [H.held] at hnone
    simpa using hnone
  · obtain ⟨k, -, rfl⟩ := Task.deliver_eq_some_iff.mp ht
    exact H
  · obtain ⟨-, -, rfl⟩ := Task.take_eq_some_iff.mp ht
    exact H

/-- In such a run, an actor that is about to start a process holds none. -/
theorem Loop.child_of_enter {name : String} {config : ServiceConfig} {now : ℕ} {s : Loop}
    (h : Runs.Reaches step NoStartInBackoff (init name config now) s) {rest : List Instr}
    (htodo : s.task.todo = .enter :: rest) : s.task.actor.child = none := by
  have O := (invariant_of_reaches h).kept.orderly
  rw [Task.history, htodo, Actor.effects_cons] at O
  have hnone := O.starts s.task.done (Actor.suffix_effects _ _ _)
  rw [(kept_done_of_reaches h).held] at hnone
  simpa using hnone

/-- Every process that an actor has spawned is in what it has done. -/
theorem Loop.spawned_of_reaches {G : Loop → Label → Prop} {name : String} {config : ServiceConfig}
    {now : ℕ} {s : Loop} (h : Runs.Reaches step G (init name config now) s) {p : ℕ}
    (hp : p < s.task.actor.spawned) : ∃ spec, .spawned p spec ∈ s.task.done := by
  have hinv := h.invariant (P := fun s => ∀ p < s.task.actor.spawned,
    ∃ spec, .spawned p spec ∈ s.task.done) (fun _ hp => absurd hp (Nat.not_lt_zero _)) ?_
  · exact hinv p hp
  · intro s l s' _ H _ hl p hp
    rcases step_cases hl with ⟨d, rfl, rfl⟩ | ⟨t, rfl, ht, rfl⟩ | ⟨t, rfl, ht, rfl⟩ |
      ⟨inp, t, rfl, ht, rfl⟩
    · exact H p hp
    · obtain ⟨-, i, rest, -, -, rfl⟩ := Task.act_eq_some_iff.mp ht
      have old : p < s.task.actor.spawned →
          ∃ spec, .spawned p spec ∈ (s.task.perform s.now i rest).done := by
        intro hp
        obtain ⟨spec, hm⟩ := H p hp
        exact ⟨spec, Task.done_perform .. ▸ List.mem_append_right _ hm⟩
      cases i with
      | spawn =>
        rcases Nat.lt_succ_iff_lt_or_eq.mp hp with hp | rfl
        · exact old hp
        · exact ⟨s.task.actor.config.spawnSpec, List.mem_cons_self⟩
      | _ => exact old hp
    · obtain ⟨k, -, rfl⟩ := Task.deliver_eq_some_iff.mp ht
      exact H p hp
    · obtain ⟨-, -, rfl⟩ := Task.take_eq_some_iff.mp ht
      exact H p hp

/-! ## Actors that are gone -/

/-- A command that is answered, or the shutdown. -/
def Cmd.counts (c : Cmd) : Bool := c.isAnswered || decide (c = .shutdown)

namespace Slot

variable {slot slot' : Slot}

/-- The actor is gone: it has no process, spawns none in its turn, and is about to return or takes
the shutdown before any start. -/
def Gone (slot : Slot) : Prop :=
  slot.task.actor.child = none ∧ slot.task.settled.spawned = slot.task.actor.spawned ∧
    (slot.task.leaving = true ∨ slot.mailbox.find? Cmd.counts = some .shutdown)

instance (slot : Slot) : Decidable slot.Gone :=
  inferInstanceAs (Decidable (_ ∧ _ ∧ _))

/-- More commands in the mailbox of an actor that is gone. -/
theorem Gone.push (h : slot.Gone) {c : Cmd} (hp : slot.push c = some slot') : slot'.Gone := by
  rcases push_cases hp with ⟨-, rfl⟩ | ⟨-, -, rfl⟩
  · exact h
  · refine ⟨h.1, h.2.1, h.2.2.imp_right fun hm => ?_⟩
    rw [List.find?_append, hm]
    rfl

/-- An actor that is gone does its next action. -/
theorem Gone.act (h : slot.Gone) {now : ℕ} {t : Task} (ht : slot.task.act now = some t) :
    ({ slot with task := t, answer := slot.nextAnswer } : Slot).Gone := by
  have hset := Task.settled_act ht
  have hleav := Task.leaving_act ht
  obtain ⟨hchild, hsp, hcoming⟩ := h
  obtain ⟨-, i, rest, -, -, rfl⟩ := Task.act_eq_some_iff.mp ht
  have hle : (slot.task.actor.exec i).spawned ≤ slot.task.settled.spawned := by
    rw [← hset]
    exact (slot.task.actor.exec i).spawned_le_execAll _
  refine ⟨?_, ?_, hleav ▸ hcoming⟩
  · -- A spawn would be one more than there are at the end of the turn.
    cases i with
    | spawn =>
      simp only [Actor.exec] at hle
      omega
    | collect | wait => rfl
    | _ => exact hchild
  · have := slot.task.actor.spawned_le_exec i
    simp only [hset]
    simp only [Task.perform]
    omega

/-- An actor that is gone takes a command. -/
theorem Gone.take (h : slot.Gone) {now : ℕ} {c : Cmd} {ok : Bool} {t : Task}
    (hbox : slot.mailbox.head? = some c) (ht : slot.task.take now (.cmd c ok) = some t) :
    ({ slot with task := t, mailbox := slot.nextMailbox (.cmd c ok) } : Slot).Gone := by
  obtain ⟨hi, -, ht'⟩ := Task.take_eq_some_iff.mp ht
  have hset := Task.settled_take ht
  have hleav := Task.leaving_take ht
  have hact : t.actor = slot.task.actor := by rw [ht']
  rw [Task.settled_of_idle hi] at hset hleav
  obtain ⟨hchild, -, hcoming⟩ := h
  have hfind := hcoming.resolve_left (by rw [Task.leaving_of_idle hi]; simp)
  obtain ⟨rest, hmail⟩ := List.head?_eq_some_iff.mp hbox
  rw [hmail] at hfind
  refine ⟨hact ▸ hchild, ?_, ?_⟩
  · simp only [hset, hact]
    cases c with
    | start | stop | restart => cases hfind
    | status | forwardSignal sig => rfl
    | shutdown => simp only [Actor.script, Actor.execAll_cleanup]
  · simp only [hleav, nextMailbox, hmail, List.tail_cons]
    cases c with
    | start | stop | restart => cases hfind
    | status | forwardSignal sig => exact .inr hfind
    | shutdown => exact .inl (Actor.finish_mem_cleanup _)

end Slot

namespace Daemon

open Runs

variable {s s' : Daemon} {l : Label} {id : ℕ} {slot slot' : Slot}

/-- A step leaves an actor that is gone so. -/
theorem SlotStep.gone (h : SlotStep s l id slot slot') (hB : s.Biased l)
    (hs : s.slots[id]? = some slot) (H : slot.Gone) : slot'.Gone := by
  cases h with
  | same => exact H
  | act hl hc ht => exact H.act ht
  | deliver hl ht =>
    obtain ⟨k, -, rfl⟩ := Task.deliver_eq_some_iff.mp ht
    exact H
  | @input t inp hl hm ht =>
    obtain ⟨hi, -, -⟩ := Task.take_eq_some_iff.mp ht
    subst hl
    -- The shutdown is there, and commands come first.
    have hbox : slot.mailbox ≠ [] := by
      intro hnil
      have hfind := H.2.2.resolve_left (by rw [Task.leaving_of_idle hi]; simp)
      rw [hnil] at hfind
      cases hfind
    cases inp with
    | cmd c ok => exact H.take (of_decide_eq_true hm) ht
    | childExit success ok => exact (hbox (hB slot hs)).elim
    | killDeadline => exact (hbox (hB slot hs).1).elim
    | backoffExpired ok => exact (hbox (hB slot hs).1).elim
  | sent hl htodo hp => exact H.push hp
  | answered hl htodo ha =>
    obtain ⟨-, rfl⟩ := Slot.takeAnswer_cases ha
    exact H
  | stopTask hl hi hid hp =>
    rcases hp.inv with ⟨-, hp, -⟩ | ⟨-, ha, -⟩ | ⟨-, hp, -⟩
    · exact H.push hp
    · obtain ⟨-, rfl⟩ := Slot.takeAnswer_cases ha
      exact H
    · exact H.push hp

/-! ## Living processes -/

/-- A process of the service is alive. -/
def Alive (name : String) (s : Daemon) (id p : ℕ) : Prop :=
  ∃ slot, s.slots[id]? = some slot ∧ slot.task.actor.name = name ∧
    p < slot.task.actor.spawned ∧ s.exited id p = false

/-- At most one process of each service is alive, and where an actor is about to start a process,
none of its own is, and none of an earlier actor of the service. -/
structure Single (s : Daemon) : Prop where
  one : ∀ name id p id' p', Alive name s id p → Alive name s id' p' → id = id' ∧ p = p'
  start : ∀ (id : ℕ) (slot : Slot) rest, s.slots[id]? = some slot →
    slot.task.todo = .enter :: rest →
    ∀ id' ≤ id, ∀ p, ¬Alive slot.task.actor.name s id' p

/-- The exits that an actor has collected have happened, and so have those that it will collect in
its turn, unless it is about to return. -/
structure Seen (s : Daemon) (id : ℕ) (t : Task) : Prop where
  done : ∀ p, .collected p ∈ t.done → s.exited id p = true
  history : t.leaving = false → ∀ p, .collected p ∈ t.history → s.exited id p = true
  leaving : t.leaving = true → .collect ∉ t.todo

/-- A step keeps what an actor has seen. -/
theorem SlotStep.seen (hstep : SlotStep s l id slot slot') (h : s.step l = some s')
    (H : s.Seen id slot.task) : s'.Seen id slot'.task := by
  have same : slot'.task = slot.task → s'.Seen id slot'.task := fun ht =>
    ht ▸ ⟨fun p hp => exited_step h (H.done p hp),
      fun hl p hp => exited_step h (H.history hl p hp), H.leaving⟩
  cases hstep with
  | same => exact same rfl
  | @act t hl hc ht =>
    have hhist := Task.history_act ht
    have hleav := Task.leaving_act ht
    refine ⟨fun p hp => exited_step h ?_, ?_, ?_⟩
    · cases hlv : slot.task.leaving with
      | false => exact H.history hlv p (hhist ▸ t.done_suffix.subset hp)
      | true =>
        -- An actor that is about to return collects no more, but for the wait of the shutdown.
        have hcollect := H.leaving hlv
        obtain ⟨-, i, rest, htodo, -, rfl⟩ := Task.act_eq_some_iff.mp ht
        rw [Task.done_perform] at hp
        rcases List.mem_append.mp hp with hp | hp
        · cases i with
          | collect => exact absurd (htodo ▸ List.mem_cons_self) hcollect
          | wait =>
            -- The wait is over when the process has exited.
            rw [canAct, htodo] at hc
            obtain ⟨q, hq, heq⟩ := Option.map_eq_some_iff.mp (Option.mem_toList.mp hp)
            obtain rfl : q = p := Effect.collected.inj heq
            simpa [hq] using hc
          | stopSignal | sigkill | signal =>
            obtain ⟨q, -, heq⟩ := Option.map_eq_some_iff.mp (Option.mem_toList.mp hp)
            cases heq
          | _ => cases Option.mem_toList.mp hp
        · exact H.done p hp
    · intro hl p hp
      exact exited_step h (H.history (hleav ▸ hl) p (hhist ▸ hp))
    · intro hl
      have hcollect := H.leaving (hleav ▸ hl)
      obtain ⟨-, i, rest, htodo, -, rfl⟩ := Task.act_eq_some_iff.mp ht
      rw [htodo] at hcollect
      have hrest : .collect ∉ rest := fun hm => hcollect (List.mem_cons_of_mem _ hm)
      cases i with
      | sleep d => exact fun hm => hrest ((List.mem_cons.mp hm).resolve_left nofun)
      | _ => exact hrest
  | deliver hl ht =>
    have hhist := Task.history_deliver ht
    have hleav := Task.leaving_deliver ht
    refine ⟨?_, fun hl p hp => exited_step h (H.history (hleav ▸ hl) p (hhist ▸ hp)), ?_⟩
    · obtain ⟨k, -, rfl⟩ := Task.deliver_eq_some_iff.mp ht
      exact fun p hp => exited_step h (H.done p hp)
    · obtain ⟨k, -, rfl⟩ := Task.deliver_eq_some_iff.mp ht
      exact H.leaving
  | @input t inp hl hm ht =>
    obtain ⟨hi, -, ht'⟩ := Task.take_eq_some_iff.mp ht
    have hhist := Task.history_take ht
    have hleav := Task.leaving_take ht
    refine ⟨?_, fun hl p hp => ?_, fun hl => ?_⟩
    · rw [ht']
      exact fun p hp => exited_step h (H.done p hp)
    · rw [hhist] at hp
      rcases Actor.collected_of_script hp with hp | ⟨hc, ⟨success, ok, rfl⟩ | ⟨ok, rfl⟩⟩
      · exact exited_step h (H.history (Task.leaving_of_idle hi) p hp)
      · rw [Task.settled_of_idle hi] at hc
        simp only [admits, hc, Option.any_some, List.contains_iff_mem] at hm
        exact exited_step h (List.any_eq_true.mpr ⟨_, hm, by simp⟩)
      · rw [hleav, Actor.script, Actor.finish_mem_cleanup] at hl
        cases hl
    · obtain ⟨ok, rfl⟩ := Task.eq_shutdown_of_leaving ht hl
      rw [ht']
      simp only [Actor.script, Actor.cleanup]
      split_ifs <;> simp
  | sent hl htodo hp => exact same (Slot.task_push hp)
  | answered hl htodo ha => exact same (Slot.task_takeAnswer ha)
  | stopTask hl hi hid hp => exact same hp.task

/-- In every run, the actors have collected only exits that have happened. -/
theorem seen_of_reaches {G : Daemon → Label → Prop} {plan : Plan} (h : Reaches step G (init plan) s)
    (hs : s.slots[id]? = some slot) : s.Seen id slot.task := by
  have hnew : ∀ (s : Daemon) (id : ℕ) e, s.Seen id (Slot.new e).task := fun s id e =>
    ⟨fun _ hp => absurd hp List.not_mem_nil, fun _ _ hp => absurd hp List.not_mem_nil, nofun⟩
  refine h.invariant (P := fun s => ∀ (id : ℕ) (slot : Slot), s.slots[id]? = some slot →
    s.Seen id slot.task) ?_ ?_ id slot hs
  · intro id slot hs
    obtain ⟨e, -, rfl⟩ := List.mem_map.mp (List.mem_of_getElem? hs)
    exact hnew _ _ e
  · intro s l s' _ H _ hl id slot' hs'
    rcases slot_step hl hs' with ⟨slot, hs, hstep⟩ | ⟨-, e, rfl, -⟩
    · exact hstep.seen hl (H id slot hs)
    · exact hnew _ _ e

/-! ## The runs -/

/-- No start and no restart is taken in `Backoff`, and a reload adds a service only when the actors
that the service had before are gone. -/
def Vacant (s : Daemon) : Label → Prop
  | .input id inp => inp.isStart = true → ∀ slot ∈ s.slots[id]?, slot.task.actor.state ≠ .backoff
  | .overlord (some plan) => s.todo.head? = some .reload → ∀ name ∈ plan.services.keys,
    s.overlord.idOf name = none → ∀ slot ∈ s.slots, slot.task.actor.name = name → slot.Gone
  | _ => True

instance (s : Daemon) (l : Label) : Decidable (s.Vacant l) :=
  match l with
  | .input _ _ | .overlord (some _) => by unfold Vacant; infer_instance
  | .tick _ | .exit _ | .act _ | .deliver _ | .overlord none | .command _ | .event | .check _ _
  | .stopTask _ => isTrue trivial

/-- The runs whose steps are so, in the order of `biased` `select!`. -/
def BiasedVacant (s : Daemon) (l : Label) : Prop := s.Biased l ∧ s.Vacant l

instance (s : Daemon) (l : Label) : Decidable (s.BiasedVacant l) :=
  inferInstanceAs (Decidable (s.Biased l ∧ s.Vacant l))

/-- In such a run, no actor is asked to start in `Backoff`. -/
theorem reaches_noStartInBackoff {plan : Plan} (h : Reaches step BiasedVacant (init plan) s)
    (hs : s.slots[id]? = some slot) : ∃ name config now,
      Reaches Loop.step Loop.NoStartInBackoff (Loop.init name config now) ⟨s.now, slot.task⟩ :=
  reaches_loop Loop.NoStartInBackoff (fun _ _ _ slot hG hs _ _ hi => hG.2 hi slot hs)
    (fun _ l hl => by cases l with | input inp => exact (hl inp rfl).elim | _ => trivial) h hs

/-- In such a run, an actor holds its living process. -/
theorem child_of_alive {plan : Plan} (h : Reaches step BiasedVacant (init plan) s)
    (hs : s.slots[id]? = some slot) {p : ℕ} (hp : p < slot.task.actor.spawned)
    (hx : s.exited id p = false) : slot.task.actor.child = some p := by
  obtain ⟨name, config, now, hloop⟩ := reaches_noStartInBackoff h hs
  have hkept := Loop.kept_done_of_reaches hloop
  obtain ⟨spec, hspawned⟩ := Loop.spawned_of_reaches hloop hp
  rcases uncollected_or_collected hspawned with hu | hc
  · rw [hkept.held] at hu
    exact Option.mem_toList.mp hu
  · rw [(seen_of_reaches h hs).done p hc] at hx
    cases hx

/-- In such a run, an actor without a process has no living one. -/
theorem not_alive_of_child {plan : Plan} (h : Reaches step BiasedVacant (init plan) s)
    (hs : s.slots[id]? = some slot) (hc : slot.task.actor.child = none) (name : String) (p : ℕ) :
    ¬Alive name s id p := by
  rintro ⟨slot', hs', -, hp, hx⟩
  rw [hs] at hs'
  obtain rfl := Option.some.inj hs'
  rw [child_of_alive h hs hp hx] at hc
  cases hc

/-- The earlier one of two actors of a service is gone. -/
def Replaced (s : Daemon) : Prop :=
  ∀ (id id' : ℕ) (slot slot' : Slot), id < id' → s.slots[id]? = some slot →
    s.slots[id']? = some slot' → slot.task.actor.name = slot'.task.actor.name → slot.Gone

/-- The first actors are of different services. -/
theorem replaced_init (plan : Plan) : (init plan).Replaced := by
  intro id id' slot slot' hlt hs hs' hname
  obtain ⟨e, rfl, hid⟩ := getElem?_init hs
  obtain ⟨e', rfl, hid'⟩ := getElem?_init hs'
  have heq : e.1 = e'.1 := hname
  rw [heq, hid'] at hid
  exact absurd (Option.some.inj hid) hlt.ne'

/-- After a step, the earlier one of two actors of a service is gone. -/
theorem Replaced.step (H : s.Replaced) (hG : s.BiasedVacant l) (h : s.step l = some s') :
    s'.Replaced := by
  intro id id' slot slot' hlt hs hs' hname
  rcases slot_step h hs with ⟨old, hold, hstep⟩ | ⟨hge, e, rfl, plan, rest, rfl, htodo, hi⟩
  · have hown := hstep.static.1
    refine hstep.gone hG.1 hold ?_
    rcases slot_step h hs' with ⟨old', hold', hstep'⟩ | ⟨-, e, rfl, plan, rest, rfl, htodo, hi⟩
    · exact H id id' old old' hlt hold hold' (hown.symm.trans (hname.trans hstep'.static.1))
    · -- The later one is that of a service that a reload adds.
      obtain ⟨hplan, hnone⟩ := s.overlord.mem_spawned_reloadLayers (List.mem_of_getElem? hi)
      refine hG.2 (by rw [htodo]; rfl) e.1 (IndexMap.mem_keys_of_get? hplan) ?_ old
        (List.mem_of_getElem? hold) (hown.symm.trans hname)
      rw [Overlord.idOf, hnone]
      rfl
  · rcases slot_step h hs' with ⟨old', hold', -⟩ | ⟨hge', e', rfl, plan', rest', hl, -, hi'⟩
    · have := (List.getElem?_eq_some_iff.mp hold').1
      omega
    · -- The services that a reload adds are different.
      obtain rfl := Option.some.inj (Label.overlord.inj hl)
      have heq : e.1 = e'.1 := hname
      have hid := s.overlord.idOf_spawned_reloadLayers hi
      rw [heq, s.overlord.idOf_spawned_reloadLayers hi'] at hid
      have := Option.some.inj hid
      omega

/-- In every run in which no actor is asked to start in `Backoff`, and a reload adds a service only
when its earlier actors are gone, at most one process of each service is alive, and a process is
started only where none of the actor and the earlier ones is. -/
theorem single_of_reaches {plan : Plan} (h : Reaches step BiasedVacant (init plan) s) :
    s.Single := by
  have hreplaced : s.Replaced := h.invariant (P := Replaced) (replaced_init plan)
    fun _ _ _ _ H hG hl => H.step hG hl
  -- The processes of an earlier actor have exited.
  have earlier : ∀ {id id' : ℕ} {slot slot' : Slot}, id < id' → s.slots[id]? = some slot →
      s.slots[id']? = some slot' → slot.task.actor.name = slot'.task.actor.name →
      ∀ name p, ¬Alive name s id p := fun hlt hs hs' hname =>
    not_alive_of_child h hs (hreplaced _ _ _ _ hlt hs hs' hname).1
  constructor
  · intro name id p id' p' ha ha'
    obtain ⟨slot, hs, hn, hp, hx⟩ := ha
    obtain ⟨slot', hs', hn', hp', hx'⟩ := ha'
    rcases lt_trichotomy id id' with hlt | rfl | hlt
    · exact (earlier hlt hs hs' (hn.trans hn'.symm) name p ⟨slot, hs, hn, hp, hx⟩).elim
    · rw [hs] at hs'
      obtain rfl := Option.some.inj hs'
      have hchild := (child_of_alive h hs hp hx).symm.trans (child_of_alive h hs hp' hx')
      exact ⟨rfl, Option.some.inj hchild⟩
    · exact (earlier hlt hs' hs (hn'.trans hn.symm) name p' ⟨slot', hs', hn', hp', hx'⟩).elim
  · intro id slot rest hs htodo id' hle p ha
    rcases Nat.lt_or_eq_of_le hle with hlt | rfl
    · have ⟨slot', hs', hn', _⟩ := ha
      exact earlier hlt hs' hs hn' _ p ha
    · obtain ⟨name, config, now, hloop⟩ := reaches_noStartInBackoff h hs
      exact not_alive_of_child h hs (Loop.child_of_enter hloop htodo) _ p ha

/-- A plan that starts the service `web` with the daemon. -/
def enabledPlan : Plan := webPlan { command := some "/bin/web", startup := .enabled }

/-- A reload that removes the service, up to the sending of the shutdown, and another that adds it
again and starts it, up to the spawn. -/
def readdLabels : List Label :=
  [.command .reloadLayers, .overlord (some {}), .overlord none, .command .reloadLayers,
    .overlord (some enabledPlan), .overlord none, .overlord none, .input 1 (.cmd .start true),
    .act 1, .deliver 1, .act 1, .act 1]

/-- The service is stopped and its process exits before a reload removes it. When it has been added
again and started, its only living process is the new one. -/
theorem single_after_stop :
    ∃ s, Reaches step BiasedVacant (init enabledPlan) s ∧ Alive "web" s 1 0 ∧ s.Single := by
  have h : (runIf step BiasedVacant (init enabledPlan) (startLabels 0 ++
      [.event, .event, .command (.services .stop ["web"]), .overlord none, .overlord none,
        .input 0 (.cmd .stop true), .act 0, .act 0, .deliver 0, .act 0, .act 0, .overlord none,
        .exit ⟨0, 0, true⟩, .input 0 (.childExit true true), .act 0, .deliver 0, .act 0, .act 0,
        .act 0, .deliver 0, .event, .event, .event] ++ readdLabels)).any (fun s : Daemon =>
      !s.exited 1 0 && s.slots[1]?.any fun slot : Slot =>
        decide (slot.task.actor.name = "web") && decide (slot.task.actor.spawned = 1)) = true := by
    decide +kernel
  obtain ⟨s, hr, h⟩ := Reaches.exists_of_runIf _ h
  simp only [Bool.and_eq_true, Bool.not_eq_true', decide_eq_true_eq, Option.any_eq_true] at h
  obtain ⟨hx, slot, hs, hn, hp⟩ := h
  exact ⟨s, hr, ⟨slot, hs, hn, by omega, hx⟩, single_of_reaches hr⟩

/-- A reload removes the running service, and another adds it again while its process is alive. Then
two processes of it are alive. -/
theorem exists_not_single :
    ∃ s, Reaches step Biased (init enabledPlan) s ∧ Alive "web" s 0 0 ∧ Alive "web" s 1 0 ∧
      ¬s.Single := by
  have h : (runIf step Biased (init enabledPlan) (startLabels 0 ++ [.event, .event] ++
      readdLabels)).any (fun s : Daemon => !s.exited 0 0 && !s.exited 1 0 &&
        (s.slots[0]?.any fun slot : Slot =>
          decide (slot.task.actor.name = "web") && decide (slot.task.actor.spawned = 1)) &&
        s.slots[1]?.any fun slot : Slot =>
          decide (slot.task.actor.name = "web") &&
            decide (slot.task.actor.spawned = 1)) = true := by
    decide +kernel
  obtain ⟨s, hr, h⟩ := Reaches.exists_of_runIf _ h
  simp only [Bool.and_eq_true, Bool.not_eq_true', decide_eq_true_eq, Option.any_eq_true] at h
  obtain ⟨⟨⟨hx, hx'⟩, slot, hs, hn, hp⟩, slot', hs', hn', hp'⟩ := h
  have halive : Alive "web" s 0 0 := ⟨slot, hs, hn, by omega, hx⟩
  have halive' : Alive "web" s 1 0 := ⟨slot', hs', hn', by omega, hx'⟩
  refine ⟨s, hr, halive, halive', fun H => ?_⟩
  have := (H.one "web" 0 0 1 0 halive halive').1
  omega

end Daemon

end Vigil
