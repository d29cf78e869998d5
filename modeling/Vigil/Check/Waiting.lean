import Vigil.Check.Hysteresis
import Vigil.Check.Mailboxes

/-!
# Waiting for an answer

The overlord that has asked an actor for its status waits until the actor has answered. An actor
that has reports to send waits for room in the channel of the check events, and it is the overlord
that takes events out of it. So the answer comes in some run if and only if the reports that the
actor has to send before it takes the question fit into the channel (`answerable_iff`). With one
check that goes up and down while a handler takes its time the daemon gets to where they do not
(`exists_unanswerable`).
-/

namespace Vigil.Check

open CheckTask (TaskStep Effect)
open Runs

/-- The fewest reports that the task has to send before it takes the command that waits for it. -/
def CheckTask.owed (t : CheckTask) : ℕ :=
  if t.mailbox.isEmpty then 0
  else
    match t.phase with
    | .sending _ rest => rest.length + 1
    | .probing => min (t.actor.tick true).2.length (t.actor.tick false).2.length
    | .delay | .idle | .ended => 0

namespace CheckTask

variable {t : CheckTask}

/-- After a probe or a report, a task with a command in its mailbox owes as many steps as it has
reports. -/
theorem owed_afterProbe (hm : t.mailbox ≠ []) (statuses : List CheckStatus) :
    ({ t with phase := afterProbe statuses } : CheckTask).owed = statuses.length := by
  rw [owed, if_neg (by simpa using hm)]
  cases statuses <;> rfl

end CheckTask

namespace Board

variable {s s' : Board} {i : ℕ} {rest : List BoardInstr}

/-- The overlord waits for the answer of an actor whose reports do not fit into the channel. -/
def Stuck (s : Board) (i : ℕ) (rest : List BoardInstr) : Prop :=
  s.todo = .receive i :: rest ∧ s.ended = false ∧ ∃ t, s.tasks[i]? = some t ∧
    t.mailbox = [.getStatus] ∧ t.answer = none ∧ t.phase ≠ .ended ∧
      eventCapacity < s.events.length + t.owed

/-- No effect of a task takes events out of the channel. -/
theorem length_events_le (t : CheckTask) (eff : Effect) :
    s.events.length ≤ (s.afterEffect t eff).events.length := by
  cases eff with
  | sent status =>
    unfold afterEffect
    simp only
    split_ifs
    · exact le_rfl
    · simp
  | _ => exact le_rfl

/-- A step of the task that has been asked leaves the overlord stuck. -/
theorem Stuck.task_self (hroom : s.events.length ≤ eventCapacity) {t t' : CheckTask} {eff : Effect}
    (hended : s.ended = false) (hm : t.mailbox = [.getStatus]) (ha : t.answer = none)
    (howed : eventCapacity < s.events.length + t.owed)
    (hs : TaskStep s.now t eff t') :
    t'.mailbox = [.getStatus] ∧ t'.answer = none ∧ t'.phase ≠ .ended ∧
      eventCapacity < (s.afterEffect t eff).events.length + t'.owed := by
  have hne : t.mailbox ≠ [] := by simp [hm]
  cases hs with
  | status hphase _ =>
    -- It does not get to the question.
    have hzero : t.owed = 0 := by
      rw [CheckTask.owed, if_neg (by simpa using hne)]
      rcases hphase with hphase | hphase <;> rw [hphase]
    omega
  | shutdown _ hm' => rw [hm] at hm'; cases hm'
  | closed _ hm' | elapsed _ hm' | panicked _ hm' | ticked _ hm' => rw [hm] at hm'; cases hm'
  | probed ok hphase =>
    refine ⟨hm, ha, CheckTask.afterProbe_ne_ended _, ?_⟩
    rw [CheckTask.owed, if_neg (by simpa using hne), hphase] at howed
    have hmin : min (t.actor.tick true).2.length (t.actor.tick false).2.length ≤
        (t.actor.tick ok).2.length := by
      cases ok with
      | true => exact Nat.min_le_left _ _
      | false => exact Nat.min_le_right _ _
    have howed' := CheckTask.owed_afterProbe
      (t := { t with actor := (t.actor.tick ok).1, results := t.results ++ [ok] }) hne
      (t.actor.tick ok).2
    show _ < s.events.length + _
    exact lt_of_lt_of_le howed (by rw [howed']; exact Nat.add_le_add_left hmin _)
  | @reported status rest hphase =>
    refine ⟨hm, ha, CheckTask.afterProbe_ne_ended _, ?_⟩
    rw [CheckTask.owed, if_neg (by simpa using hne), hphase] at howed
    replace howed : eventCapacity < s.events.length + (rest.length + 1) := howed
    rw [CheckTask.owed_afterProbe hne]
    simp only [afterEffect, hended, Bool.false_eq_true, if_false, List.length_append,
      List.length_singleton]
    omega

/-- An overlord that is stuck is stuck after every step. -/
theorem Stuck.step (h : s.Stuck i rest) (hinv : s.Inv) {l : BoardLabel}
    (hs : s.step l = some s') : s'.Stuck i rest := by
  obtain ⟨htodo, hended, t, ht, hm, ha, hp, howed⟩ := h
  have hhead : s.atHead ≠ true := by simp [atHead, htodo]
  cases step_cases hs with
  | pass d => exact ⟨htodo, hended, t, ht, hm, ha, hp, howed⟩
  | @task j u u' eff hu hstep hroom =>
    obtain ⟨-, htasks, htodo', hended', -⟩ := (s.setTask j u').afterEffect_keeps u eff
    refine ⟨htodo'.trans htodo, hended'.trans hended, ?_⟩
    rw [htasks]
    by_cases hj : j = i
    · subst hj
      obtain rfl : u = t := Option.some.inj (hu.symm.trans ht)
      have hlen : j < s.tasks.length := (List.getElem?_eq_some_iff.mp ht).1
      refine ⟨u', List.getElem?_set_self hlen, ?_⟩
      have hself := Stuck.task_self (s := s.setTask j u') hinv.events hended hm ha howed hstep
      exact hself
    · have hle := (s.setTask j u').length_events_le u eff
      refine ⟨t, (List.getElem?_set_ne hj).trans ht, hm, ha, hp, lt_of_lt_of_le howed ?_⟩
      exact Nat.add_le_add_right hle _
  | overlord _ htodo' hstep =>
    obtain ⟨rfl, rfl⟩ := List.cons.inj (htodo.symm.trans htodo')
    cases hstep with
    | receive hu hanswer =>
      obtain rfl := Option.some.inj (hu.symm.trans ht)
      rcases hanswer with hanswer | hanswer
      · exact absurd ha hanswer
      · exact absurd hanswer hp
  | query h | command h | shutdown h | event _ h => exact absurd h hhead

/-- The overlord gets the answer in some run. -/
def Answerable (s : Board) (rest : List BoardInstr) : Prop :=
  ∃ s', Reaches Board.step Always s s' ∧ s'.todo = rest

/-- One step before a state from which the answer comes. -/
theorem Answerable.head {l : BoardLabel} (hs : s.step l = some s') (h : s'.Answerable rest) :
    s.Answerable rest := by
  obtain ⟨s'', hr, htodo⟩ := h
  exact ⟨s'', hr.head trivial hs, htodo⟩

/-- A query is answerable if the task that is asked has answered or ended. -/
theorem answerable_of_answered (htodo : s.todo = .receive i :: rest) {t : CheckTask}
    (ht : s.tasks[i]? = some t) (ha : t.answer ≠ none ∨ t.phase = .ended) : s.Answerable rest := by
  have htake : t.takeAnswer = some { t with answer := none } :=
    if_pos (by simpa [Option.ne_none_iff_isSome] using ha)
  have hstep : s.step .overlord = some { s.setTask i { t with answer := none } with
      todo := rest, infos := s.infos ++ t.answer.toList } := by
    simp only [Board.step, overlordStep, htodo, ht, Option.bind_some, htake, Option.map_some]
  exact ⟨_, .single trivial hstep, rfl⟩

/-- The actor may take the question at once. -/
theorem answerable_of_idle (htodo : s.todo = .receive i :: rest) {t : CheckTask}
    (ht : s.tasks[i]? = some t) (hm : t.mailbox = [.getStatus])
    (hp : t.phase = .delay ∨ t.phase = .idle) : s.Answerable rest := by
  have hlen : i < s.tasks.length := (List.getElem?_eq_some_iff.mp ht).1
  have hstep : s.step (.take i) =
      some (s.setTask i { t with mailbox := [], answer := some (t.info s.now) }) := by
    simp only [Board.step, ht, Option.bind_some, CheckTask.take, if_pos hp, hm, Option.map_some]
  refine .head hstep (answerable_of_answered htodo (List.getElem?_set_self hlen) (.inl ?_))
  exact Option.some_ne_none _

/-- The actor sends its reports, which fit into the channel, and takes the question. -/
theorem answerable_of_sending (statuses : List CheckStatus) (hended : s.ended = false)
    (htodo : s.todo = .receive i :: rest) {t : CheckTask} (ht : s.tasks[i]? = some t)
    (hm : t.mailbox = [.getStatus]) (hp : t.phase = CheckTask.afterProbe statuses)
    (hroom : s.events.length + statuses.length ≤ eventCapacity) : s.Answerable rest := by
  induction statuses generalizing s t with
  | nil => exact answerable_of_idle htodo ht hm (.inr hp)
  | cons status statuses ih =>
    have hlen : i < s.tasks.length := (List.getElem?_eq_some_iff.mp ht).1
    rw [List.length_cons] at hroom
    have houtbox : t.outbox = status :: statuses := by
      rw [CheckTask.outbox, hp]
      rfl
    have hstep : s.step (.report i) = some { s.setTask i t.reported with
        events := s.events ++ [(t.actor.name, status)] } := by
      simp only [Board.step, ht, Option.bind_some, report, houtbox, hended, Bool.false_eq_true,
        if_false]
      exact if_pos (by omega)
    refine .head hstep (ih hended htodo (List.getElem?_set_self hlen) hm ?_ ?_)
    · rw [CheckTask.reported, houtbox]
      rfl
    · show (s.events ++ [_]).length + _ ≤ _
      rw [List.length_append, List.length_singleton]
      omega

/-- The probe of an actor has this result. -/
theorem answerable_of_probing (ok : Bool) (hended : s.ended = false)
    (htodo : s.todo = .receive i :: rest) {t : CheckTask} (ht : s.tasks[i]? = some t)
    (hm : t.mailbox = [.getStatus]) (hp : t.phase = .probing)
    (hroom : s.events.length + (t.actor.tick ok).2.length ≤ eventCapacity) :
    s.Answerable rest := by
  have hlen : i < s.tasks.length := (List.getElem?_eq_some_iff.mp ht).1
  have hstep : s.step (.probed i ok) = some { s.setTask i { t with
        actor := (t.actor.tick ok).1
        phase := CheckTask.afterProbe (t.actor.tick ok).2
        results := t.results ++ [ok] } with
      metrics := s.metrics.probed t ok } := by
    simp only [Board.step, ht, Option.bind_some, CheckTask.probed, if_pos hp, Option.map_some]
  exact .head hstep
    (answerable_of_sending _ hended htodo (List.getElem?_set_self hlen) hm rfl hroom)

/-- The overlord that waits for an actor's answer gets it in some run if and only if the reports
that the actor has to send before it takes the question fit into the channel of the check events. -/
theorem answerable_iff {plan : MergedPlan} (h : Reaches Board.step Always (start plan) s)
    (htodo : s.todo = .receive i :: rest) {t : CheckTask} (ht : s.tasks[i]? = some t) :
    (∃ s', Reaches Board.step Always s s' ∧ s'.todo = rest) ↔
      s.events.length + t.owed ≤ eventCapacity := by
  have hinv := inv_of_reaches h
  obtain ⟨hended, e, es, names, rfl, -, -, -, hasked⟩ := hinv.handling.receive htodo
  constructor
  · rintro ⟨s', hr, hs'⟩
    by_contra hfull
    have hroom := hinv.events
    cases hasked t ht with
    | answered _ hm =>
      rw [CheckTask.owed, if_pos (by simpa using hm)] at hfull
      exact hfull hroom
    | waiting _ hm ha hp =>
      have hstuck : s.Stuck e.2.id rest :=
        ⟨htodo, hended, t, ht, hm, ha, hp, Nat.lt_of_not_le hfull⟩
      obtain ⟨-, hstuck'⟩ := hr.invariant (P := fun s => s.Inv ∧ s.Stuck e.2.id rest)
        ⟨hinv, hstuck⟩ fun _ _ _ _ h _ hs => ⟨h.1.step hs, h.2.step h.1 hs⟩
      exact List.cons_ne_self _ _ (hstuck'.1.symm.trans hs')
  · intro hroom
    cases hasked t ht with
    | answered _ _ ha => exact answerable_of_answered htodo ht ha
    | waiting _ hm ha hp =>
      have hne : ¬t.mailbox.isEmpty = true := by simp [hm]
      rw [CheckTask.owed, if_neg hne] at hroom
      cases hphase : t.phase with
      | delay => exact answerable_of_idle htodo ht hm (.inl hphase)
      | idle => exact answerable_of_idle htodo ht hm (.inr hphase)
      | ended => exact absurd hphase hp
      | sending status rest' =>
        rw [hphase] at hroom
        exact answerable_of_sending (status :: rest') hended htodo ht hm hphase hroom
      | probing =>
        rw [hphase] at hroom
        rcases min_choice (t.actor.tick true).2.length (t.actor.tick false).2.length with
          hmin | hmin
        · rw [hmin] at hroom
          exact answerable_of_probing true hended htodo ht hm hphase hroom
        · rw [hmin] at hroom
          exact answerable_of_probing false hended htodo ht hm hphase hroom

/-! ### Where the answer never comes -/

/-- The plan of one check that goes down at its first failure. -/
def flappingPlan : MergedPlan :=
  CheckRegistry.checkPlan { startup := .enabled, threshold := some 1 }

/-- A check that goes up or down with every probe. -/
structure Flaps (a : Actor) : Prop where
  firstRun : a.firstRun = false
  threshold : a.threshold = 1
  failures : a.status = .up → a.failures = 0

/-- Some result of its next probe makes it report once, and it goes on so. -/
theorem Flaps.tick {a : Actor} (h : Flaps a) : ∃ ok status, (a.tick ok).2 = [status] ∧
    Flaps (a.tick ok).1 := by
  cases hs : a.status with
  | up =>
    have hdown : a.goesDown false = true := by
      rw [Actor.goesDown_false, h.threshold, h.failures hs, hs]
      rfl
    refine ⟨false, .down, ?_, rfl, ?_, fun hup => ?_⟩
    · rw [Actor.tick_of_firstRun_eq_false a h.firstRun, hdown]
      rfl
    · rw [Actor.threshold_tick, h.threshold]
    · simp only [Actor.goesDown, decide_eq_true_eq] at hdown
      rw [hdown.2] at hup
      cases hup
  | down =>
    refine ⟨true, .up, ?_, rfl, ?_, fun _ => rfl⟩
    · rw [Actor.tick_of_firstRun_eq_false a h.firstRun, Actor.goesDown_true, hs]
      rfl
    · rw [Actor.threshold_tick, h.threshold]

/-- The only check flaps, and a handler takes its time. -/
structure Flapping (s : Board) (n : ℕ) : Prop where
  reaches : Reaches Board.step Always (start flappingPlan) s
  todo : s.todo = [.services]
  ended : s.ended = false
  checks : s.checks.entries.map (fun e => e.2.id) = [0]
  events : s.events.length = n
  task : ∃ t, s.tasks = [t] ∧ t.phase = .idle ∧ t.mailbox = [] ∧ t.held = true ∧ Flaps t.actor

/-- A check that flaps has one report in the channel after its first probe. -/
theorem exists_flapping_one : ∃ s, Flapping s 1 := by
  have hrun : (runIf Board.step Always (start flappingPlan)
      [.elapse 0, .tick 0, .probed 0 true, .report 0]).isSome = true := by decide
  refine ⟨_, Reaches.getD_runIf (d := start flappingPlan) hrun, rfl, rfl, rfl, rfl, ?_⟩
  exact ⟨_, rfl, rfl, rfl, rfl, rfl, rfl, fun _ => rfl⟩

/-- After a tick and a result, the only check has one more report to send, and flaps on. -/
theorem Flapping.probed {n : ℕ} (h : Flapping s n) : ∃ s' t status,
    Reaches Board.step Always s s' ∧ s'.todo = [.services] ∧ s'.ended = false ∧
      s'.checks = s.checks ∧ s'.events = s.events ∧ s'.tasks = [t] ∧
        t.phase = .sending status [] ∧ t.mailbox = [] ∧ t.held = true ∧ Flaps t.actor := by
  obtain ⟨t, ht, hphase, hm, hheld, hflaps⟩ := h.task
  obtain ⟨ok, status, hreport, hflaps'⟩ := hflaps.tick
  have hwaits : t.waits = true := CheckTask.waits_iff.mpr ⟨hm, hheld⟩
  have hget : s.tasks[0]? = some t := by rw [ht]; rfl
  have htick : s.step (.tick 0) =
      some (s.setTask 0 { t with phase := .probing, lastTickAt := s.now }) := by
    simp only [Board.step, hget, Option.bind_some, CheckTask.tick, if_pos (And.intro hphase hwaits),
      Option.map_some]
  set t₁ : CheckTask := { t with phase := .probing, lastTickAt := s.now }
  have htasks : (s.setTask 0 t₁).tasks = [t₁] := by
    show s.tasks.set 0 t₁ = _
    rw [ht]
    rfl
  have hget₁ : (s.setTask 0 t₁).tasks[0]? = some t₁ := by rw [htasks]; rfl
  set t₂ : CheckTask := { t₁ with
    actor := (t.actor.tick ok).1
    phase := CheckTask.afterProbe (t.actor.tick ok).2
    results := t.results ++ [ok] }
  have hprobed : (s.setTask 0 t₁).step (.probed 0 ok) = some { (s.setTask 0 t₁).setTask 0 t₂ with
      metrics := s.metrics.probed t₁ ok } := by
    simp only [Board.step, hget₁, Option.bind_some, CheckTask.probed]
    rfl
  refine ⟨_, t₂, status, (Reaches.single trivial htick).tail trivial hprobed, h.todo, h.ended, rfl,
    rfl, ?_, ?_, hm, hheld, hflaps'⟩
  · show (s.setTask 0 t₁).tasks.set 0 t₂ = _
    rw [htasks]
    rfl
  · show CheckTask.afterProbe (t.actor.tick ok).2 = _
    rw [hreport]
    rfl

/-- A check that flaps puts one more report into the channel while there is room. -/
theorem Flapping.succ {n : ℕ} (h : Flapping s n) (hn : n < eventCapacity) :
    ∃ s', Flapping s' (n + 1) := by
  obtain ⟨s', t, status, hr, htodo, hended, hchecks, hevents, ht, hp, hm, hheld, hflaps⟩ := h.probed
  have hget : s'.tasks[0]? = some t := by rw [ht]; rfl
  have houtbox : t.outbox = [status] := by rw [CheckTask.outbox, hp]
  have hstep : s'.step (.report 0) = some { s'.setTask 0 t.reported with
      events := s'.events ++ [(t.actor.name, status)] } := by
    simp only [Board.step, hget, Option.bind_some, report, houtbox, hended, Bool.false_eq_true,
      if_false]
    exact if_pos (by rw [hevents, h.events]; exact hn)
  refine ⟨_, (h.reaches.trans hr).tail trivial hstep, htodo, hended, ?_, ?_, t.reported, ?_, ?_, hm,
    hheld, hflaps⟩
  · show s'.checks.entries.map _ = _
    rw [hchecks, h.checks]
  · show (s'.events ++ [_]).length = _
    rw [List.length_append, List.length_singleton, hevents, h.events]
  · show s'.tasks.set 0 _ = _
    rw [ht]
    rfl
  · rw [CheckTask.reported, houtbox]
    rfl

/-- A check that flaps fills the channel up, and stands before one report more. -/
theorem exists_flapping {n : ℕ} (hn : n < eventCapacity) : ∃ s, Flapping s (n + 1) := by
  induction n with
  | zero => exact exists_flapping_one
  | succ n ih =>
    obtain ⟨s, hs⟩ := ih (by omega)
    exact hs.succ hn

/-- The channel is full, and the check has one more report when the overlord asks it. -/
theorem exists_asked_full : ∃ s t,
    Reaches Board.step Always (start flappingPlan) s ∧ s.todo = [.receive 0, .reply []] ∧
      s.tasks[0]? = some t ∧ eventCapacity < s.events.length + t.owed := by
  obtain ⟨s₀, hflapping⟩ := exists_flapping (n := 255) (by decide)
  obtain ⟨s, t, status, hr, htodo, hended, hchecks, hevents, ht, hp, hm, hheld, -⟩ :=
    hflapping.probed
  have hservices : s.step .overlord = some { s with todo := [] } := by
    simp only [Board.step, overlordStep, htodo]
  have hhead : ({ s with todo := [] } : Board).atHead = true := by simp [atHead, hended]
  have hselected : s.queryChecks [] = [.ask 0, .receive 0, .reply []] := by
    obtain ⟨e, he, hid⟩ := List.map_eq_singleton_iff.mp (hchecks ▸ hflapping.checks)
    simp [queryChecks, selected, he, hid]
  have hquery : ({ s with todo := [] } : Board).step (.query []) =
      some { s with todo := [.ask 0, .receive 0, .reply []], infos := [] } := by
    simp only [Board.step, if_pos hhead]
    rw [show ({ s with todo := [] } : Board).queryChecks [] = s.queryChecks [] from rfl, hselected]
  have hget : s.tasks[0]? = some t := by rw [ht]; rfl
  have hpush : t.push .getStatus = some { t with mailbox := [.getStatus] } := by
    rw [CheckTask.push_of_nil hm, if_neg (by simp [hp])]
  have hask : ({ s with todo := [.ask 0, .receive 0, .reply []], infos := [] } : Board).step
      .overlord = some { s.setTask 0 { t with mailbox := [.getStatus] } with
        todo := [.receive 0, .reply []], infos := [] } := by
    simp only [Board.step, overlordStep, hget, Option.bind_some, hpush, Option.map_some]
    rfl
  refine ⟨_, { t with mailbox := [.getStatus] }, (((hflapping.reaches.trans hr).tail trivial
    hservices).tail trivial hquery).tail trivial hask, rfl, ?_, ?_⟩
  · show (s.tasks.set 0 _)[0]? = _
    rw [ht]
    rfl
  · show _ < s.events.length + _
    rw [hevents, hflapping.events, CheckTask.owed, hp]
    show eventCapacity < 255 + 1 + (0 + 1)
    decide

/-- A daemon whose only check flaps gets to where a query is never answered. -/
theorem exists_unanswerable : ∃ s, Reaches Board.step Always (start flappingPlan) s ∧
    s.todo = [.receive 0, .reply []] ∧
      ¬∃ s', Reaches Board.step Always s s' ∧ s'.todo = [.reply []] := by
  obtain ⟨s, t, hr, htodo, ht, hfull⟩ := exists_asked_full
  exact ⟨s, hr, htodo, fun h => absurd ((answerable_iff hr htodo ht).mp h) (Nat.not_le.mpr hfull)⟩

end Board

end Vigil.Check
