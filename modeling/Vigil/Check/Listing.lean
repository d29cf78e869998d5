import Vigil.Check.Hysteresis
import Vigil.Check.Mailboxes

/-!
# What a query of the checks is answered

`query_checks` asks the actors one after the other, and they go on with their probes meanwhile.
`listing_of_reaches` says what is collected at the end, in any run: the checks that were selected,
in the order of their entries and none twice, without those whose actors have returned; and of each
check the status and the count of failures that follow from a beginning of the results that its
probes have had.
-/

namespace Vigil.Check

open CheckTask (TaskStep Effect)
open Runs

/-- The count of failures is that of the failed probes since the last success, modulo `2 ^ 32`. -/
theorem Actor.toNat_failures_ticks (name : String) (config : CheckConfig) (initial : CheckStatus)
    (oks : List Bool) : ((start name config initial).ticks oks).1.failures.toNat =
      failuresSinceSuccess oks % 2 ^ 32 := by
  induction oks using List.reverseRecOn with
  | nil => rfl
  | append_singleton oks ok ih =>
    rw [ticks_concat]
    cases ok with
    | true => rw [failuresSinceSuccess_concat_true]; rfl
    | false =>
      have hfail (a : Actor) : (a.tick false).1.failures = a.failures + 1 := by
        simp only [tick, record, Bool.false_eq_true, if_false]
        split_ifs <;> rfl
      rw [failuresSinceSuccess_concat_false, hfail, UInt32.toNat_add, ih]
      exact Nat.mod_add_mod _ _ _

/-- An answer of the task's actor, after some of its probes. In the initial delay an actor says that
it is up, whatever its status is. -/
structure CheckInfo.Reflects (info : CheckInfo) (t : CheckTask) : Prop where
  level : info.level = t.config.level
  threshold : info.threshold = t.config.threshold.getD defaultThreshold
  probes : ∃ oks, oks <+: t.results ∧
    info.failures.toNat = failuresSinceSuccess oks % 2 ^ 32 ∧
      (oks = [] ∧ info.status = .up ∨
        (info.status = .down ↔ max 1 info.threshold.toNat ≤ failuresSinceSuccess oks ∨
          t.initial = .down ∧ true ∉ oks))

/-- An answer stays one of the actor while the probes go on. -/
theorem CheckInfo.Reflects.mono {info : CheckInfo} {t t' : CheckTask} (h : info.Reflects t)
    (hconfig : t'.config = t.config) (hinitial : t'.initial = t.initial)
    (hresults : t.results <+: t'.results) : info.Reflects t' := by
  obtain ⟨hlevel, hthreshold, oks, hprefix, hfailures, hstatus⟩ := h
  exact ⟨hconfig ▸ hlevel, hconfig ▸ hthreshold, oks, hprefix.trans hresults, hfailures,
    hinitial ▸ hstatus⟩

/-! ## Tasks -/

namespace CheckTask

variable {t t' : CheckTask} {now : ℕ} {eff : Effect}

/-- The actor is where its probes have taken it, and its answer is right. -/
structure Faithful (t : CheckTask) : Prop where
  actor : t.actor = ((Actor.start t.actor.name t.config t.initial).ticks t.results).1
  answer : ∀ info, t.answer = some info → info.name = t.actor.name ∧ info.Reflects t

/-- What a faithful task answers to a question reflects its probes. -/
theorem Faithful.reflects_info (h : t.Faithful) : (t.info now).Reflects t := by
  unfold info
  split_ifs with hdelay
  · exact ⟨rfl, rfl, [], List.nil_prefix, rfl, .inl ⟨rfl, rfl⟩⟩
  · have htracks := Actor.tracks_ticks t.actor.name t.config t.initial t.results
    have hfailures := Actor.toNat_failures_ticks t.actor.name t.config t.initial t.results
    rw [← h.actor] at hfailures
    have hthreshold := htracks.threshold
    have hstatus := htracks.status
    rw [← h.actor] at hthreshold hstatus
    exact ⟨rfl, hthreshold, t.results, List.prefix_refl _, hfailures,
      .inr (by rw [hthreshold]; exact hstatus)⟩

/-- The reports that a step of a task makes of its probes. -/
theorem TaskStep.results (h : TaskStep now t eff t') : t.results <+: t'.results := by
  cases h with
  | probed ok _ => exact List.prefix_append _ _
  | _ => exact List.prefix_refl _

/-- A faithful task stays faithful in every step. -/
theorem Faithful.step (h : t.Faithful) (hs : TaskStep now t eff t') : t'.Faithful := by
  obtain ⟨-, -, hname, hconfig, hinitial⟩ := hs.keeps
  have hmono : ∀ info, t.answer = some info → info.name = t'.actor.name ∧ info.Reflects t' :=
    fun info hi => ⟨(h.answer info hi).1.trans hname.symm,
      (h.answer info hi).2.mono hconfig hinitial hs.results⟩
  cases hs with
  | status =>
    refine ⟨h.actor, fun info hi => ?_⟩
    obtain rfl := Option.some.inj hi
    refine ⟨?_, h.reflects_info.mono rfl rfl (List.prefix_refl _)⟩
    unfold info
    split_ifs <;> rfl
  | probed ok _ =>
    refine ⟨?_, hmono⟩
    show (t.actor.tick ok).1 = _
    rw [Actor.ticks_concat, Actor.name_tick, ← h.actor]
  | _ => exact ⟨h.actor, hmono⟩

/-- A task that has gone on. An answer stays right, and an actor that has returned has returned. -/
structure Later (t t' : CheckTask) : Prop where
  reflects : ∀ info : CheckInfo, info.Reflects t → info.Reflects t'
  ended : t.phase = .ended → t'.phase = .ended

/-- A task goes on from where it is. -/
theorem Later.refl (t : CheckTask) : t.Later t := ⟨fun _ => id, id⟩

/-- A step of a task takes it on. The actor has not returned before it. -/
theorem TaskStep.later (hs : TaskStep now t eff t') : t.Later t' where
  reflects _ hi := hi.mono hs.keeps.2.2.2.1 hs.keeps.2.2.2.2 hs.results
  ended hended := by
    cases hs with
    | status hp | shutdown hp | closed hp => rcases hp with hp | hp <;> cases hp.symm.trans hended
    | elapsed hp | panicked hp | ticked hp | probed _ hp | reported hp =>
      cases hp.symm.trans hended

/-- A command is put into the mailbox of a task. -/
theorem later_of_push {c : Cmd} (h : t.push c = some t') : t.Later t' := by
  obtain ⟨-, -, -, hphase, -, hresults, hconfig, hinitial⟩ := push_keeps h
  exact ⟨fun _ hi => hi.mono hconfig hinitial (hresults ▸ List.prefix_refl _),
    fun hended => hphase.trans hended⟩

end CheckTask

/-! ## Every task -/

namespace Board

variable {s s' : Board}

/-- What a task has at its start and keeps whatever it or the overlord does. -/
structure Kept (P : CheckTask → Prop) : Prop where
  new : ∀ name config services initial, P (.new name config services initial)
  step : ∀ {now t eff t'}, P t → TaskStep now t eff t' → P t'
  push : ∀ {c t t'}, P t → t.push c = some t' → P t'
  unheld : ∀ {t}, P t → P { t with held := false }
  answered : ∀ {t}, P t → P { t with answer := none }

variable {P : CheckTask → Prop}

/-- What is kept holds of a task that is sent a shutdown and whose handle ends. -/
theorem Kept.release (hP : Kept P) {t : CheckTask} (h : P t) : P t.release := by
  refine hP.unheld ?_
  cases hp : t.push .shutdown with
  | none => exact h
  | some t' => exact hP.push h hp

/-- What is kept holds of every task after a check's turn in `sync_actors`. -/
theorem Kept.syncCheck (hP : Kept P) (h : Every P s.tasks) (e : String × CheckConfig) :
    Every P (s.syncCheck e).tasks := by
  have hspawn : ∀ {s : Board}, Every P s.tasks → Every P (s.spawn e.1 e.2).tasks := by
    intro s h i t ht
    rcases List.mem_append.mp (List.mem_of_getElem? ht) with hmem | hmem
    · obtain ⟨j, hj⟩ := List.mem_iff_getElem?.mp hmem
      exact h j t hj
    · rw [List.mem_singleton.mp hmem]
      exact hP.new _ _ _ _
  have hretire : ∀ entry, Every P (s.retire e.1 entry).tasks := by
    intro entry i t ht
    simp only [Board.retire, List.getElem?_modify] at ht
    cases hti : s.tasks[i]? with
    | none => rw [hti] at ht; cases ht
    | some u =>
      rw [hti] at ht
      split_ifs at ht
      · obtain rfl := Option.some.inj ht
        exact hP.release (h i u hti)
      · obtain rfl := Option.some.inj ht
        exact h i u hti
  unfold Board.syncCheck
  split_ifs
  · exact h
  · cases s.checks.get? e.1 with
    | none => exact hspawn h
    | some entry =>
      simp only
      split_ifs
      · exact h
      · exact hspawn (hretire entry)

/-- What is kept holds of every task after `sync_actors`. -/
theorem Kept.syncActors (hP : Kept P) (h : Every P s.tasks) : Every P s.syncActors.tasks := by
  unfold Board.syncActors
  induction s.plan.checks.entries generalizing s with
  | nil => exact h
  | cons e es ih => exact ih (hP.syncCheck h e)

/-- What is kept holds of every task after each step of the board. -/
theorem Kept.board (hP : Kept P) (h : Every P s.tasks) {l : BoardLabel}
    (hs : s.step l = some s') : Every P s'.tasks := by
  cases step_cases hs with
  | pass | query | command | shutdown | event => exact h
  | @task i t t' eff ht hstep _ =>
    rw [((s.setTask i t').afterEffect_keeps t eff).2.1]
    exact h.set (hP.step (h i t ht) hstep)
  | overlord _ _ hstep =>
    cases hstep with
    | services | reply | dropped => exact h
    | ask ht hp | tell ht hp => exact h.set (hP.push (h _ _ ht) hp)
    | receive ht _ => exact h.set (hP.answered (h _ _ ht))
    | sync => exact hP.syncActors (s := { s with plan := _ }) h
    | drop _ ht hp => exact h.set (hP.unheld (hP.push (h _ _ ht) hp))
    | finish =>
      intro i t ht
      obtain ⟨u, hu, rfl⟩ := Option.map_eq_some_iff.mp (List.getElem?_map .. ▸ ht)
      exact hP.unheld (h i u hu)

/-- What is kept holds of every task in every state of a run. -/
theorem Kept.every (hP : Kept P) {plan : MergedPlan}
    (h : Reaches Board.step Always (start plan) s) : Every P s.tasks :=
  h.invariant (P := fun s => Every P s.tasks)
    (hP.syncActors (s := { plan }) fun _ _ h => by cases h) fun _ _ _ _ h _ hs => hP.board h hs

/-- Every task is faithful to its probes. -/
theorem kept_faithful : Kept CheckTask.Faithful where
  new name config services initial := ⟨rfl, nofun⟩
  step := .step
  push h hp := by
    obtain ⟨-, -, hactor, -, hanswer, hresults, hconfig, hinitial⟩ := CheckTask.push_keeps hp
    refine ⟨?_, fun info hi => ?_⟩
    · rw [hactor, hresults, hconfig, hinitial]
      exact h.actor
    · obtain ⟨hname, hreflects⟩ := h.answer info (hanswer ▸ hi)
      exact ⟨hactor ▸ hname, hreflects.mono hconfig hinitial (hresults ▸ List.prefix_refl _)⟩
  unheld h := ⟨h.actor, fun info hi =>
    ⟨(h.answer info hi).1, (h.answer info hi).2.mono rfl rfl (List.prefix_refl _)⟩⟩
  answered h := ⟨h.actor, nofun⟩

/-! ## What is collected -/

/-- What the overlord has collected of a query: the answers of the entries before `es`, without
those of actors that have returned. -/
structure Collected (s : Board) (names : List String) (done es : List (String × CheckEntry)) :
    Prop where
  selected : s.selected names = done ++ es
  order : (s.infos.map CheckInfo.name).Sublist (done.map Prod.fst)
  complete : ∀ e ∈ done, e.1 ∈ s.infos.map CheckInfo.name ∨
    e.2.config.periodMs = 0 ∧ ∃ t, s.tasks[e.2.id]? = some t ∧ t.phase = .ended
  reflects : ∀ info ∈ s.infos, ∃ e ∈ done, e.1 = info.name ∧
    ∃ t, s.tasks[e.2.id]? = some t ∧ info.Reflects t

/-- What is collected stays right while the tasks go on. -/
theorem Collected.mono {names : List String} {done es : List (String × CheckEntry)}
    (h : s.Collected names done es) (hchecks : s'.checks = s.checks) (hinfos : s'.infos = s.infos)
    (htasks : ∀ (i : ℕ) (t : CheckTask), s.tasks[i]? = some t →
      ∃ t', s'.tasks[i]? = some t' ∧ t.Later t') : s'.Collected names done es where
  selected := by rw [← h.selected, Board.selected, Board.selected, hchecks]
  order := hinfos ▸ h.order
  complete e he := by
    refine (h.complete e he).imp (fun hmem => hinfos ▸ hmem) fun hmissing => ?_
    obtain ⟨hperiod, t, ht, hended⟩ := hmissing
    obtain ⟨t', ht', hlater⟩ := htasks _ t ht
    exact ⟨hperiod, t', ht', hlater.ended hended⟩
  reflects info hi := by
    obtain ⟨e, he, hname, t, ht, hreflects⟩ := h.reflects info (hinfos ▸ hi)
    obtain ⟨t', ht', hlater⟩ := htasks _ t ht
    exact ⟨e, he, hname, t', ht', hlater.reflects info hreflects⟩

/-- One task is replaced by one that has gone on. -/
theorem exists_later_set {i : ℕ} {t t' : CheckTask} (ht : s.tasks[i]? = some t) (h : t.Later t')
    (j : ℕ) (u : CheckTask) (hu : s.tasks[j]? = some u) :
    ∃ u', (s.tasks.set i t')[j]? = some u' ∧ u.Later u' := by
  by_cases hj : i = j
  · subst hj
    obtain rfl : u = t := Option.some.inj (hu.symm.trans ht)
    exact ⟨t', List.getElem?_set_self (List.getElem?_eq_some_iff.mp ht).1, h⟩
  · exact ⟨u, (List.getElem?_set_ne hj).trans hu, .refl u⟩

/-- What the overlord has collected, if it answers a query. -/
inductive Listing (s : Board) : Prop
  | other (h : ∀ names, .reply names ∉ s.todo)
  | querying {names done es} (htodo : s.todo = asks es ++ [.reply names])
    (hc : s.Collected names done es)
  | awaiting {names done e es} (htodo : s.todo = .receive e.2.id :: (asks es ++ [.reply names]))
    (hc : s.Collected names done (e :: es))

/-- What is known of a listing is kept by a step of one task. -/
theorem Listing.task (h : s.Listing) {i : ℕ} {t t' : CheckTask} {eff : Effect}
    (ht : s.tasks[i]? = some t) (hs : TaskStep s.now t eff t') :
    ((s.setTask i t').afterEffect t eff).Listing := by
  obtain ⟨hchecks, htasks, htodo', -, -, -, hinfos, -⟩ := (s.setTask i t').afterEffect_keeps t eff
  have hlater := exists_later_set ht hs.later
  cases h with
  | other hother => exact .other fun names => htodo' ▸ hother names
  | querying htodo hc =>
    exact .querying (htodo'.trans htodo) (hc.mono hchecks hinfos (htasks ▸ hlater))
  | awaiting htodo hc =>
    exact .awaiting (htodo'.trans htodo) (hc.mono hchecks hinfos (htasks ▸ hlater))

/-- What has been collected is kept when the next entry is asked. -/
theorem Collected.ask {names : List String} {done es : List (String × CheckEntry)}
    (h : s.Collected names done es) {i : ℕ} {t t' : CheckTask} (ht : s.tasks[i]? = some t)
    (hp : t.push .getStatus = some t') (rest : List BoardInstr) :
    ({ s.setTask i t' with todo := rest } : Board).Collected names done es :=
  h.mono rfl rfl (exists_later_set ht (CheckTask.later_of_push hp))

/-- The answer of the next entry has been received, or its actor has returned. -/
theorem Collected.receive {names : List String} {done es : List (String × CheckEntry)}
    {e : String × CheckEntry} (h : s.Collected names done (e :: es)) {t : CheckTask}
    (ht : s.tasks[e.2.id]? = some t) (hfaithful : t.Faithful) (hasked : t.Asked)
    (hname : t.actor.name = e.1) (hconfig : t.config = e.2.config)
    (ha : t.answer ≠ none ∨ t.phase = .ended) (rest : List BoardInstr) :
    ({ s.setTask e.2.id { t with answer := none } with
        todo := rest, infos := s.infos ++ t.answer.toList } : Board).Collected names
      (done ++ [e]) es := by
  have hanswered : t.Later { t with answer := none } :=
    ⟨fun info hi => hi.mono rfl rfl (List.prefix_refl _), id⟩
  have hset := exists_later_set ht hanswered
  have hmap : ((s.infos ++ t.answer.toList).map CheckInfo.name) =
      s.infos.map CheckInfo.name ++ t.answer.toList.map CheckInfo.name := List.map_append
  constructor
  · show s.selected names = _
    rw [h.selected, List.append_assoc]
    rfl
  · show ((s.infos ++ t.answer.toList).map CheckInfo.name).Sublist _
    rw [hmap, List.map_append]
    refine h.order.append ?_
    cases hanswer : t.answer with
    | none => exact List.nil_sublist _
    | some info =>
      show [info.name].Sublist [e.1]
      rw [(hfaithful.answer info hanswer).1, hname]
  · intro f hf
    show f.1 ∈ (s.infos ++ t.answer.toList).map CheckInfo.name ∨ _
    rw [hmap, List.mem_append]
    rcases List.mem_append.mp hf with hf | hf
    · refine (h.complete f hf).imp .inl fun hmissing => ?_
      obtain ⟨hperiod, u, hu, hended⟩ := hmissing
      obtain ⟨u', hu', hlater⟩ := hset _ u hu
      exact ⟨hperiod, u', hu', hlater.ended hended⟩
    · obtain rfl := List.mem_singleton.mp hf
      cases hanswer : t.answer with
      | some info =>
        refine .inl (.inr ?_)
        rw [← hname, ← (hfaithful.answer info hanswer).1]
        exact List.mem_singleton_self _
      | none =>
        -- Without an answer the actor has returned, which it does only where its tick panics.
        have hended := ha.resolve_left fun hne => hne hanswer
        obtain ⟨u', hu', hlater⟩ := hset _ t ht
        cases hasked with
        | waiting _ _ _ hp => exact absurd hended hp
        | answered _ _ _ hz => exact .inr ⟨hconfig ▸ hz hended, u', hu', hlater.ended hended⟩
  · intro info hi
    rcases List.mem_append.mp hi with hi | hi
    · obtain ⟨f, hf, hfname, u, hu, hreflects⟩ := h.reflects info hi
      obtain ⟨u', hu', hlater⟩ := hset _ u hu
      exact ⟨f, List.mem_append_left _ hf, hfname, u', hu', hlater.reflects info hreflects⟩
    · have hanswer := Option.mem_toList.mp hi
      obtain ⟨hiname, hreflects⟩ := hfaithful.answer info hanswer
      obtain ⟨u', hu', hlater⟩ := hset _ t ht
      exact ⟨e, by simp, hname.symm.trans hiname.symm, u', hu', hlater.reflects info hreflects⟩

/-- What is collected stays right in the next action of the overlord's handler. -/
theorem Listing.overlord (h : s.Listing) (hinv : s.Inv)
    (hfaithful : Every CheckTask.Faithful s.tasks) {i : BoardInstr} {rest : List BoardInstr}
    (htodo : s.todo = i :: rest) (hs : OverlordStep s i rest s') : s'.Listing := by
  cases h with
  | other hother =>
    have hrest : ∀ names, .reply names ∉ rest := fun names hmem =>
      hother names (htodo ▸ List.mem_cons_of_mem _ hmem)
    cases hs with
    | sync =>
      refine .other fun names hmem => ?_
      simp at hmem
      exact hrest names hmem
    | finish => exact .other fun names => List.not_mem_nil
    | _ => exact .other hrest
  | @querying names done es hquery hc =>
    cases es with
    | nil =>
      obtain ⟨rfl, rfl⟩ := List.cons.inj (htodo.symm.trans hquery)
      cases hs
      exact .other fun names => List.not_mem_nil
    | cons e es =>
      obtain ⟨rfl, rfl⟩ := List.cons.inj (htodo.symm.trans hquery)
      cases hs with
      | ask ht hp => exact .awaiting rfl (hc.ask ht hp _)
  | @awaiting names done e es hquery hc =>
    obtain ⟨rfl, rfl⟩ := List.cons.inj (htodo.symm.trans hquery)
    cases hs with
    | receive ht ha =>
      obtain ⟨he, e', es', names', hid, hrest, -, -, hasked⟩ := hinv.handling.receive htodo
      have hmem : e ∈ s.selected names := by
        rw [hc.selected]
        exact List.mem_append_right _ List.mem_cons_self
      have hentry := IndexMap.get?_eq_some_iff.mpr (List.mem_filter.mp hmem).1
      obtain ⟨u, hu, -, hname, hconfig⟩ := exists_task (hinv.coherent he) hentry
      obtain rfl := Option.some.inj (hu.symm.trans ht)
      exact .querying rfl
        (hc.receive ht (hfaithful _ _ ht) (hasked _ (hid ▸ ht)) hname hconfig ha _)

/-- What is collected is right after every step. -/
theorem Listing.step (h : s.Listing) (hinv : s.Inv) (hfaithful : Every CheckTask.Faithful s.tasks)
    {l : BoardLabel} (hs : s.step l = some s') : s'.Listing := by
  cases step_cases hs with
  | pass d =>
    cases h with
    | other hother => exact .other hother
    | querying htodo hc =>
      exact .querying htodo (hc.mono rfl rfl fun i t ht => ⟨t, ht, .refl t⟩)
    | awaiting htodo hc =>
      exact .awaiting htodo (hc.mono rfl rfl fun i t ht => ⟨t, ht, .refl t⟩)
  | task ht hstep _ => exact h.task ht hstep
  | overlord _ htodo hstep => exact h.overlord hinv hfaithful htodo hstep
  | query _ names =>
    have hc : Collected { s with todo := s.queryChecks names, infos := [] } names []
        (s.selected names) :=
      ⟨rfl, List.nil_sublist _, List.forall_mem_nil _, List.forall_mem_nil _⟩
    exact .querying rfl hc
  | command _ plans =>
    refine .other fun names hmem => ?_
    simp at hmem
  | shutdown _ =>
    refine .other fun names hmem => ?_
    simp [stopAll] at hmem
  | @event _ _ exits =>
    refine .other fun names hmem => ?_
    cases exits <;> simp [stopAll] at hmem

/-- Where a query is to be answered, in any run, the answers that have been collected are those of
the selected checks in the order of their entries, each once; one is missing only if its actor has
returned, and its ticks have no length; and each says what a beginning of the results of the check's
probes amounts to. -/
theorem listing_of_reaches {plan : MergedPlan} (h : Reaches Board.step Always (start plan) s)
    {names : List String} (htodo : s.todo = [.reply names]) :
    (s.infos.map CheckInfo.name).Sublist ((s.selected names).map Prod.fst) ∧
      (∀ e ∈ s.selected names, e.1 ∈ s.infos.map CheckInfo.name ∨
          e.2.config.periodMs = 0 ∧ ∃ t, s.tasks[e.2.id]? = some t ∧ t.phase = .ended) ∧
        ∀ info ∈ s.infos, ∃ e ∈ s.selected names, e.1 = info.name ∧
          ∃ t, s.tasks[e.2.id]? = some t ∧ info.Reflects t := by
  have hstart : (start plan).Listing := .other fun names hmem => by simp [start] at hmem
  have hlisting : s.Listing := h.invariant (P := Listing) hstart fun s l s' hr hl _ hs =>
    hl.step (inv_of_reaches hr) (kept_faithful.every hr) hs
  cases hlisting with
  | other hother => exact absurd (htodo ▸ List.mem_singleton_self _) (hother names)
  | @querying names' done es htodo' hc =>
    cases es with
    | nil =>
      obtain ⟨hreply, -⟩ := List.cons.inj (htodo.symm.trans htodo')
      obtain rfl := BoardInstr.reply.inj hreply
      rw [hc.selected, List.append_nil]
      exact ⟨hc.order, hc.complete, hc.reflects⟩
    | cons e es => cases htodo.symm.trans htodo'
  | awaiting htodo' _ => cases htodo.symm.trans htodo'

/-- Three checks. The period of the last one is zero. -/
def threeChecks : MergedPlan where
  checks := ((IndexMap.insert ∅ "api" { startup := .enabled }).insert
    "db" { startup := .enabled }).insert "zero" { startup := .enabled, period := some "0s" }

/-- The actor of the last check returns, and the first check fails a probe. During the query it
fails another one when it has answered, and the second check fails one before it is asked. -/
def threeLabels : List BoardLabel :=
  [.overlord, .elapse 0, .elapse 1, .elapse 2, .tick 0, .probed 0 false, .report 0, .query [],
    .overlord, .take 0, .overlord, .tick 0, .tick 1, .probed 0 false, .probed 1 false, .report 1,
    .overlord, .take 1, .overlord, .overlord, .overlord]

/-- The state that `threeLabels` leads to. -/
def threeEnd : Board :=
  (runIf Board.step Always (start threeChecks) threeLabels).getD (start threeChecks)

/-- Two of the checks have answered, and the third one is missing. -/
theorem listing_of_three : Reaches Board.step Always (start threeChecks) threeEnd ∧
    (threeEnd.selected []).map Prod.fst = ["api", "db", "zero"] ∧
      threeEnd.infos.map (fun info => (info.name, info.failures)) = [("api", 1), ("db", 1)] ∧
      (∀ e ∈ threeEnd.selected [], e.1 ∈ threeEnd.infos.map CheckInfo.name ∨
        e.2.config.periodMs = 0 ∧ ∃ t, threeEnd.tasks[e.2.id]? = some t ∧ t.phase = .ended) ∧
      ∀ info ∈ threeEnd.infos, ∃ e ∈ threeEnd.selected [], e.1 = info.name ∧
        ∃ t, threeEnd.tasks[e.2.id]? = some t ∧ info.Reflects t := by
  have hr : Reaches Board.step Always (start threeChecks) threeEnd :=
    .getD_runIf (by decide +kernel)
  have htodo : threeEnd.todo = [.reply []] := rfl
  obtain ⟨-, hcomplete, hreflects⟩ := listing_of_reaches hr htodo
  exact ⟨hr, by decide +kernel, by decide +kernel, hcomplete, hreflects⟩

end Board

end Vigil.Check
