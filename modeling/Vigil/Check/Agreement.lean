import Vigil.Check.Listing
import Vigil.Overlord.Deadlock

/-!
# What the alerts and the metrics know of a check

The status of a check is kept three times: by its actor, by the alert sender, which hears of it
through the channel of the check events, and in the gauge of the metrics. `agreement_of_reaches`
says that they agree: the gauge is the actor's status at all times, and the alert sender's status,
followed by what is in the channel and what the actor has yet to send, ends with it.

This needs that no reload takes the handle of an actor that is in a probe or has reports to send
(`Gentle`). Such an actor goes on until it gets to its mailbox, beside the new actor of the check,
and what it reports may come after the reports of the new one (`exists_disagreement`).
-/

namespace Vigil.Check

open CheckTask (TaskStep Effect)
open Runs

namespace CheckTask

variable {t t' u : CheckTask} {now : ℕ} {eff : Effect}

/-- The task is not in a probe, and has nothing to send. -/
def Still (t : CheckTask) : Prop := t.phase = .delay ∨ t.phase = .idle ∨ t.phase = .ended

/-- The overlord may have put a command into the mailbox, taken the answer, or given up the
handle. -/
structure Same (t t' : CheckTask) : Prop where
  actor : t'.actor = t.actor
  phase : t'.phase = t.phase
  results : t'.results = t.results
  config : t'.config = t.config
  initial : t'.initial = t.initial
  held : t'.held = true → t.held = true

/-- A task is the same as itself. -/
theorem Same.refl (t : CheckTask) : t.Same t := ⟨rfl, rfl, rfl, rfl, rfl, id⟩

/-- The overlord may do several things to a task. -/
theorem Same.trans (h : t.Same t') (h' : t'.Same u) : t.Same u :=
  ⟨h'.actor.trans h.actor, h'.phase.trans h.phase, h'.results.trans h.results,
    h'.config.trans h.config, h'.initial.trans h.initial, fun hheld => h.held (h'.held hheld)⟩

/-- A task that a command is put in the mailbox of is the same otherwise. -/
theorem same_push {c : Cmd} (h : t.push c = some t') : t.Same t' := by
  obtain ⟨-, hheld, hactor, hphase, -, hresults, hconfig, hinitial⟩ := push_keeps h
  exact ⟨hactor, hphase, hresults, hconfig, hinitial, fun hh => hheld ▸ hh⟩

/-- A task that the overlord no longer has a handle of is the same otherwise. -/
theorem same_unheld (t : CheckTask) : t.Same { t with held := false } :=
  ⟨rfl, rfl, rfl, rfl, rfl, nofun⟩

/-- A task that is sent a shutdown and whose handle ends is the same otherwise. -/
theorem same_release (t : CheckTask) : t.Same t.release := by
  unfold release
  cases h : t.push .shutdown with
  | none => exact same_unheld t
  | some t' => exact (same_push h).trans (same_unheld t')

/-- The outbox of a still task is empty. -/
theorem Still.outbox (h : t.Still) : t.outbox = [] := by
  unfold CheckTask.outbox
  rcases h with h | h | h <;> rw [h]

/-- A still task without a handle that has been told to end does nothing but that. -/
theorem Still.step (h : t.Still) (hheld : t.held = false) (htold : t.Told)
    (hs : TaskStep now t eff t') : t'.Still ∧ eff = .none := by
  cases hs with
  | status hp hm =>
    rcases htold with htold | htold
    · rw [htold] at hp
      simp at hp
    · rw [hm] at htold
      cases htold
  | shutdown | closed => exact ⟨.inr (.inr rfl), rfl⟩
  | elapsed _ _ hh | panicked _ _ hh | ticked _ _ hh => rw [hheld] at hh; cases hh
  | probed _ hp | reported hp => rcases h with h | h | h <;> rw [hp] at h <;> cases h

/-- The status that a step reports. -/
def Effect.statuses : Effect → List CheckStatus
  | .sent status => [status]
  | _ => []

/-- A step sends what the task had still to send, or ends a probe. -/
theorem TaskStep.sends (h : TaskStep now t eff t') :
    t'.actor = t.actor ∧ t'.results = t.results ∧ eff.statuses ++ t'.outbox = t.outbox ∨
      ∃ ok, t.phase = .probing ∧ eff = .probed ok ∧ t'.actor = (t.actor.tick ok).1 ∧
        t'.outbox = (t.actor.tick ok).2 := by
  have hidle (hp : t.phase = .delay ∨ t.phase = .idle) : t.outbox = [] := by
    rcases hp with hp | hp <;> rw [CheckTask.outbox, hp]
  cases h with
  | status hp => exact .inl ⟨rfl, rfl, rfl⟩
  | shutdown hp | closed hp => exact .inl ⟨rfl, rfl, (hidle hp).symm⟩
  | elapsed hp | panicked hp => exact .inl ⟨rfl, rfl, (hidle (.inl hp)).symm⟩
  | ticked hp => exact .inl ⟨rfl, rfl, (hidle (.inr hp)).symm⟩
  | probed ok hp =>
    refine .inr ⟨ok, hp, rfl, rfl, ?_⟩
    cases hr : (t.actor.tick ok).2 <;> simp [CheckTask.outbox, afterProbe]
  | @reported status rest hp =>
    refine .inl ⟨rfl, rfl, ?_⟩
    rw [outbox_afterProbe, CheckTask.outbox, hp]
    rfl

end CheckTask

open CheckTask (Same Still)

namespace Board

variable {s s' : Board}

/-- The status that the alert sender has of a check, and those that are on their way to it. -/
def heard (s : Board) (name : String) : List CheckStatus :=
  (s.lastStatus name).toList ++ (s.events.filter fun ev => ev.1 = name).map Prod.snd

/-- No reload takes the handle of an actor that is in a probe or has reports to send. -/
def Gentle (s : Board) (l : BoardLabel) : Prop :=
  l = .overlord → ∀ s', s.step l = some s' → s'.ended = false → ∀ (i : ℕ) (t t' : CheckTask),
    s.tasks[i]? = some t → t.held = true → s'.tasks[i]? = some t' → t'.held = false → t.Still

/-! ### The overlord and the tasks -/

/-- The tasks are those before the overlord's actions, and new ones. -/
structure Follows (s s' : Board) : Prop where
  length : s.tasks.length ≤ s'.tasks.length
  task : ∀ (i : ℕ) (t' : CheckTask), s'.tasks[i]? = some t' →
    (∃ t, s.tasks[i]? = some t ∧ t.Same t') ∨
      s.tasks.length ≤ i ∧ t'.phase = .delay ∧ t'.results = []

/-- An action that leaves the tasks alone is one that the tasks follow. -/
theorem Follows.of_eq (h : s'.tasks = s.tasks) : s.Follows s' where
  length := h ▸ le_rfl
  task _ t' ht := .inl ⟨t', h ▸ ht, .refl t'⟩

/-- The tasks follow two actions if they follow each of them. -/
theorem Follows.trans {s'' : Board} (h : s.Follows s') (h' : s'.Follows s'') : s.Follows s'' := by
  refine ⟨h.length.trans h'.length, fun i t'' ht'' => ?_⟩
  rcases h'.task i t'' ht'' with ⟨t', ht', hsame'⟩ | hnew
  · rcases h.task i t' ht' with ⟨t, ht, hsame⟩ | hnew
    · exact .inl ⟨t, ht, hsame.trans hsame'⟩
    · exact .inr ⟨hnew.1, hsame'.phase.trans hnew.2.1, hsame'.results.trans hnew.2.2⟩
  · exact .inr ⟨h.length.trans hnew.1, hnew.2⟩

/-- The tasks follow an action that replaces one of them by one that is the same. -/
theorem Follows.set {i : ℕ} {t t' : CheckTask} (ht : s.tasks[i]? = some t) (h : t.Same t')
    (hs' : s'.tasks = s.tasks.set i t') : s.Follows s' := by
  refine ⟨by rw [hs', List.length_set], fun j u hu => ?_⟩
  rw [hs'] at hu
  rcases getElem?_set_cases hu with ⟨rfl, rfl⟩ | ⟨-, hu⟩
  · exact .inl ⟨t, ht, h⟩
  · exact .inl ⟨u, hu, .refl u⟩

/-- What is the same for same tasks is left as it is by the overlord's actions, and new tasks come
behind. -/
theorem Follows.exists_map_eq {β : Type*} (h : s.Follows s') (f : CheckTask → β)
    (hf : ∀ t t', t.Same t' → f t' = f t) :
    ∃ new : List CheckTask, s'.tasks.map f = s.tasks.map f ++ new.map f ∧
      ∀ t ∈ new, t.phase = .delay ∧ t.results = [] := by
  refine ⟨s'.tasks.drop s.tasks.length, ?_, fun t ht => ?_⟩
  · have hold : (s'.tasks.take s.tasks.length).map f = s.tasks.map f := by
      refine List.ext_getElem? fun i => ?_
      rw [List.getElem?_map, List.getElem?_map, List.getElem?_take]
      split_ifs with hi
      · have hi' := List.getElem?_eq_getElem (lt_of_lt_of_le hi h.length)
        rcases h.task i _ hi' with ⟨t, ht, hsame⟩ | ⟨hnew, -⟩
        · rw [ht, hi', Option.map_some, Option.map_some, hf t _ hsame]
        · exact absurd hi (Nat.not_lt.mpr hnew)
      · rw [List.getElem?_eq_none (Nat.le_of_not_lt hi)]
    conv_lhs => rw [← List.take_append_drop s.tasks.length s'.tasks]
    rw [List.map_append, hold]
  · obtain ⟨j, hj⟩ := List.mem_iff_getElem?.mp ht
    rw [List.getElem?_drop] at hj
    rcases h.task _ t hj with ⟨u, hu, -⟩ | ⟨-, hnew⟩
    · exact absurd (List.getElem?_eq_some_iff.mp hu).1 (by omega)
    · exact hnew

/-- The tasks follow a check's turn in `sync_actors`. -/
theorem follows_syncCheck (e : String × CheckConfig) : s.Follows (s.syncCheck e) := by
  have hspawn (s : Board) : s.Follows (s.spawn e.1 e.2) := by
    refine ⟨by simp [Board.spawn], fun i t' ht' => ?_⟩
    rcases lt_or_ge i s.tasks.length with hlt | hge
    · refine .inl ⟨t', ?_, .refl t'⟩
      rwa [Board.spawn, List.getElem?_append_left hlt] at ht'
    · rw [Board.spawn, List.getElem?_append_right hge] at ht'
      rw [List.mem_singleton.mp (List.mem_of_getElem? ht')]
      exact .inr ⟨hge, rfl, rfl⟩
  have hretire (entry : CheckEntry) : s.Follows (s.retire e.1 entry) := by
    refine ⟨by simp [Board.retire], fun i t' ht' => ?_⟩
    simp only [Board.retire, List.getElem?_modify] at ht'
    cases ht : s.tasks[i]? with
    | none => rw [ht] at ht'; cases ht'
    | some t =>
      rw [ht] at ht'
      refine .inl ⟨t, rfl, ?_⟩
      split_ifs at ht'
      · exact Option.some.inj ht' ▸ CheckTask.same_release t
      · exact Option.some.inj ht' ▸ .refl t
  unfold syncCheck
  split_ifs
  · exact .of_eq rfl
  · cases s.checks.get? e.1 with
    | none => exact hspawn s
    | some entry =>
      simp only
      split_ifs
      · exact .of_eq rfl
      · exact (hretire entry).trans (hspawn _)

/-- The tasks follow `sync_actors`. -/
theorem follows_syncActors : s.Follows s.syncActors := by
  unfold syncActors
  induction s.plan.checks.entries generalizing s with
  | nil => exact .of_eq rfl
  | cons e es ih => exact (follows_syncCheck e).trans ih

/-- The overlord's actions, but the last, leave what the tasks have done and reported as it is. -/
theorem overlordStep_follows {i : BoardInstr} {rest : List BoardInstr}
    (h : OverlordStep s i rest s') : s.Follows s' ∧ s'.events = s.events ∧
      s'.lastStatus = s.lastStatus ∧ s'.metrics = s.metrics := by
  cases h with
  | services | reply | dropped => exact ⟨.of_eq rfl, rfl, rfl, rfl⟩
  | ask ht hp | tell ht hp => exact ⟨.set ht (CheckTask.same_push hp) rfl, rfl, rfl, rfl⟩
  | @receive i rest t ht _ =>
    have hsame : t.Same { t with answer := none } := ⟨rfl, rfl, rfl, rfl, rfl, id⟩
    exact ⟨.set ht hsame rfl, rfl, rfl, rfl⟩
  | @sync plan rest =>
    obtain ⟨hevents, -, -, hlast, hmetrics, -⟩ := ({ s with plan } : Board).syncActors_keeps
    obtain ⟨hlength, htask⟩ := follows_syncActors (s := { s with plan })
    exact ⟨⟨hlength, htask⟩, hevents, hlast, hmetrics⟩
  | drop _ ht hp =>
    exact ⟨.set ht ((CheckTask.same_push hp).trans (CheckTask.same_unheld _)) rfl, rfl, rfl, rfl⟩
  | finish =>
    refine ⟨⟨by simp, fun j t' ht' => ?_⟩, rfl, rfl, rfl⟩
    obtain ⟨t, ht, rfl⟩ := Option.map_eq_some_iff.mp (List.getElem?_map .. ▸ ht')
    exact .inl ⟨t, ht, CheckTask.same_unheld t⟩

/-- An overlord's task that has ended does not come back: before a step to a state in which it runs,
it ran. -/
theorem ended_of_step {l : BoardLabel} (hs : s.step l = some s') (h : s'.ended = false) :
    s.ended = false := by
  cases step_cases hs with
  | pass | query | command | shutdown | event => exact h
  | @task i t t' eff => exact ((s.setTask i t').afterEffect_keeps t eff).2.2.2.1 ▸ h
  | overlord _ _ hstep =>
    cases hstep with
    | @sync plan rest => exact ({ s with plan } : Board).syncActors_keeps.2.1 ▸ h
    | finish => cases h
    | _ => exact h

/-! ### The invariant -/

/-- What the alert sender and the gauge have of the checks. -/
structure Agrees (s : Board) : Prop where
  still : ∀ (i : ℕ) (t : CheckTask), s.tasks[i]? = some t → t.held = false → t.Still
  heard : ∀ (i : ℕ) (t : CheckTask), s.tasks[i]? = some t → t.held = true → t.results ≠ [] →
    (s.heard t.actor.name ++ t.outbox).getLast? = some t.actor.status
  gauge : ∀ (i : ℕ) (t : CheckTask), s.tasks[i]? = some t → t.held = true → t.phase ≠ .delay →
    t.phase ≠ .ended → s.metrics.checkUp t.actor.name = some (decide (t.actor.status = .up))

/-- The agreement is kept by an action that the tasks follow, if it leaves the events, the statuses
and the gauges alone and gives up only tasks that are still. -/
theorem Agrees.follows (h : s.Agrees) (hf : s.Follows s') (hevents : s'.events = s.events)
    (hlast : s'.lastStatus = s.lastStatus) (hmetrics : s'.metrics = s.metrics)
    (hstill : ∀ (i : ℕ) (t t' : CheckTask), s.tasks[i]? = some t → t.held = true →
      s'.tasks[i]? = some t' → t'.held = false → t.Still) : s'.Agrees where
  still i t' ht' hheld := by
    rcases hf.task i t' ht' with ⟨t, ht, hsame⟩ | ⟨-, hphase, -⟩
    · have ht : t.Still := by
        cases hh : t.held with
        | true => exact hstill i t t' ht hh ht' hheld
        | false => exact h.still i t ht hh
      unfold CheckTask.Still
      rwa [hsame.phase]
    · exact .inl hphase
  heard i t' ht' hheld hresults := by
    rcases hf.task i t' ht' with ⟨t, ht, hsame⟩ | ⟨-, -, hnew⟩
    · have houtbox : t'.outbox = t.outbox := by rw [CheckTask.outbox, CheckTask.outbox, hsame.phase]
      have hheard : s'.heard = s.heard := by
        funext name
        rw [Board.heard, Board.heard, hevents, hlast]
      rw [houtbox, hheard, hsame.actor]
      exact h.heard i t ht (hsame.held hheld) (hsame.results ▸ hresults)
    · exact absurd hnew hresults
  gauge i t' ht' hheld hdelay hended := by
    rcases hf.task i t' ht' with ⟨t, ht, hsame⟩ | ⟨-, hphase, -⟩
    · rw [hmetrics, hsame.actor]
      exact h.gauge i t ht (hsame.held hheld) (hsame.phase ▸ hdelay) (hsame.phase ▸ hended)
    · exact absurd hphase hdelay

/-- What is on its way to the alert sender of a task's check after a step of the task. -/
theorem heard_afterEffect (hended : s.ended = false) (t : CheckTask) (eff : Effect) :
    (s.afterEffect t eff).heard t.actor.name = s.heard t.actor.name ++ eff.statuses := by
  cases eff with
  | sent status => simp [afterEffect, hended, heard, Effect.statuses]
  | _ => exact (List.append_nil _).symm

/-- A step of a task leaves what is on its way of the other checks as it is. -/
theorem heard_afterEffect_of_ne (t : CheckTask) (eff : Effect) {name : String}
    (hname : name ≠ t.actor.name) : (s.afterEffect t eff).heard name = s.heard name := by
  cases eff with
  | sent status =>
    unfold afterEffect
    simp only
    split_ifs
    · rfl
    · simp [heard, hname.symm]
  | _ => rfl

/-- A step of a task leaves the gauges of the other checks as they are. -/
theorem checkUp_afterEffect_of_ne (t : CheckTask) (eff : Effect) {name : String}
    (hname : name ≠ t.actor.name) :
    (s.afterEffect t eff).metrics.checkUp name = s.metrics.checkUp name := by
  cases eff with
  | none => rfl
  | begun => exact Function.update_of_ne hname _ _
  | probed ok =>
    have hrecord : (s.metrics.recordCheck t.actor.name ok).checkUp = s.metrics.checkUp := by
      cases ok <;> rfl
    simp only [afterEffect, CheckMetrics.probed]
    split_ifs
    · rw [hrecord]
    · simp only [CheckMetrics.setCheckUp, Function.update_of_ne hname, hrecord]
  | sent status =>
    unfold afterEffect
    simp only
    split_ifs <;> rfl

/-- Two actors whose handles the overlord has are of different checks. -/
theorem name_ne_of_held (hc : s.registry.Coherent) {i j : ℕ} {t u : CheckTask}
    (ht : s.tasks[i]? = some t) (hu : s.tasks[j]? = some u) (hht : t.held = true)
    (hhu : u.held = true) (hij : j ≠ i) : u.actor.name ≠ t.actor.name := by
  have hlive {i : ℕ} {t : CheckTask} (ht : s.tasks[i]? = some t) (hh : t.held = true) :
      s.registry.Live i t.toActor := by
    refine ⟨?_, by simp [CheckTask.toActor, hh]⟩
    show (s.tasks.map CheckTask.toActor)[i]? = _
    rw [List.getElem?_map, ht, Option.map_some]
  exact fun hname => hij (hc.unique (hlive hu hhu) (hlive ht hht) hname)

/-- What the alert sender has and gets of a task's check after a step of the task. -/
theorem getLast?_heard_step (hended : s.ended = false) {t t' : CheckTask} {eff : Effect}
    (hs : TaskStep s.now t eff t') (hfaithful : t.Faithful) (hresults : t'.results ≠ [])
    (h : t.results ≠ [] → (s.heard t.actor.name ++ t.outbox).getLast? = some t.actor.status) :
    ((s.afterEffect t eff).heard t.actor.name ++ t'.outbox).getLast? = some t'.actor.status := by
  rw [heard_afterEffect hended]
  rcases hs.sends with ⟨hactor, hsame, hsent⟩ | ⟨ok, hprobing, rfl, hactor, hsent⟩
  · rw [List.append_assoc, hsent, hactor]
    exact h (hsame ▸ hresults)
  · rw [hactor, hsent]
    rcases t.actor.getLast?_tick ok with hlast | ⟨hnil, hfirst, hsame⟩
    · rw [List.getLast?_append, hlast, Option.some_or]
    · -- Nothing is reported, so that this was not the first probe.
      have htracks := Actor.tracks_ticks t.actor.name t.config t.initial t.results
      have hfirstRun := htracks.firstRun
      rw [← hfaithful.actor, hfirst] at hfirstRun
      have hheard := h (of_decide_eq_false hfirstRun.symm)
      rw [CheckTask.outbox, hprobing, List.append_nil] at hheard
      rw [hnil, hsame, List.append_nil]
      exact (congrArg _ (List.append_nil _)).trans hheard

/-- If the gauge of a task's check shows its status, it does after a step of the task. -/
theorem checkUp_step {t t' : CheckTask} {eff : Effect} (hs : TaskStep s.now t eff t')
    (hdelay : t'.phase ≠ .delay) (hended : t'.phase ≠ .ended)
    (h : t.phase ≠ .delay → t.phase ≠ .ended →
      s.metrics.checkUp t.actor.name = some (decide (t.actor.status = .up))) :
    (s.afterEffect t eff).metrics.checkUp t.actor.name =
      some (decide (t'.actor.status = .up)) := by
  cases hs with
  | status => exact h hdelay hended
  | shutdown | closed | panicked => exact absurd rfl hended
  | elapsed => exact Function.update_self _ _ _
  | ticked hp => exact h (by simp [hp]) (by simp [hp])
  | probed ok hp =>
    have hrecord : (s.metrics.recordCheck t.actor.name ok).checkUp = s.metrics.checkUp := by
      cases ok <;> rfl
    simp only [afterEffect, CheckMetrics.probed]
    split_ifs with hsame
    · rw [hrecord, hsame]
      exact h (by simp [hp]) (by simp [hp])
    · exact Function.update_self _ _ _
  | @reported status rest hp =>
    have hmetrics : (s.afterEffect t (.sent status)).metrics = s.metrics := by
      unfold afterEffect
      simp only
      split_ifs <;> rfl
    rw [hmetrics]
    exact h (by simp [hp]) (by simp [hp])

/-- The agreement is kept by a step of one task, with what it has on the channel. -/
theorem Agrees.task (h : s.Agrees) (hinv : s.Inv) (hended : s.ended = false) {i : ℕ}
    {t t' : CheckTask} {eff : Effect} (ht : s.tasks[i]? = some t) (hfaithful : t.Faithful)
    (hs : TaskStep s.now t eff t') : ((s.setTask i t').afterEffect t eff).Agrees := by
  have htasks := ((s.setTask i t').afterEffect_keeps t eff).2.1
  have hheld := hs.keeps.2.1
  have hname := hs.keeps.2.2.1
  -- The other actors are of other checks, or this one has been told to end and does only that.
  have hother {j : ℕ} {u : CheckTask} (hj : j ≠ i) (hu : s.tasks[j]? = some u)
      (hhu : u.held = true) : u.actor.name ≠ t.actor.name ∨ eff = .none := by
    cases hht : t.held with
    | true => exact .inl (name_ne_of_held (hinv.coherent hended) ht hu hht hhu hj)
    | false => exact .inr ((h.still i t ht hht).step hht (hinv.handling.told ht hht) hs).2
  refine ⟨fun j u hu hhu => ?_, fun j u hu hhu hresults => ?_, fun j u hu hhu hdelay hend => ?_⟩ <;>
    rw [htasks] at hu <;> rcases getElem?_set_cases hu with ⟨rfl, rfl⟩ | ⟨hj, hu⟩
  · have hht := hheld ▸ hhu
    exact ((h.still j t ht hht).step hht (hinv.handling.told ht hht) hs).1
  · exact h.still j u hu hhu
  · rw [hname]
    exact getLast?_heard_step (s := s.setTask j u) hended hs hfaithful hresults
      (h.heard j t ht (hheld ▸ hhu))
  · have hsame :
        ((s.setTask i t').afterEffect t eff).heard u.actor.name = s.heard u.actor.name := by
      rcases hother hj hu hhu with hne | rfl
      · exact heard_afterEffect_of_ne t eff hne
      · rfl
    rw [hsame]
    exact h.heard j u hu hhu hresults
  · rw [hname]
    exact checkUp_step (s := s.setTask j u) hs hdelay hend (h.gauge j t ht (hheld ▸ hhu))
  · have hsame : ((s.setTask i t').afterEffect t eff).metrics.checkUp u.actor.name =
        s.metrics.checkUp u.actor.name := by
      rcases hother hj hu hhu with hne | rfl
      · exact checkUp_afterEffect_of_ne t eff hne
      · rfl
    rw [hsame]
    exact h.gauge j u hu hhu hdelay hend

/-- The agreement is kept when the alert sender takes the oldest event. -/
theorem Agrees.event (h : s.Agrees) {ev : String × CheckStatus}
    {rest : List (String × CheckStatus)} (he : s.events = ev :: rest) (todo : List BoardInstr) :
    ({ s with
      events := rest
      lastStatus := Function.update s.lastStatus ev.1 (some ev.2)
      todo } : Board).Agrees where
  still := h.still
  gauge := h.gauge
  heard i t ht hheld hresults := by
    rw [← h.heard i t ht hheld hresults]
    obtain ⟨name, status⟩ := ev
    by_cases hname : name = t.actor.name
    · subst hname
      simp [Board.heard, he, List.getLast?_append, List.getLast?_cons]
    · have hne : t.actor.name ≠ name := fun hc => hname hc.symm
      simp only [Board.heard, he, Function.update_of_ne hne, List.filter_cons, decide_eq_true_eq,
        if_neg hname]

/-- Every step that is gentle keeps the alert sender and the gauge in agreement with the actors. -/
theorem Agrees.step (h : s.Agrees) (hinv : s.Inv) (hfaithful : Every CheckTask.Faithful s.tasks)
    {l : BoardLabel} (hG : s.Gentle l) (hs : s.step l = some s') (hended : s'.ended = false) :
    s'.Agrees := by
  have hended₀ := ended_of_step hs hended
  cases step_cases hs with
  | pass | query | command | shutdown => exact ⟨h.still, h.heard, h.gauge⟩
  | task ht hstep _ => exact h.task hinv hended₀ ht (hfaithful _ _ ht) hstep
  | overlord hl _ hstep =>
    obtain ⟨hfollows, hevents, hlast, hmetrics⟩ := overlordStep_follows hstep
    exact h.follows hfollows hevents hlast hmetrics (hG hl s' hs hended)
  | event _ _ he => exact h.event he _

/-- The agreement holds when the overlord's task starts. -/
theorem agrees_start (plan : MergedPlan) : (start plan).Agrees := by
  have hempty : ({ plan } : Board).Agrees := by
    constructor <;> intro i t ht <;> cases ht
  obtain ⟨hevents, -, -, hlast, hmetrics, -⟩ := ({ plan } : Board).syncActors_keeps
  have hsync := hempty.follows follows_syncActors hevents hlast hmetrics fun i t t' ht => by
    cases ht
  exact ⟨hsync.still, hsync.heard, hsync.gauge⟩

/-- In every state of a run whose reloads are gentle. -/
theorem agrees_of_reaches {plan : MergedPlan} (h : Reaches Board.step Gentle (start plan) s)
    (hended : s.ended = false) : s.Agrees :=
  h.invariant (P := fun s => s.ended = false → s.Agrees) (fun _ => agrees_start plan)
    (fun _ _ _ hr hs hG hl hend => (hs (ended_of_step hl hend)).step (inv_of_reaches hr.always)
      (kept_faithful.every hr.always) hG hl hend) hended

/-- In a run in which no reload takes the handle of an actor that is in a probe or has reports to
send, and the overlord's task has not ended, the daemon's copies of a check's status are its
actor's: the gauge is that status, and once the actor has made a probe, what the alert sender has,
followed by what is in the channel and what the actor has still to send, ends with it. -/
theorem agreement_of_reaches {plan : MergedPlan} (h : Reaches Board.step Gentle (start plan) s)
    (hended : s.ended = false) {i : ℕ} {t : CheckTask} (ht : s.tasks[i]? = some t)
    (hheld : t.held = true) :
    (t.phase ≠ .delay → t.phase ≠ .ended →
      s.metrics.checkUp t.actor.name = some (decide (t.actor.status = .up))) ∧
      (t.results ≠ [] →
        (s.heard t.actor.name ++ t.outbox).getLast? = some t.actor.status) := by
  have hagrees := agrees_of_reaches h hended
  exact ⟨hagrees.gauge i t ht hheld, hagrees.heard i t ht hheld⟩

/-! ### Where they do not agree -/

/-- The plan of one check, and a plan in which its configuration has changed. -/
def slowPlan : MergedPlan := CheckRegistry.checkPlan { startup := .enabled, threshold := some 1 }

/-- The plan with a changed configuration of the check. -/
def changedPlan : MergedPlan :=
  CheckRegistry.checkPlan { startup := .enabled, threshold := some 2 }

/-- A reload in the middle of the probe, which fails after that of the new actor has succeeded. -/
def overtaken : List BoardLabel :=
  [.overlord, .elapse 0, .tick 0, .command [changedPlan], .overlord, .overlord, .overlord,
    .overlord, .overlord, .elapse 1, .tick 1, .probed 1 true, .report 1, .probed 0 false, .report 0,
    .report 0, .take 0, .event false, .overlord, .event false, .overlord, .event false, .overlord]

/-- The alert sender is left with the last report of an actor that has been replaced: nothing is on
its way, and it has the check as down while its actor has it as up. -/
theorem exists_disagreement : ∃ s t, Reaches Board.step Always (start slowPlan) s ∧
    s.tasks[1]? = some t ∧ t.held = true ∧ t.outbox = [] ∧ s.events = [] ∧
      t.results = [true] ∧ t.actor.status = .up ∧ s.lastStatus t.actor.name = some .down := by
  have hrun : (runIf Board.step Always (start slowPlan) overtaken).isSome = true := by decide
  exact ⟨_, _, Reaches.getD_runIf (d := start slowPlan) hrun, rfl, rfl, rfl, rfl, rfl, rfl, rfl⟩

/-- A check that goes down at its first probe, before the alert sender has heard of it. -/
theorem agreement_of_failed : ∃ (s : Board) (t : CheckTask), s.tasks[0]? = some t ∧
    t.outbox = [.down, .down] ∧ s.lastStatus t.actor.name = none ∧
      s.metrics.checkUp t.actor.name = some (decide (t.actor.status = .up)) ∧
        (s.heard t.actor.name ++ t.outbox).getLast? = some t.actor.status := by
  have hr : Reaches Board.step Gentle (start slowPlan) _ :=
    ((Reaches.refl.tail nofun (l := .elapse 0) rfl).tail nofun (l := .tick 0) rfl).tail nofun
      (l := .probed 0 false) rfl
  obtain ⟨hgauge, hheard⟩ := agreement_of_reaches hr rfl (i := 0) rfl rfl
  exact ⟨_, _, rfl, rfl, rfl, hgauge nofun nofun, hheard nofun⟩

/-! ## The counters -/

/-- The results of one kind that the probes of a check have had in one of its tasks. -/
def counted (ok : Bool) (name : String) (t : CheckTask) : ℕ :=
  if t.actor.name = name then t.results.count ok else 0

/-- The results of one kind that the probes of a check have had, over all its tasks. -/
def tally (ok : Bool) (name : String) (tasks : List CheckTask) : ℕ :=
  (tasks.map (counted ok name)).sum

/-- The overlord's actions leave the results of the probes as they are. -/
theorem Follows.tally_eq (h : s.Follows s') (ok : Bool) (name : String) :
    tally ok name s'.tasks = tally ok name s.tasks := by
  obtain ⟨new, hmap, hnew⟩ := h.exists_map_eq (counted ok name) fun t t' hsame => by
    rw [counted, counted, hsame.actor, hsame.results]
  have hzero : (new.map (counted ok name)).sum = 0 := by
    refine List.sum_eq_zero fun n hn => ?_
    obtain ⟨t, ht, rfl⟩ := List.mem_map.mp hn
    rw [counted, (hnew t ht).2]
    split_ifs <;> rfl
  rw [tally, tally, hmap, List.sum_append, hzero, Nat.add_zero]

/-- The counter of one kind of results. -/
def counter (s : Board) (ok : Bool) : String → ℕ :=
  if ok then s.metrics.successCount else s.metrics.failureCount

/-- A result adds one to its counter of the task's check, and nothing else changes a counter. -/
theorem counter_afterEffect (t : CheckTask) (eff : Effect) (ok : Bool) (name : String) :
    (s.afterEffect t eff).counter ok name =
      s.counter ok name + if eff = .probed ok ∧ t.actor.name = name then 1 else 0 := by
  have hset (m : CheckMetrics) (up : Bool) :
      (m.setCheckUp t.actor.name up).successCount = m.successCount ∧
        (m.setCheckUp t.actor.name up).failureCount = m.failureCount := ⟨rfl, rfl⟩
  cases eff with
  | none | begun => cases ok <;> rfl
  | sent status =>
    unfold afterEffect
    simp only
    split_ifs <;> first | rfl | simp_all
  | probed ok' =>
    have hprobed (ok'' : Bool) :
        ({ s with metrics := s.metrics.probed t ok' } : Board).counter ok'' =
          ({ s with metrics := s.metrics.recordCheck t.actor.name ok' } : Board).counter ok'' := by
      simp only [counter, CheckMetrics.probed]
      split_ifs <;> rfl
    show ({ s with metrics := s.metrics.probed t ok' } : Board).counter ok name = _
    rw [hprobed]
    by_cases hname : t.actor.name = name
    · subst hname
      cases ok <;> cases ok' <;> simp [counter, CheckMetrics.recordCheck]
    · have hne : name ≠ t.actor.name := fun h => hname h.symm
      cases ok <;> cases ok' <;> simp [counter, CheckMetrics.recordCheck, hname, hne]

/-- A result adds one to those of the task, and nothing else does. -/
theorem counted_step {now : ℕ} {t t' : CheckTask} {eff : Effect} (hs : TaskStep now t eff t')
    (ok : Bool) (name : String) : counted ok name t' =
      counted ok name t + if eff = .probed ok ∧ t.actor.name = name then 1 else 0 := by
  cases hs with
  | probed ok' _ =>
    by_cases hname : t.actor.name = name
    · subst hname
      cases ok <;> cases ok' <;> simp [counted, List.count_append]
    · simp [counted, hname]
  | _ =>
    rw [if_neg (fun h => nomatch h.1), Nat.add_zero]
    rfl

/-- In every state of a run the counters of a check are the numbers of good and of failed probes
that all its actors have made, those included that a reload has replaced. -/
theorem counters_of_reaches {plan : MergedPlan} (h : Reaches Board.step Always (start plan) s)
    (name : String) : s.metrics.successCount name = tally true name s.tasks ∧
      s.metrics.failureCount name = tally false name s.tasks := by
  suffices hok : ∀ ok, s.counter ok name = tally ok name s.tasks from ⟨hok true, hok false⟩
  intro ok
  refine h.invariant (P := fun s => s.counter ok name = tally ok name s.tasks) ?_
    fun s l s' _ ih _ hs => ?_
  · obtain ⟨-, -, -, -, hmetrics, -⟩ := ({ plan } : Board).syncActors_keeps
    have htally := (follows_syncActors (s := { plan })).tally_eq ok name
    show Board.counter _ ok name = _
    rw [counter, start, hmetrics]
    refine Eq.trans ?_ htally.symm
    cases ok <;> rfl
  · cases step_cases hs with
    | pass | query | command | shutdown | event => exact ih
    | @task i t t' eff ht hstep _ =>
      have hsum := sum_map_set (counted ok name) s.tasks i t' ht
      rw [counted_step hstep] at hsum
      rw [((s.setTask i t').afterEffect_keeps t eff).2.1, counter_afterEffect,
        show (s.setTask i t').counter ok name = s.counter ok name from rfl, ih]
      show _ = ((s.tasks.set i t').map (counted ok name)).sum
      rw [tally]
      omega
    | overlord _ _ hstep =>
      obtain ⟨hfollows, -, -, hmetrics⟩ := overlordStep_follows hstep
      rw [hfollows.tally_eq ok name, ← ih, counter, counter, hmetrics]

/-- The probes of the two actors that the check of `overtaken` has had. -/
theorem counters_of_overtaken : ∃ s, Reaches Board.step Always (start slowPlan) s ∧
    s.tasks.map CheckTask.results = [[false], [true]] ∧
      s.metrics.successCount "c" = tally true "c" s.tasks ∧
        s.metrics.failureCount "c" = tally false "c" s.tasks := by
  have hrun : (runIf Board.step Always (start slowPlan) overtaken).isSome = true := by decide
  have hr := Reaches.getD_runIf (d := start slowPlan) hrun
  exact ⟨_, hr, rfl, counters_of_reaches hr "c"⟩

end Board

end Vigil.Check
