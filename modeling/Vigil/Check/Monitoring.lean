import Mathlib.Data.List.Infix
import Vigil.Alert.Routing
import Vigil.Check.Agreement

/-!
# From the probes to the alerts

The board and the alert sender with its deliveries, as one system: where the overlord takes a check
event, it hands it to the alert sender in the same action, and everything else goes on by itself.

An actor reports some of what its probes find, the channel passes it on, and the sender drops what
does not change anything. `alerts_of_reaches` says what comes of it, end to end: an alert that lists
a check is sent the changes of what the check's probes amount to, beginning with the first time that
it is down, in order and up to what is still on its way. This is so whatever the threshold, however
the probes end, and whatever reloads do, if they are gentle (`Board.Gentle`) and the queue of the
sender has room (`Alerting.Roomy`).
-/

namespace Vigil.Check

open CheckTask (TaskStep Effect Same Still)
open Runs

/-! ## The reports of an actor -/

namespace Actor

/-- A probe's report is the status, or that twice in the first run, or nothing. -/
theorem tick_cases (a : Actor) (ok : Bool) :
    (a.tick ok).2 = [(a.tick ok).1.status] ∨
      a.firstRun = true ∧ (a.tick ok).2 = [(a.tick ok).1.status, (a.tick ok).1.status] ∨
        a.firstRun = false ∧ (a.tick ok).2 = [] ∧ (a.tick ok).1.status = a.status := by
  cases hfirst : a.firstRun <;> cases ok <;> cases hstatus : a.status <;>
    simp only [tick, record, hfirst, hstatus] <;> split_ifs <;> simp_all

/-- What the probes with these results amount to. -/
def statusAfter (config : CheckConfig) (initial : CheckStatus) (oks : List Bool) : CheckStatus :=
  if max 1 (config.threshold.getD defaultThreshold).toNat ≤ failuresSinceSuccess oks ∨
      initial = .down ∧ true ∉ oks then .down
  else .up

/-- What the probes amount to, after each of them. -/
def history (config : CheckConfig) (initial : CheckStatus) (oks : List Bool) : List CheckStatus :=
  oks.inits.tail.map (statusAfter config initial)

variable (name : String) (config : CheckConfig) (initial : CheckStatus) (oks : List Bool)

/-- The actor's status is what its probes amount to. -/
theorem status_eq_statusAfter :
    ((start name config initial).ticks oks).1.status = statusAfter config initial oks := by
  have h := (tracks_ticks name config initial oks).status
  unfold statusAfter
  split_ifs with hdown
  · exact h.mpr hdown
  · cases hs : ((start name config initial).ticks oks).1.status with
    | up => rfl
    | down => exact absurd (h.mp hs) hdown

/-- One more probe adds the status after it to the history. -/
theorem history_concat (ok : Bool) : history config initial (oks ++ [ok]) =
    history config initial oks ++ [statusAfter config initial (oks ++ [ok])] := by
  have htail : (oks.inits ++ [oks ++ [ok]]).tail = oks.inits.tail ++ [oks ++ [ok]] := by
    cases oks <;> rfl
  rw [history, List.inits_append, history]
  simp [htail]

end Actor

/-- Two sequences of observations have the same edges whatever comes before and after. -/
structure SameEdges (xs ys : List CheckStatus) : Prop where
  edges : ∀ last, Edges.edgesFrom .up last xs = Edges.edgesFrom .up last ys
  last : xs.getLast? = ys.getLast?

/-- Two empty sequences have the same edges. -/
theorem SameEdges.nil : SameEdges [] [] := ⟨fun _ => rfl, rfl⟩

/-- Sequences whose parts have the same edges have the same edges. -/
theorem SameEdges.append {xs ys xs' ys' : List CheckStatus} (h : SameEdges xs ys)
    (h' : SameEdges xs' ys') : SameEdges (xs ++ xs') (ys ++ ys') where
  edges last := by
    rw [Edges.edgesFrom_append, Edges.edgesFrom_append, h.edges, h.last, h'.edges]
  last := by rw [List.getLast?_append, List.getLast?_append, h.last, h'.last]

/-- Sequences that are put together of parts have the same edges if the parts have. -/
theorem SameEdges.flatMap {α : Type*} (l : List α) {f g : α → List CheckStatus}
    (h : ∀ a ∈ l, SameEdges (f a) (g a)) : SameEdges (l.flatMap f) (l.flatMap g) := by
  induction l with
  | nil => exact .nil
  | cons a l ih =>
    rw [List.flatMap_cons, List.flatMap_cons]
    exact (h a List.mem_cons_self).append (ih fun b hb => h b (List.mem_cons_of_mem _ hb))

/-- What an actor reports has the edges of what its probes amount to. -/
theorem Actor.sameEdges_reports (name : String) (config : CheckConfig) (initial : CheckStatus)
    (oks : List Bool) :
    SameEdges ((start name config initial).ticks oks).2 (history config initial oks) := by
  induction oks using List.reverseRecOn with
  | nil => exact .nil
  | append_singleton oks ok ih =>
    have htracks := tracks_ticks name config initial oks
    rw [ticks_concat, history_concat, ← status_eq_statusAfter name, ticks_concat]
    set r := (start name config initial).ticks oks
    have htwice (x : CheckStatus) (last : Option CheckStatus) :
        Edges.edgesFrom .up last [x, x] = Edges.edgesFrom .up last [x] := by
      simp only [Edges.edgesFrom]
      rw [if_neg (show ¬Edges.IsEdge .up (some x) x from fun h => h.1 rfl)]
    rcases r.1.tick_cases ok with hone | ⟨-, htwo⟩ | ⟨hfirst, hnil, hsame⟩
    · rw [hone]
      exact ih.append ⟨fun _ => rfl, rfl⟩
    · rw [htwo]
      exact ih.append ⟨htwice _, rfl⟩
    · -- What is not reported is what was reported last.
      have hoks : oks ≠ [] := by
        have h := htracks.firstRun
        rw [hfirst] at h
        exact of_decide_eq_false h.symm
      have hlast := htracks.last hoks
      rw [hnil, List.append_nil, hsame]
      refine ⟨fun last => ?_, ?_⟩
      · rw [Edges.edgesFrom_append, ih.edges, ← ih.last, hlast, Option.some_or, Edges.edgesFrom,
          if_neg (fun h => h.1 rfl), Edges.edgesFrom, List.append_nil]
      · rw [List.getLast?_append, hlast]
        rfl

/-! ## The tasks of a check -/

namespace Board

variable {s s' : Board}

/-- Of the actors of a check the overlord has at most the handle of the last one. -/
def Older (s : Board) : Prop :=
  ∀ (i j : ℕ) (t u : CheckTask), i < j → s.tasks[i]? = some t → s.tasks[j]? = some u →
    t.actor.name = u.actor.name → t.held = false

/-- The task of a live actor has an entry under its name. -/
theorem exists_entry (hc : s.registry.Coherent) {i : ℕ} {t : CheckTask}
    (ht : s.tasks[i]? = some t) (hheld : t.held = true) :
    ∃ e, s.checks.get? t.actor.name = some e := by
  have hlive : s.registry.Live i t.toActor := by
    refine ⟨?_, by simp [CheckTask.toActor, hheld]⟩
    show (s.tasks.map CheckTask.toActor)[i]? = _
    rw [List.getElem?_map, ht, Option.map_some]
  obtain ⟨e, he, -⟩ := hc.live i _ hlive
  exact ⟨e, he⟩

/-- The tasks that were there go on, and no new one comes. -/
theorem Older.of_same (h : s.Older) (hsame : ∀ (i : ℕ) (t' : CheckTask), s'.tasks[i]? = some t' →
    ∃ t, s.tasks[i]? = some t ∧ t'.actor.name = t.actor.name ∧ (t'.held = true → t.held = true)) :
    s'.Older := by
  intro i j t' u' hij ht' hu' hname
  obtain ⟨t, ht, htname, htheld⟩ := hsame i t' ht'
  obtain ⟨u, hu, huname, -⟩ := hsame j u' hu'
  have hheld := h i j t u hij ht hu (htname ▸ huname ▸ hname)
  cases hh : t'.held with
  | false => rfl
  | true => exact absurd ((htheld hh).symm.trans hheld) (by decide)

/-- After a spawn under a name without an entry, the overlord has at most the handles of the last
actors. -/
theorem Older.spawn (h : s.Older) (hc : s.registry.Coherent) {name : String} (config : CheckConfig)
    (hn : s.checks.get? name = none) : (s.spawn name config).Older := by
  intro i j t u hij ht hu hname
  have hlt : i < s.tasks.length := by
    have hj := (List.getElem?_eq_some_iff.mp hu).1
    simp only [Board.spawn, List.length_append, List.length_singleton] at hj
    omega
  rw [Board.spawn, List.getElem?_append_left hlt] at ht
  rcases lt_or_ge j s.tasks.length with hj | hj
  · rw [Board.spawn, List.getElem?_append_left hj] at hu
    exact h i j t u hij ht hu hname
  · rw [Board.spawn, List.getElem?_append_right hj] at hu
    have hu := List.mem_singleton.mp (List.mem_of_getElem? hu)
    cases hh : t.held with
    | false => rfl
    | true =>
      obtain ⟨e, he⟩ := exists_entry hc ht hh
      rw [hname, hu] at he
      exact absurd (hn.symm.trans he) (Option.some_ne_none e).symm

/-- After the end of an entry, the overlord has at most the handles of the last actors. -/
theorem Older.retire (h : s.Older) (name : String) (entry : CheckEntry) :
    (s.retire name entry).Older := by
  refine h.of_same fun i t' ht' => ?_
  simp only [Board.retire, List.getElem?_modify] at ht'
  cases ht : s.tasks[i]? with
  | none => rw [ht] at ht'; cases ht'
  | some t =>
    rw [ht] at ht'
    refine ⟨t, rfl, ?_⟩
    split_ifs at ht'
    · obtain rfl := Option.some.inj ht'
      have hsame := CheckTask.same_release t
      exact ⟨congrArg Actor.name hsame.actor, hsame.held⟩
    · obtain rfl := Option.some.inj ht'
      exact ⟨rfl, id⟩

/-- After `sync_actors` the overlord has at most the handles of the last actors. -/
theorem Older.syncActors (h : s.Older) (hq : s.AllQuiet) : s.syncActors.Older := by
  unfold Board.syncActors
  induction s.plan.checks.entries generalizing s with
  | nil => exact h
  | cons e es ih =>
    refine ih ?_ (hq.syncCheck e)
    unfold Board.syncCheck
    split_ifs
    · exact h
    · cases hget : s.checks.get? e.1 with
      | none => exact h.spawn hq.coherent e.2 hget
      | some entry =>
        simp only
        split_ifs
        · exact h
        · refine (h.retire e.1 entry).spawn (hq.retire hget).coherent e.2 ?_
          exact (s.checks.get?_shiftRemove e.1 e.1).trans (if_pos rfl)

/-- After a step of the board the overlord has at most the handles of the last actors. -/
theorem Older.step (h : s.Older) (hinv : s.Inv) {l : BoardLabel} (hs : s.step l = some s') :
    s'.Older := by
  -- One task is replaced.
  have hset {i : ℕ} {t t' : CheckTask} (ht : s.tasks[i]? = some t)
      (hname : t'.actor.name = t.actor.name) (hheld : t'.held = true → t.held = true) (j : ℕ)
      (u : CheckTask) (hu : (s.tasks.set i t')[j]? = some u) : ∃ v, s.tasks[j]? = some v ∧
        u.actor.name = v.actor.name ∧ (u.held = true → v.held = true) := by
    rcases getElem?_set_cases hu with ⟨rfl, rfl⟩ | ⟨-, hu⟩
    · exact ⟨t, ht, hname, hheld⟩
    · exact ⟨u, hu, rfl, id⟩
  cases step_cases hs with
  | pass | query | command | shutdown | event => exact h
  | @task i t t' eff ht hstep _ =>
    refine h.of_same fun j u hu => ?_
    rw [((s.setTask i t').afterEffect_keeps t eff).2.1] at hu
    exact hset ht hstep.keeps.2.2.1 (fun hh => hstep.keeps.2.1 ▸ hh) j u hu
  | overlord _ htodo hstep =>
    cases hstep with
    | services | reply | dropped => exact h
    | ask ht hp | tell ht hp =>
      have hsame := CheckTask.same_push hp
      exact h.of_same fun j u hu => hset ht (congrArg Actor.name hsame.actor) hsame.held j u hu
    | @receive i rest t ht _ =>
      exact h.of_same fun j u hu => @hset i t { t with answer := none } ht rfl id j u hu
    | @sync plan rest =>
      obtain ⟨he, hq, -⟩ := hinv.handling.tail htodo trivial
      have hall : ({ s with plan } : Board).AllQuiet :=
        ⟨⟨(hinv.coherent he).entry, (hinv.coherent he).live⟩, hq⟩
      exact Older.syncActors (s := { s with plan }) h hall
    | drop _ ht hp =>
      have hsame := (CheckTask.same_push hp).trans (CheckTask.same_unheld _)
      exact h.of_same fun j u hu => hset ht (congrArg Actor.name hsame.actor) hsame.held j u hu
    | finish =>
      refine h.of_same fun j u hu => ?_
      obtain ⟨v, hv, rfl⟩ := Option.map_eq_some_iff.mp (List.getElem?_map .. ▸ hu)
      exact ⟨v, hv, rfl, nofun⟩

/-- At the start the overlord has at most the handles of the last actors. -/
theorem older_start (plan : MergedPlan) : (start plan).Older := by
  have hempty : ({ plan } : Board).Older := fun i j t u _ ht => by cases ht
  have hq : ({ plan } : Board).AllQuiet :=
    { coherent := CheckRegistry.coherent_empty plan
      quiet := fun i t h => by cases h }
  exact hempty.syncActors hq

/-- In every state of a run the overlord has at most the handles of the last actors. -/
theorem older_of_reaches {plan : MergedPlan} (h : Reaches Board.step Always (start plan) s) :
    s.Older :=
  h.invariant (older_start plan) fun _ _ _ hr hs _ hl => hs.step (inv_of_reaches hr) hl

end Board

/-! ## The system -/

/-- The check actors, the overlord, and the alerts. -/
structure Monitoring where
  board : Board
  alerting : Alerting

/-- The overlord takes a check event. -/
def BoardLabel.isEvent : BoardLabel → Bool
  | .event _ => true
  | _ => false

/-- The sender is handed a check event. -/
def isEvent : AlertLabel → Bool
  | .event _ _ => true
  | _ => false

/-- What happens. -/
inductive MonitorLabel
  /-- The overlord takes a check event, and hands it to the alert sender. -/
  | event (exits : Bool)
  /-- Something else on the board. -/
  | board (l : BoardLabel)
  /-- Something else about the alerts. -/
  | alerting (l : AlertLabel)

namespace Monitoring

variable (env : String → Option String) (s : Monitoring)

/-- One step. -/
def step : MonitorLabel → Option Monitoring
  | .event exits =>
    match s.board.events with
    | [] => none
    | ev :: _ => do
      let board ← s.board.step (.event exits)
      let alerting ← s.alerting.step env (.event ev.1 ev.2)
      return { board, alerting }
  | .board l => if l.isEvent then none else (s.board.step l).map fun board => { s with board }
  | .alerting l =>
    if isEvent l then none else (s.alerting.step env l).map fun alerting => { s with alerting }

/-- The reloads are gentle, and the queue of the alert sender has room. -/
def Sound (s : Monitoring) : MonitorLabel → Prop
  | .event _ => ∀ ev ∈ s.board.events.head?, s.alerting.Roomy (.event ev.1 ev.2)
  | .board l => s.board.Gentle l
  | .alerting l => s.alerting.Roomy l

/-- The daemon at its start, before the overlord's first wait. -/
def start (plan : MergedPlan) (sender : AlertSender) : Monitoring where
  board := .start plan
  alerting := { sender }

variable {env s} {s' : Monitoring}

/-- What one step does. -/
inductive MonitorStep (env : String → Option String) (s : Monitoring) :
    MonitorLabel → Monitoring → Prop
  | event {exits ev rest board alerting} (he : s.board.events = ev :: rest)
    (hb : s.board.step (.event exits) = some board)
    (ha : s.alerting.step env (.event ev.1 ev.2) = some alerting) :
    MonitorStep env s (.event exits) { board, alerting }
  | board {l board} (hl : l.isEvent = false) (hb : s.board.step l = some board) :
    MonitorStep env s (.board l) { s with board }
  | alerting {l alerting} (hl : isEvent l = false)
    (ha : s.alerting.step env l = some alerting) :
    MonitorStep env s (.alerting l) { s with alerting }

/-- Every step is one of those that `MonitorStep` lists. -/
theorem step_cases {l : MonitorLabel} (h : s.step env l = some s') : MonitorStep env s l s' := by
  cases l with
  | event exits =>
    simp only [step] at h
    split at h
    · cases h
    · next ev rest he =>
      obtain ⟨board, hb, h⟩ := Option.bind_eq_some_iff.mp h
      obtain ⟨alerting, ha, h⟩ := Option.bind_eq_some_iff.mp h
      exact Option.some.inj h ▸ .event he hb ha
  | board l =>
    simp only [step] at h
    split_ifs at h with hl
    obtain ⟨board, hb, rfl⟩ := Option.map_eq_some_iff.mp h
    exact .board (by simpa using hl) hb
  | alerting l =>
    simp only [step] at h
    split_ifs at h with hl
    obtain ⟨alerting, ha, rfl⟩ := Option.map_eq_some_iff.mp h
    exact .alerting (by simpa using hl) ha

/-- The board of a sound run has come there in a gentle run of its own. -/
theorem reaches_board {plan : MergedPlan} {sender : AlertSender}
    (h : Reaches (step env) Sound (start plan sender) s) :
    Reaches Board.step Board.Gentle (.start plan) s.board := by
  induction h with
  | refl => exact .refl
  | tail _ hG hs ih =>
    cases step_cases hs with
    | @event exits _ _ _ _ _ hb _ => exact ih.tail (l := .event exits) nofun hb
    | board _ hb => exact ih.tail hG hb
    | alerting => exact ih

/-- The alert sender of a sound run has come there in a roomy run of its own. -/
theorem reaches_alerting {plan : MergedPlan} {sender : AlertSender}
    (h : Reaches (step env) Sound (start plan sender) s) :
    Reaches (Alerting.step env) Alerting.Roomy { sender } s.alerting := by
  induction h with
  | refl => exact .refl
  | tail _ hG hs ih =>
    cases step_cases hs with
    | @event _ ev rest _ _ he _ ha => exact ih.tail (hG ev (by rw [he]; rfl)) ha
    | board => exact ih
    | alerting _ ha => exact ih.tail hG ha

/-! ## The reports on their way -/

/-- What the actors of a check have reported of their probes. -/
def reports (name : String) (t : CheckTask) : List CheckStatus :=
  if t.actor.name = name then ((Actor.start t.actor.name t.config t.initial).ticks t.results).2
  else []

/-- What the actors of a check have still to send. -/
def unsent (name : String) (t : CheckTask) : List CheckStatus :=
  if t.actor.name = name then t.outbox else []

/-- What the channel has of a check. -/
def queued (name : String) (b : Board) : List CheckStatus :=
  (b.events.filter fun ev => ev.1 = name).map Prod.snd

/-- What has still to come of a check: what the channel has, and what its actors have to send. -/
def coming (name : String) (b : Board) : List CheckStatus :=
  queued name b ++ b.tasks.flatMap (unsent name)

/-- The alert sender has the statuses that the board says it has, and what the actors report gets
there: nothing is lost, and nothing is out of order. -/
structure Piped (s : Monitoring) : Prop where
  last : ∀ name, s.board.lastStatus name = (statuses name s.alerting.events).getLast?
  reports : ∀ name, statuses name s.alerting.events ++ coming name s.board =
    s.board.tasks.flatMap (reports name)

/-- The alerts know of no more events. -/
theorem events_of_step {a a' : Alerting} {l : AlertLabel} (hl : isEvent l = false)
    (h : a.step env l = some a') : a'.events = a.events := by
  cases l with
  | event => cases hl
  | updateAlerts | tick => exact Option.some.inj h ▸ rfl
  | updateQueueLimits =>
    obtain ⟨sender, -, h⟩ := Option.bind_eq_some_iff.mp h
    exact Option.some.inj h ▸ rfl
  | recv =>
    obtain ⟨r, -, h⟩ := Option.bind_eq_some_iff.mp h
    exact Option.some.inj h ▸ rfl
  | recvRetired | answer | wake =>
    obtain ⟨r, -, h⟩ := Option.bind_eq_some_iff.mp h
    obtain ⟨r', -, h⟩ := Option.bind_eq_some_iff.mp h
    exact Option.some.inj h ▸ rfl

/-- The alerts know of one more event. -/
theorem statuses_of_event {a a' : Alerting} {check : String} {status : CheckStatus}
    (h : a.step env (.event check status) = some a') (name : String) :
    statuses name a'.events = statuses name a.events ++ if check = name then [status] else [] := by
  obtain rfl := Option.some.inj h
  exact statuses_append_singleton name a.events _

/-- What is collected over the tasks changes only at the one that is replaced. -/
theorem flatMap_set (f : CheckTask → List CheckStatus) {tasks : List CheckTask} {i : ℕ}
    {t : CheckTask} (ht : tasks[i]? = some t) (t' : CheckTask) :
    tasks.flatMap f = (tasks.take i).flatMap f ++ f t ++ (tasks.drop (i + 1)).flatMap f ∧
      (tasks.set i t').flatMap f =
        (tasks.take i).flatMap f ++ f t' ++ (tasks.drop (i + 1)).flatMap f := by
  obtain ⟨hi, rfl⟩ := List.getElem?_eq_some_iff.mp ht
  constructor
  · conv_lhs => rw [← List.take_append_drop i tasks, List.drop_eq_getElem_cons hi]
    rw [List.flatMap_append, List.flatMap_cons, List.append_assoc]
  · rw [List.set_eq_take_append_cons_drop, if_pos hi, List.flatMap_append, List.flatMap_cons,
      List.append_assoc]

/-- The tasks of a check, but one of it, when it goes on: those before it have nothing to send, and
there is none after it. -/
theorem flatMap_of_split {b : Board} (hagrees : b.Agrees) (holder : b.Older) {i : ℕ}
    {t : CheckTask} (ht : b.tasks[i]? = some t) (hheld : t.held = true) :
    (b.tasks.take i).flatMap (unsent t.actor.name) = [] ∧
      (b.tasks.drop (i + 1)).flatMap (unsent t.actor.name) = [] ∧
        (b.tasks.drop (i + 1)).flatMap (reports t.actor.name) = [] := by
  refine ⟨?_, ?_, ?_⟩ <;> refine List.flatMap_eq_nil_iff.mpr fun u hu => ?_
  · obtain ⟨j, hj⟩ := List.mem_iff_getElem?.mp hu
    rw [List.getElem?_take] at hj
    split_ifs at hj with hlt
    rw [unsent]
    split_ifs with hname
    · exact (hagrees.still j u hj (holder j i u t hlt hj ht hname)).outbox
    · rfl
  all_goals
    obtain ⟨j, hj⟩ := List.mem_iff_getElem?.mp hu
    rw [List.getElem?_drop] at hj
    have hname : u.actor.name ≠ t.actor.name := fun hname =>
      absurd (hheld.symm.trans (holder i _ t u (by omega) ht hj hname.symm)) (by decide)
    first
    | rw [unsent, if_neg hname]
    | rw [reports, if_neg hname]

/-- What a task sends in a step and has to send after it is what it had to send, and the reports of
a probe that has ended. -/
theorem unsent_step {t t' : CheckTask} {now : ℕ} {eff : Effect} (hfaithful : t.Faithful)
    (hs : TaskStep now t eff t') : ∃ new,
      eff.statuses ++ unsent t.actor.name t' = unsent t.actor.name t ++ new ∧
        reports t.actor.name t' = reports t.actor.name t ++ new := by
  obtain ⟨-, -, hname, hconfig, hinitial⟩ := hs.keeps
  rw [unsent, unsent, reports, reports, hname, hconfig, hinitial]
  simp only [if_true]
  rcases hs.sends with ⟨-, hresults, hsent⟩ | ⟨ok, hprobing, rfl, -, hsent⟩
  · exact ⟨[], by rw [hsent, List.append_nil], by rw [hresults, List.append_nil]⟩
  · refine ⟨(t.actor.tick ok).2, ?_, ?_⟩
    · rw [hsent, CheckTask.outbox, hprobing]
      rfl
    · cases hs with
      | probed _ _ =>
        show (Actor.ticks _ (t.results ++ [ok])).2 = _
        rw [Actor.ticks_concat, ← hfaithful.actor]

/-- Of another check a task has nothing to send, and no reports. -/
theorem unsent_of_ne {name : String} {t : CheckTask} (h : t.actor.name ≠ name) :
    unsent name t = [] ∧ reports name t = [] := ⟨if_neg h, if_neg h⟩

/-- A step of a task puts its report behind the others of the task's check. -/
theorem queued_afterEffect {b : Board} (hended : b.ended = false) (t : CheckTask) (eff : Effect)
    (name : String) : queued name (b.afterEffect t eff) =
      queued name b ++ if t.actor.name = name then eff.statuses else [] := by
  cases eff with
  | sent status =>
    rw [Board.afterEffect, if_neg (by simp [hended])]
    by_cases hname : t.actor.name = name <;> simp [queued, CheckTask.Effect.statuses, hname]
  | _ => split_ifs <;> exact (List.append_nil _).symm

/-- A step of a task: what comes of its check grows by what the actor reports of a probe. -/
theorem coming_task {b : Board} (name : String) (hinv : b.Inv)
    (hfaithful : Every CheckTask.Faithful b.tasks) (hagrees : b.Agrees) (holder : b.Older)
    (hended : b.ended = false) {i : ℕ} {t t' : CheckTask} {eff : Effect}
    (ht : b.tasks[i]? = some t) (hs : TaskStep b.now t eff t') :
    ∃ new, coming name ((b.setTask i t').afterEffect t eff) = coming name b ++ new ∧
      ((b.setTask i t').afterEffect t eff).tasks.flatMap (reports name) =
        b.tasks.flatMap (reports name) ++ new := by
  have hqueued : queued name ((b.setTask i t').afterEffect t eff) = queued name b ++ _ :=
    queued_afterEffect (b := b.setTask i t') hended t eff name
  obtain ⟨hunsent, hunsent'⟩ := flatMap_set (unsent name) ht t'
  obtain ⟨hreports, hreports'⟩ := flatMap_set (reports name) ht t'
  rw [coming, coming, hqueued, ((b.setTask i t').afterEffect_keeps t eff).2.1, Board.setTask,
    hunsent, hunsent', hreports, hreports']
  by_cases hname : t.actor.name = name
  · subst hname
    obtain ⟨new, hnew, hreported⟩ := unsent_step (hfaithful i t ht) hs
    rw [if_pos rfl, hreported]
    cases hheld : t.held with
    | true =>
      -- The other tasks of the check are before it, and have nothing to send.
      obtain ⟨hbefore, hafter, hnone⟩ := flatMap_of_split hagrees holder ht hheld
      rw [hbefore, hafter, hnone]
      exact ⟨new, by simp [hnew], by simp⟩
    | false =>
      have hstill := hagrees.still i t ht hheld
      obtain ⟨hstill', rfl⟩ := hstill.step hheld (hinv.handling.told ht hheld) hs
      have hname' := hs.keeps.2.2.1
      rw [unsent, unsent, hname', hstill.outbox, hstill'.outbox] at hnew
      obtain rfl : new = [] := by simpa [CheckTask.Effect.statuses] using hnew.symm
      rw [unsent, unsent, hname', hstill.outbox, hstill'.outbox]
      exact ⟨[], by simp [CheckTask.Effect.statuses], by simp⟩
  · have hname' : t'.actor.name ≠ name := hs.keeps.2.2.1.symm ▸ hname
    rw [if_neg hname, (unsent_of_ne hname).1, (unsent_of_ne hname).2, (unsent_of_ne hname').1,
      (unsent_of_ne hname').2]
    exact ⟨[], by simp, by simp⟩

/-- An action that the tasks follow changes neither what is on its way of a check nor what its tasks
have reported, if it leaves the events alone. -/
theorem coming_follows {b b' : Board} (name : String) (hf : b.Follows b')
    (hevents : b'.events = b.events) : coming name b' = coming name b ∧
      b'.tasks.flatMap (reports name) = b.tasks.flatMap (reports name) := by
  have hsame (f : CheckTask → List CheckStatus) (hf' : ∀ t t', t.Same t' → f t' = f t)
      (hnew : ∀ t : CheckTask, t.phase = .delay ∧ t.results = [] → f t = []) :
      b'.tasks.flatMap f = b.tasks.flatMap f := by
    obtain ⟨new, hmap, hdelay⟩ := hf.exists_map_eq f hf'
    have hnil : new.flatMap f = [] := List.flatMap_eq_nil_iff.mpr fun t ht => hnew t (hdelay t ht)
    rw [List.flatMap_def, hmap, List.flatten_append, ← List.flatMap_def, ← List.flatMap_def, hnil,
      List.append_nil]
  have hunsent := hsame (unsent name)
    (fun t t' h => by rw [unsent, unsent, CheckTask.outbox, CheckTask.outbox, h.actor, h.phase])
    (fun t h => by rw [unsent, CheckTask.outbox, h.1]; split_ifs <;> rfl)
  have hreports := hsame (reports name)
    (fun t t' h => by rw [reports, reports, h.actor, h.config, h.initial, h.results])
    (fun t h => by rw [reports, h.2]; split_ifs <;> rfl)
  exact ⟨by rw [coming, coming, hunsent, queued, queued, hevents], hreports⟩

/-- Every step of the board, but those in which the overlord takes a check event. -/
theorem coming_step {b b' : Board} (name : String) {l : BoardLabel} (hl : l.isEvent = false)
    (hs : b.step l = some b') (hinv : b.Inv) (hfaithful : Every CheckTask.Faithful b.tasks)
    (hagrees : b.Agrees) (holder : b.Older) (hended : b.ended = false) :
    b'.lastStatus = b.lastStatus ∧ ∃ new, coming name b' = coming name b ++ new ∧
      b'.tasks.flatMap (reports name) = b.tasks.flatMap (reports name) ++ new := by
  cases Board.step_cases hs with
  | pass | query | command | shutdown =>
    exact ⟨rfl, [], (List.append_nil _).symm, (List.append_nil _).symm⟩
  | @task i t t' eff ht hstep _ =>
    exact ⟨((b.setTask i t').afterEffect_keeps t eff).2.2.2.2.2.1,
      coming_task name hinv hfaithful hagrees holder hended ht hstep⟩
  | overlord _ _ hstep =>
    obtain ⟨hfollows, hevents, hlast, -⟩ := Board.overlordStep_follows hstep
    obtain ⟨hcoming, hreports⟩ := coming_follows name hfollows hevents
    exact ⟨hlast, [], by rw [hcoming, List.append_nil], by rw [hreports, List.append_nil]⟩
  | event hl' => rw [hl'] at hl; cases hl

/-- Taking a check event takes the oldest one, notes its status as the last one of its check, and
leaves the tasks alone. -/
theorem event_of_step {b b' : Board} {ev : String × CheckStatus} {exits : Bool}
    {rest : List (String × CheckStatus)} (he : b.events = ev :: rest)
    (h : b.step (.event exits) = some b') : b'.events = rest ∧
      b'.lastStatus = Function.update b.lastStatus ev.1 (some ev.2) ∧ b'.tasks = b.tasks := by
  simp only [Board.step, he] at h
  by_cases hhead : b.atHead = true
  · rw [if_pos hhead] at h
    exact Option.some.inj h ▸ ⟨rfl, rfl, rfl⟩
  · rw [if_neg hhead] at h
    cases h

/-- Every step of a run in which the reloads are gentle. -/
theorem Piped.step (h : s.Piped) {l : MonitorLabel} (hs : s.step env l = some s')
    (hinv : s.board.Inv) (hfaithful : Every CheckTask.Faithful s.board.tasks)
    (hagrees : s.board.Agrees) (holder : s.board.Older) (hended : s.board.ended = false) :
    s'.Piped := by
  cases step_cases hs with
  | @event exits ev rest board alerting he hb ha =>
    obtain ⟨check, status⟩ := ev
    obtain ⟨hevents, hlast, htasks⟩ := event_of_step he hb
    refine ⟨fun name => ?_, fun name => ?_⟩ <;> rw [statuses_of_event ha]
    · rw [hlast]
      by_cases hname : check = name
      · subst hname
        simp
      · rw [if_neg hname, List.append_nil, ← h.last name]
        exact Function.update_of_ne (fun hc => hname hc.symm) _ _
    · show _ ++ coming name board = board.tasks.flatMap _
      rw [htasks, ← h.reports name, coming, coming, queued, queued, he, hevents, htasks,
        List.append_assoc]
      by_cases hname : check = name <;> simp [hname]
  | @board l board hl hb =>
    refine ⟨fun name => ?_, fun name => ?_⟩ <;>
      obtain ⟨hlast, new, hcoming, hreports⟩ :=
        coming_step name hl hb hinv hfaithful hagrees holder hended
    · exact (congrFun hlast name).trans (h.last name)
    · show _ ++ coming name board = board.tasks.flatMap _
      rw [hcoming, hreports, ← h.reports name, List.append_assoc]
  | alerting hl ha =>
    have hevents := events_of_step hl ha
    exact ⟨fun name => hevents ▸ h.last name, fun name => hevents ▸ h.reports name⟩

/-- At the start nothing has been reported or taken, so that nothing is lost. -/
theorem piped_start (plan : MergedPlan) (sender : AlertSender) : (start plan sender).Piped := by
  obtain ⟨hevents, -, -, hlast, -⟩ := ({ plan } : Board).syncActors_keeps
  refine ⟨fun name => congrFun hlast name, fun name => ?_⟩
  obtain ⟨hcoming, hreports⟩ :=
    coming_follows name (Board.follows_syncActors (s := { plan })) hevents
  exact hcoming.trans hreports.symm

/-- What the probes of a check's actors amount to, after each of them. -/
def past (name : String) (t : CheckTask) : List CheckStatus :=
  if t.actor.name = name then Actor.history t.config t.initial t.results else []

/-- What the actors of a check report has the edges of what their probes amount to. -/
theorem sameEdges_past (name : String) (tasks : List CheckTask) :
    SameEdges (tasks.flatMap (reports name)) (tasks.flatMap (past name)) := by
  refine .flatMap tasks fun t _ => ?_
  unfold reports past
  split_ifs
  · exact Actor.sameEdges_reports ..
  · exact .nil

/-- In every run in which the reloads are gentle. -/
theorem piped_of_reaches {plan : MergedPlan} {sender : AlertSender}
    (h : Reaches (step env) Sound (start plan sender) s) (hended : s.board.ended = false) :
    s.Piped := by
  refine h.invariant (P := fun s => s.board.ended = false → s.Piped)
    (fun _ => piped_start plan sender) (fun s l s' hr ih _ hs hended' => ?_) hended
  have hb := reaches_board hr
  have hended : s.board.ended = false := by
    cases step_cases hs with
    | event _ hstep _ | board _ hstep => exact Board.ended_of_step hstep hended'
    | alerting => exact hended'
  exact (ih hended).step hs (Board.inv_of_reaches hb.always) (Board.kept_faithful.every hb.always)
    (Board.agrees_of_reaches hb hended) (Board.older_of_reaches hb.always) hended

/-- In a run in which the reloads are gentle and the queue of the alert sender has room, and before
the overlord's task ends, an alert that lists a check is sent the changes of what the probes of the
check amount to, beginning with the first time that it is down; in order, none twice, and none left
out once there is nothing more to come of the check. The status with which the overlord spawns an
actor is the alert sender's. -/
theorem alerts_of_reaches {queueDepth maxAgeSecs : ℕ} {plan : MergedPlan} {sender : AlertSender}
    (h₀ : AlertSender.withQueueLimits queueDepth maxAgeSecs = some sender)
    (h : Reaches (step env) Sound (start plan sender) s) (hended : s.board.ended = false)
    {alert name : String} (hsub : Subscribed alert name s.alerting.events) :
    sentStatuses alert name s.alerting.events <+:
        Edges.edges .up (s.board.tasks.flatMap (past name)) ∧
      (coming name s.board = [] → sentStatuses alert name s.alerting.events =
        Edges.edges .up (s.board.tasks.flatMap (past name))) ∧
      s.board.lastStatus name = s.alerting.sender.checkStatus name := by
  obtain ⟨q, -, rfl⟩ := Option.map_eq_some_iff.mp h₀
  have hlawful : s.alerting.Lawful :=
    (reaches_alerting h).invariant ⟨List.nodup_nil, fun _ => rfl, by simp [AllRouted]⟩
      fun _ _ _ _ hl hroom hs => hl.step hroom hs
  have hpiped := piped_of_reaches h hended
  have hsame := (sameEdges_past name s.board.tasks).edges none
  rw [← hpiped.reports name] at hsame
  rw [sentStatuses_eq hlawful.routed hsub, Edges.edges, Edges.edges, ← hsame]
  refine ⟨?_, fun hnil => ?_, (hpiped.last name).trans (hlawful.memory name).symm⟩
  · rw [Edges.edgesFrom_append]
    exact List.prefix_append _ _
  · rw [hnil, List.append_nil]

/-- What the handlers do with services is gentle. -/
theorem gentle_services {b : Board} {rest : List BoardInstr} (h : b.todo = .services :: rest)
    (l : BoardLabel) : b.Gentle l := by
  rintro rfl b' hs - i t t' ht hheld ht' hheld'
  have hb' : b' = { b with todo := rest } := by
    rw [Board.step, Board.overlordStep, h] at hs
    exact (Option.some.inj hs).symm
  rw [hb', ht] at ht'
  obtain rfl := Option.some.inj ht'
  exact absurd (hheld.symm.trans hheld') (by decide)

/-- An alert for the check of the plan. -/
def checkAlerts : IndexMap String AlertConfig :=
  (∅ : IndexMap String AlertConfig).insert "ops" { url := "http://localhost", onCheck := ["c"] }

/-- A check that goes down at its first probe, with the first of its two reports taken. -/
theorem alerts_of_failed : ∃ s : Monitoring, s.board.tasks.flatMap (past "c") = [.down] ∧
    coming "c" s.board = [.down] ∧
    sentStatuses "ops" "c" s.alerting.events <+:
        Edges.edges .up (s.board.tasks.flatMap (past "c")) ∧
      (coming "c" s.board = [] → sentStatuses "ops" "c" s.alerting.events =
        Edges.edges .up (s.board.tasks.flatMap (past "c"))) ∧
      s.board.lastStatus "c" = s.alerting.sender.checkStatus "c" := by
  have h₀ : AlertSender.withQueueLimits 4 60 = some Alerting.sampleSender := rfl
  have hr₁ : Reaches (step fun _ => none) Sound (start Board.slowPlan Alerting.sampleSender) _ :=
    .single (l := .alerting (.updateAlerts checkAlerts)) trivial rfl
  have hr₂ := hr₁.tail (l := MonitorLabel.board .overlord) (gentle_services rfl _) rfl
  have hr₃ := hr₂.tail (l := MonitorLabel.board (.elapse 0)) nofun rfl
  have hr₄ := hr₃.tail (l := MonitorLabel.board (.tick 0)) nofun rfl
  have hr₅ := hr₄.tail (l := MonitorLabel.board (.probed 0 false)) nofun rfl
  have hr₆ := hr₅.tail (l := MonitorLabel.board (.report 0)) nofun rfl
  have hr := hr₆.tail (l := MonitorLabel.event false) (by unfold Sound; decide) rfl
  exact ⟨_, rfl, rfl, alerts_of_reaches h₀ hr rfl (by unfold Subscribed; decide)⟩

end Monitoring

end Vigil.Check
