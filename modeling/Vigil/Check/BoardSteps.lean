import Vigil.Check.Board

/-!
# What a step of the board does

The steps of an actor's task (`TaskStep`) and the actions of the overlord's handlers
(`OverlordStep`), each with everything that it requires and changes, and the steps of the board in
terms of them (`Board.step_cases`). What the overlord does with its entries is what `CheckRegistry`
does with them (`Board.registry_sync`, `Board.registry_retire`).
-/

namespace Vigil.Check

/-! ## Tasks -/

namespace CheckTask

variable {t t' : CheckTask} {now : ℕ}

/-- What a step of a task does besides. -/
inductive Effect
  | none
  /-- The main loop begins. -/
  | begun
  /-- A probe has a result. -/
  | probed (ok : Bool)
  /-- A report is sent. -/
  | sent (status : CheckStatus)
  deriving DecidableEq

/-- What a task does next. -/
inductive TaskStep (now : ℕ) (t : CheckTask) : Effect → CheckTask → Prop
  | status {rest} (hp : t.phase = .delay ∨ t.phase = .idle) (hm : t.mailbox = .getStatus :: rest) :
    TaskStep now t .none { t with mailbox := rest, answer := some (t.info now) }
  | shutdown {rest} (hp : t.phase = .delay ∨ t.phase = .idle) (hm : t.mailbox = .shutdown :: rest) :
    TaskStep now t .none t.finish
  | closed (hp : t.phase = .delay ∨ t.phase = .idle) (hm : t.mailbox = []) (hh : t.held = false) :
    TaskStep now t .none t.finish
  | elapsed (hp : t.phase = .delay) (hm : t.mailbox = []) (hh : t.held = true)
    (hperiod : t.config.periodMs ≠ 0) :
    TaskStep now t .begun { t with phase := .idle, lastTickAt := now }
  | panicked (hp : t.phase = .delay) (hm : t.mailbox = []) (hh : t.held = true)
    (hperiod : t.config.periodMs = 0) : TaskStep now t .begun t.finish
  | ticked (hp : t.phase = .idle) (hm : t.mailbox = []) (hh : t.held = true) :
    TaskStep now t .none { t with phase := .probing, lastTickAt := now }
  | probed (ok : Bool) (hp : t.phase = .probing) :
    TaskStep now t (.probed ok) { t with
      actor := (t.actor.tick ok).1
      phase := afterProbe (t.actor.tick ok).2
      results := t.results ++ [ok] }
  | reported {status rest} (hp : t.phase = .sending status rest) :
    TaskStep now t (.sent status) { t with phase := afterProbe rest }

/-- A task waits if and only if its mailbox is empty and somebody has its handle. -/
theorem waits_iff : t.waits = true ↔ t.mailbox = [] ∧ t.held = true := by
  rw [waits, Bool.and_eq_true, List.isEmpty_iff]

/-- Taking a command from the mailbox is one of the steps of a task. -/
theorem take_cases (h : t.take now = some t') : TaskStep now t .none t' := by
  unfold take at h
  by_cases hp : t.phase = .delay ∨ t.phase = .idle
  · rw [if_pos hp] at h
    split at h
    · next rest hm => exact Option.some.inj h ▸ .status hp hm
    · next hm => exact Option.some.inj h ▸ .shutdown hp hm
    · next hm =>
      by_cases hh : t.held = true
      · rw [if_pos hh] at h; cases h
      · rw [if_neg hh] at h
        exact Option.some.inj h ▸ .closed hp hm (by simpa using hh)
  · rw [if_neg hp] at h; cases h

/-- The end of the initial delay is one of the steps of a task. -/
theorem elapse_cases (h : t.elapse now = some t') : TaskStep now t .begun t' := by
  unfold elapse at h
  split_ifs at h with hp hperiod <;> obtain ⟨hm, hh⟩ := waits_iff.mp hp.2
  · exact Option.some.inj h ▸ .panicked hp.1 hm hh hperiod
  · exact Option.some.inj h ▸ .elapsed hp.1 hm hh hperiod

/-- A tick of the interval is one of the steps of a task. -/
theorem tick_cases (h : t.tick now = some t') : TaskStep now t .none t' := by
  unfold tick at h
  split_ifs at h with hp
  obtain ⟨hm, hh⟩ := waits_iff.mp hp.2
  exact Option.some.inj h ▸ .ticked hp.1 hm hh

/-- The result of a probe is one of the steps of a task. -/
theorem probed_cases {ok : Bool} (h : t.probed ok = some t') : TaskStep now t (.probed ok) t' := by
  unfold probed at h
  split_ifs at h with hp
  exact Option.some.inj h ▸ .probed ok hp

/-- The reports that are still to be sent are those of the phase. -/
theorem phase_of_outbox {status : CheckStatus} {rest : List CheckStatus}
    (h : t.outbox = status :: rest) : t.phase = .sending status rest := by
  unfold outbox at h
  split at h
  · next hp =>
    obtain ⟨rfl, rfl⟩ := List.cons.inj h
    exact hp
  · cases h

/-- What is left to be sent after a probe. -/
@[simp] theorem outbox_afterProbe (statuses : List CheckStatus) :
    ({ t with phase := afterProbe statuses } : CheckTask).outbox = statuses := by
  cases statuses <;> rfl

/-- A command is put into the mailbox, or the task has returned and drops it. -/
theorem push_cases {c : Cmd} (h : t.push c = some t') :
    t.phase = .ended ∧ t' = t ∨ t.phase ≠ .ended ∧ t.mailbox.length < mailboxCapacity ∧
      t' = { t with mailbox := t.mailbox ++ [c] } := by
  unfold push at h
  split_ifs at h with he hc
  · exact .inl ⟨he, (Option.some.inj h).symm⟩
  · exact .inr ⟨he, hc, (Option.some.inj h).symm⟩

/-- The answer is received, or the task has returned. -/
theorem takeAnswer_cases (h : t.takeAnswer = some t') :
    (t.answer ≠ none ∨ t.phase = .ended) ∧ t' = { t with answer := none } := by
  unfold takeAnswer at h
  split_ifs at h with hc
  exact ⟨by simpa [Option.ne_none_iff_isSome] using hc, (Option.some.inj h).symm⟩

/-- The parameters of a task's actor. It has been told to end when its handle is gone. -/
def toActor (t : CheckTask) : CheckActor where
  name := t.actor.name
  config := t.config
  services := t.services
  told := !t.held

/-- A step of a task keeps its parameters and the handle. -/
theorem TaskStep.keeps {eff : Effect} (h : TaskStep now t eff t') :
    t'.toActor = t.toActor ∧ t'.held = t.held ∧ t'.actor.name = t.actor.name ∧
      t'.config = t.config ∧ t'.initial = t.initial := by
  cases h with
  | probed ok hp => exact ⟨by simp [toActor], rfl, by simp, rfl, rfl⟩
  | _ => exact ⟨rfl, rfl, rfl, rfl, rfl⟩

/-- A command in the mailbox changes nothing else of a task. -/
theorem push_keeps {c : Cmd} (h : t.push c = some t') :
    t'.toActor = t.toActor ∧ t'.held = t.held ∧ t'.actor = t.actor ∧ t'.phase = t.phase ∧
      t'.answer = t.answer ∧ t'.results = t.results ∧ t'.config = t.config ∧
        t'.initial = t.initial := by
  rcases push_cases h with ⟨-, rfl⟩ | ⟨-, -, rfl⟩ <;> exact ⟨rfl, rfl, rfl, rfl, rfl, rfl, rfl, rfl⟩

/-- A released task has been told to end. -/
@[simp] theorem toActor_release : t.release.toActor = { t.toActor with told := true } := by
  unfold release
  cases h : t.push .shutdown with
  | none => rfl
  | some t' =>
    rcases push_cases h with ⟨-, rfl⟩ | ⟨-, -, rfl⟩ <;> rfl

end CheckTask

open CheckTask (Effect TaskStep)

/-! ## The board -/

namespace Board

variable {s s' : Board}

/-- A step's effect besides that on the task. -/
def afterEffect (s : Board) (t : CheckTask) : Effect → Board
  | .none => s
  | .begun => { s with metrics := s.metrics.begun t }
  | .probed ok => { s with metrics := s.metrics.probed t ok }
  | .sent status =>
    if s.ended then s else { s with events := s.events ++ [(t.actor.name, status)] }

/-- There is room for a report. -/
def HasRoom (s : Board) : Effect → Prop
  | .sent _ => s.ended = true ∨ s.events.length < eventCapacity
  | _ => True

/-- What the first action of a handler, before `rest`, does. -/
inductive OverlordStep (s : Board) : BoardInstr → List BoardInstr → Board → Prop
  | services {rest} : OverlordStep s .services rest { s with todo := rest }
  | ask {i rest t t'} (ht : s.tasks[i]? = some t) (hp : t.push .getStatus = some t') :
    OverlordStep s (.ask i) rest { s.setTask i t' with todo := rest }
  | receive {i rest t} (ht : s.tasks[i]? = some t) (ha : t.answer ≠ none ∨ t.phase = .ended) :
    OverlordStep s (.receive i) rest
      { s.setTask i { t with answer := none } with
        todo := rest, infos := s.infos ++ t.answer.toList }
  | reply {names rest} :
    OverlordStep s (.reply names) rest
      { s with todo := rest, answers := (names, s.infos) :: s.answers }
  | sync {plan rest} :
    OverlordStep s (.sync plan) rest
      { s.sync plan with todo := .services :: (s.sync plan).removed.map .drop ++ .services :: rest }
  | dropped {name rest} (he : s.checks.get? name = none) :
    OverlordStep s (.drop name) rest { s with todo := rest }
  | drop {name rest e t t'} (he : s.checks.get? name = some e) (ht : s.tasks[e.id]? = some t)
    (hp : t.push .shutdown = some t') :
    OverlordStep s (.drop name) rest
      { s.setTask e.id { t' with held := false } with
        checks := s.checks.shiftRemove name, todo := rest }
  | tell {i rest t t'} (ht : s.tasks[i]? = some t) (hp : t.push .shutdown = some t') :
    OverlordStep s (.tell i) rest { s.setTask i t' with todo := rest }
  | finish {rest} :
    OverlordStep s .finish rest
      { s with
        todo := [], ended := true, tasks := s.tasks.map fun t => { t with held := false } }

/-- A step of the board. -/
inductive BoardStep (s : Board) (l : BoardLabel) : Board → Prop
  | pass (d : ℕ) : BoardStep s l { s with now := s.now + d }
  | task {i t t' eff} (ht : s.tasks[i]? = some t) (h : TaskStep s.now t eff t')
    (hroom : s.HasRoom eff) : BoardStep s l ((s.setTask i t').afterEffect t eff)
  | overlord {i rest s'} (hl : l = .overlord) (htodo : s.todo = i :: rest)
    (h : OverlordStep s i rest s') : BoardStep s l s'
  | query (hhead : s.atHead = true) (names : List String) :
    BoardStep s l { s with todo := s.queryChecks names, infos := [] }
  | command (hhead : s.atHead = true) (plans : List MergedPlan) :
    BoardStep s l { s with todo := plans.flatMap (fun p => [.services, .sync p]) ++ [.services] }
  | shutdown (hhead : s.atHead = true) : BoardStep s l { s with todo := s.stopAll }
  | event {ev rest exits} (hl : l = .event exits) (hhead : s.atHead = true)
    (he : s.events = ev :: rest) :
    BoardStep s l { s with
      events := rest
      lastStatus := Function.update s.lastStatus ev.1 (some ev.2)
      todo := if exits then s.stopAll else [.services] }

/-- The overlord does the first action of what is left of its handler. -/
theorem overlordStep_cases (h : s.overlordStep = some s') :
    ∃ i rest, s.todo = i :: rest ∧ OverlordStep s i rest s' := by
  unfold overlordStep at h
  cases htodo : s.todo with
  | nil => rw [htodo] at h; cases h
  | cons i rest =>
    refine ⟨i, rest, rfl, ?_⟩
    rw [htodo] at h
    cases i with
    | services => exact Option.some.inj h ▸ .services
    | ask i =>
      obtain ⟨t, ht, h⟩ := Option.bind_eq_some_iff.mp h
      obtain ⟨t', hp, rfl⟩ := Option.map_eq_some_iff.mp h
      exact .ask ht hp
    | receive i =>
      obtain ⟨t, ht, h⟩ := Option.bind_eq_some_iff.mp h
      obtain ⟨t', htake, rfl⟩ := Option.map_eq_some_iff.mp h
      obtain ⟨ha, rfl⟩ := CheckTask.takeAnswer_cases htake
      exact .receive ht ha
    | reply names => exact Option.some.inj h ▸ .reply
    | sync plan => exact Option.some.inj h ▸ .sync
    | drop name =>
      simp only at h
      cases he : s.checks.get? name with
      | none =>
        rw [he] at h
        exact Option.some.inj h ▸ .dropped he
      | some e =>
        rw [he] at h
        obtain ⟨t, ht, h⟩ := Option.bind_eq_some_iff.mp h
        obtain ⟨t', hp, rfl⟩ := Option.map_eq_some_iff.mp h
        exact .drop he ht hp
    | tell i =>
      obtain ⟨t, ht, h⟩ := Option.bind_eq_some_iff.mp h
      obtain ⟨t', hp, rfl⟩ := Option.map_eq_some_iff.mp h
      exact .tell ht hp
    | finish => exact Option.some.inj h ▸ .finish

/-- Every step of the board is one of those that `BoardStep` lists. -/
theorem step_cases {l : BoardLabel} (h : s.step l = some s') : BoardStep s l s' := by
  cases l with
  | pass d => exact Option.some.inj h ▸ .pass d
  | take i =>
    obtain ⟨t, ht, h⟩ := Option.bind_eq_some_iff.mp h
    obtain ⟨t', hstep, rfl⟩ := Option.map_eq_some_iff.mp h
    exact .task ht (CheckTask.take_cases hstep) trivial
  | elapse i =>
    obtain ⟨t, ht, h⟩ := Option.bind_eq_some_iff.mp h
    obtain ⟨t', hstep, rfl⟩ := Option.map_eq_some_iff.mp h
    exact .task ht (CheckTask.elapse_cases hstep) trivial
  | tick i =>
    obtain ⟨t, ht, h⟩ := Option.bind_eq_some_iff.mp h
    obtain ⟨t', hstep, rfl⟩ := Option.map_eq_some_iff.mp h
    exact .task ht (CheckTask.tick_cases hstep) trivial
  | probed i ok =>
    obtain ⟨t, ht, h⟩ := Option.bind_eq_some_iff.mp h
    obtain ⟨t', hstep, rfl⟩ := Option.map_eq_some_iff.mp h
    exact .task ht (CheckTask.probed_cases hstep) trivial
  | report i =>
    obtain ⟨t, ht, h⟩ := Option.bind_eq_some_iff.mp h
    unfold report at h
    split at h
    · cases h
    · next status rest ho =>
      have hstep : TaskStep s.now t _ _ := .reported (CheckTask.phase_of_outbox ho)
      have hreported : t.reported = { t with phase := CheckTask.afterProbe rest } := by
        rw [CheckTask.reported, ho, List.tail_cons]
      rw [hreported] at h
      split_ifs at h with he hc
      · have hafter : BoardStep s (.report i) _ := .task ht hstep (.inl he)
        rw [afterEffect, if_pos (show (s.setTask i _).ended = true from he)] at hafter
        exact Option.some.inj h ▸ hafter
      · have hafter : BoardStep s (.report i) _ := .task ht hstep (.inr hc)
        rw [afterEffect, if_neg (show ¬ (s.setTask i _).ended = true from he)] at hafter
        exact Option.some.inj h ▸ hafter
  | overlord =>
    obtain ⟨i, rest, htodo, h⟩ := overlordStep_cases h
    exact .overlord rfl htodo h
  | query names =>
    simp only [step] at h
    split_ifs at h with hhead
    exact Option.some.inj h ▸ .query hhead names
  | command plans =>
    simp only [step] at h
    split_ifs at h with hhead
    exact Option.some.inj h ▸ .command hhead plans
  | shutdown =>
    simp only [step] at h
    split_ifs at h with hhead
    exact Option.some.inj h ▸ .shutdown hhead
  | event exits =>
    simp only [step] at h
    split at h
    · cases h
    · next ev rest he =>
      by_cases hhead : s.atHead = true
      · rw [if_pos hhead] at h
        exact Option.some.inj h ▸ .event rfl hhead he
      · rw [if_neg hhead] at h; cases h

/-! ## The registry -/

/-- The configurations and the spawns of a board. -/
def registry (s : Board) : CheckRegistry where
  plan := s.plan
  checks := s.checks
  actors := s.tasks.map CheckTask.toActor

/-- Spawning an actor on the board is spawning it in the registry. -/
theorem registry_spawn (name : String) (config : CheckConfig) :
    (s.spawn name config).registry = s.registry.spawn name config := by
  simp only [registry, spawn, CheckRegistry.spawn, List.map_append, List.length_map]
  rfl

/-- Retiring an actor on the board is retiring it in the registry. -/
theorem registry_retire (name : String) (entry : CheckEntry) :
    (s.retire name entry).registry = s.registry.retire name entry := by
  have hmodify : (s.tasks.modify entry.id CheckTask.release).map CheckTask.toActor =
      (s.tasks.map CheckTask.toActor).modify entry.id fun a => { a with told := true } := by
    refine List.ext_getElem? fun i => ?_
    rw [List.getElem?_map, List.getElem?_modify, List.getElem?_modify, List.getElem?_map]
    split_ifs
    · cases s.tasks[i]? <;> simp
    · cases s.tasks[i]? <;> simp
  simp only [registry, retire, CheckRegistry.retire, hmodify]

/-- A check's turn in `sync_actors` on the board is that in the registry. -/
theorem registry_syncCheck (e : String × CheckConfig) :
    (s.syncCheck e).registry = s.registry.syncCheck e := by
  have hget : s.registry.checks.get? e.1 = s.checks.get? e.1 := rfl
  unfold syncCheck CheckRegistry.syncCheck
  rw [hget]
  split_ifs with hdis
  · rfl
  · cases s.checks.get? e.1 with
    | none => exact registry_spawn _ _
    | some entry =>
      simp only
      split_ifs with hconfig
      · rfl
      · rw [registry_spawn, registry_retire]

/-- The turns of some checks in `sync_actors` on the board are those in the registry. -/
theorem registry_foldl_syncCheck (es : List (String × CheckConfig)) :
    (es.foldl syncCheck s).registry = es.foldl CheckRegistry.syncCheck s.registry := by
  induction es generalizing s with
  | nil => rfl
  | cons e es ih => rw [List.foldl_cons, List.foldl_cons, ih, registry_syncCheck]

/-- A reload up to `sync_actors` on the board is that in the registry. -/
theorem registry_sync (plan : MergedPlan) :
    (s.sync plan).registry = { s.registry with plan }.syncActors :=
  registry_foldl_syncCheck _

end Board

end Vigil.Check
