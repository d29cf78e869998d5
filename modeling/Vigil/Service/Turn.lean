import Vigil.Service.Loop

/-!
# What a turn does

One lemma for each handler: the actor after the handler's script, as a function of the actor before
it. The proofs about runs cite these and do not open the scripts. Then, that a turn can always be
finished, unless it is the last: where nothing holds the actor up but the event channel, and the
channel takes what it is sent, the actor gets back to its loop head (`Loop.exists_turn`).
-/

namespace Vigil.Actor

variable (a : Actor)

/-- The actor after the spawn of `do_start`. -/
def started : Actor :=
  { a with state := .active, child := some a.spawned, spawned := a.spawned + 1 }

/-- The actor after `reset_backoff`. -/
def backoffReset : Actor :=
  { a with
    backoffCount := 0
    currentBackoff := durationOr a.config.backoffDelay defaultBackoffDelay }

/-- `handle_start` changes nothing in `Starting`, `Active` and `Stopping`; elsewhere it starts the
service, or fails to. -/
theorem execAll_handleStart (ok : Bool) :
    a.execAll (a.handleStart ok) =
      if a.state.isRunning = true ∨ a.state = .stopping then a
      else if a.canSpawn ok then { a.started.backoffReset with stopDeadline := none }
      else { a with state := .error } := by
  unfold handleStart doStart
  by_cases hr : a.state.isRunning = true
  · rw [if_pos hr, if_pos (.inl hr)]; rfl
  · by_cases hs : a.state = .stopping
    · rw [if_neg hr, if_pos hs, if_pos (.inr hs)]; rfl
    · rw [if_neg hr, if_neg hs, if_neg (not_or.mpr ⟨hr, hs⟩)]
      split_ifs <;> rfl

/-- `handle_stop` stops a service that runs, ends a backoff, and changes nothing elsewhere. -/
theorem execAll_handleStop :
    a.execAll a.handleStop =
      match a.state with
      | .inactive | .error | .stopping => a
      | .backoff => { a with state := .inactive, backoffSleep := none }
      | .starting | .active => { a with state := .stopping, stopDeadline := some a.killDelay } := by
  unfold handleStop
  cases a.state <;> rfl

/-- `handle_restart` stops a service that runs or is stopping, and starts it elsewhere. -/
theorem execAll_handleRestart (ok : Bool) :
    a.execAll (a.handleRestart ok) =
      if a.state.isRunning = true ∨ a.state = .stopping then
        { a with state := .stopping, stopDeadline := some a.killDelay, backoffSleep := none,
                 pendingRestart := true }
      else a.execAll (a.handleStart ok) := by
  unfold handleRestart
  simp only [Bool.or_eq_true, decide_eq_true_eq]
  split_ifs <;> rfl

/-- The actor once the exit of its process has been noted. -/
def exitNoted : Actor := { a with child := none, stopDeadline := none }

/-- The exit policy leads to a backoff, to an error at the limit, or to `Inactive`. -/
theorem execAll_applyExitPolicy (success : Bool) :
    a.exitNoted.execAll (a.applyExitPolicy success) =
      if a.restartsOn success = true then
        if a.backoffLimitExceeded = true then { a.exitNoted with state := .error }
        else { a.exitNoted.exec .nextBackoff with
               state := .backoff, backoffSleep := some a.currentBackoff }
      else { a.exitNoted with state := .inactive } := by
  unfold applyExitPolicy restartsOn
  cases a.exitPolicy success with
  | none => simp only [Option.getD_none, decide_true, if_true]; split_ifs <;> rfl
  | some policy =>
    cases policy with
    | restart => simp only [Option.getD_some, decide_true, if_true]; split_ifs <;> rfl
    | _ => rfl

/-- `handle_child_exit` ends a stop, with a restart if one is pending, or applies the exit
policy. -/
theorem execAll_handleChildExit (success ok : Bool) :
    a.execAll (a.handleChildExit success ok) =
      if a.state = .stopping then
        if a.pendingRestart = true then
          if a.canSpawn ok = true then
            { a.started.backoffReset with stopDeadline := none, pendingRestart := false }
          else { a.exitNoted with state := .error, pendingRestart := false }
        else { a.exitNoted with state := .inactive }
      else a.exitNoted.execAll (a.applyExitPolicy success) := by
  unfold handleChildExit doStart
  split_ifs <;> rfl

/-- `handle_kill_deadline` disarms the kill timer. -/
theorem execAll_handleKillDeadline :
    a.execAll a.handleKillDeadline = { a with stopDeadline := none } := by
  unfold handleKillDeadline
  split_ifs <;> rfl

/-- `handle_backoff_expired` starts the service, or fails to. -/
theorem execAll_handleBackoffExpired (ok : Bool) :
    a.execAll (a.handleBackoffExpired ok) =
      if a.canSpawn ok = true then { a.started with stopDeadline := none, backoffSleep := none }
      else { a with state := .error, stopDeadline := none, backoffSleep := none } := by
  unfold handleBackoffExpired doStart
  split_ifs <;> rfl

/-- `cleanup` gives up the process. -/
theorem execAll_cleanup : a.execAll a.cleanup = { a with child := none } := by
  unfold cleanup
  split_ifs with h
  · rfl
  · rw [Bool.not_eq_true, Option.isSome_eq_false_iff, Option.isNone_iff_eq_none] at h
    obtain ⟨name, config, state, child⟩ := a
    obtain rfl : child = none := h
    rfl

/-- `cleanup` has the action that ends the task. -/
theorem finish_mem_cleanup : a.cleanup.contains .finish = true := by
  unfold cleanup
  split_ifs <;> rfl

/-- No action takes a spawn back. -/
theorem spawned_le_exec (i : Instr) : a.spawned ≤ (a.exec i).spawned := by
  cases i with
  | spawn => exact Nat.le_succ _
  | _ => exact le_rfl

/-- No list of actions takes a spawn back. -/
theorem spawned_le_execAll (is : List Instr) : a.spawned ≤ (a.execAll is).spawned := by
  induction is generalizing a with
  | nil => exact le_rfl
  | cons i is ih => exact (a.spawned_le_exec i).trans (ih _)

end Vigil.Actor

namespace Vigil

open Actor (Input)

/-- An action that neither waits nor ends the task. -/
def Instr.isPlain : Instr → Bool
  | .sleep _ | .wake _ | .wait | .finish => false
  | _ => true

/-- Only the last turn waits and ends the task. -/
theorem Actor.all_isPlain_script (a : Actor) (inp : Input)
    (hs : ∀ ok, inp ≠ .cmd .shutdown ok) : (a.script inp).all Instr.isPlain = true := by
  have hstart : ∀ ok, (a.handleStart ok).all Instr.isPlain = true := by
    intro ok
    unfold handleStart doStart
    split_ifs <;> rfl
  cases inp with
  | cmd c ok =>
    cases c with
    | start => exact hstart ok
    | stop =>
      simp only [script]
      unfold handleStop
      cases a.state <;> rfl
    | restart =>
      simp only [script]
      unfold handleRestart
      split_ifs
      · rfl
      · exact hstart ok
    | status => rfl
    | forwardSignal sig => rfl
    | shutdown => exact (hs ok rfl).elim
  | childExit success ok =>
    simp only [script]
    unfold handleChildExit applyExitPolicy doStart
    repeat' split
    all_goals rfl
  | killDeadline =>
    simp only [script]
    unfold handleKillDeadline
    split_ifs <;> rfl
  | backoffExpired ok =>
    simp only [script]
    unfold handleBackoffExpired doStart
    split_ifs <;> rfl

/-- Only a shutdown ends the task. -/
theorem Actor.eq_shutdown_of_finish {a : Actor} {inp : Input}
    (h : (a.script inp).contains .finish = true) : ∃ ok, inp = .cmd .shutdown ok := by
  by_contra hs
  have hplain := a.all_isPlain_script inp fun ok ho => hs ⟨ok, ho⟩
  have hf := List.all_eq_true.mp hplain _ (List.contains_iff_mem.mp h)
  cases hf

/-- A task that returns after an input has taken a shutdown. -/
theorem Task.eq_shutdown_of_leaving {t t' : Task} {now : ℕ} {inp : Input}
    (h : t.take now inp = some t') (hl : t'.leaving = true) : ∃ ok, inp = .cmd .shutdown ok :=
  Actor.eq_shutdown_of_finish ((leaving_take h).symm.trans hl)

namespace Loop

variable {G : Loop → Label → Prop}

/-- What waits in the outbox can be delivered. -/
theorem exists_outbox_none (hG : ∀ s l, (∀ inp, l ≠ .input inp) → G s l) (now : ℕ) (t : Task) :
    Runs.Reaches step G ⟨now, t⟩ ⟨now, { t with outbox := none }⟩ := by
  cases ho : t.outbox with
  | none => rw [← ho]; exact .refl
  | some k =>
    refine .single (l := .deliver) (hG _ _ nofun) ?_
    rw [step, Task.deliver, ho]; rfl

/-- A task whose actions are plain gets to its loop head. -/
theorem exists_idle (hG : ∀ s l, (∀ inp, l ≠ .input inp) → G s l) (now : ℕ) (t : Task)
    (hp : t.todo.all Instr.isPlain = true) (he : t.ended = false) :
    ∃ t', Runs.Reaches step G ⟨now, t⟩ ⟨now, t'⟩ ∧ t'.idle = true ∧ t'.settled = t.settled := by
  have hr := exists_outbox_none hG now t
  induction hn : t.todo generalizing t with
  | nil => exact ⟨_, hr, by simp [Task.idle, hn, he], rfl⟩
  | cons i rest ih =>
    rw [hn, List.all_cons, Bool.and_eq_true] at hp
    have hact : Task.act { t with outbox := none } now =
        some (Task.perform { t with outbox := none } now i rest) :=
      Task.act_eq_some_iff.mpr ⟨rfl, i, rest, hn, by cases i <;> first | rfl | (cases hp.1), rfl⟩
    have hstep : Runs.Reaches step G ⟨now, { t with outbox := none }⟩
        ⟨now, Task.perform { t with outbox := none } now i rest⟩ :=
      .single (l := .act) (hG _ _ (by simp)) (by rw [step, hact]; rfl)
    have htodo : (Task.perform { t with outbox := none } now i rest).todo = rest := by
      cases i <;> first | rfl | cases hp.1
    have hend : (Task.perform { t with outbox := none } now i rest).ended = false := by
      cases i <;> first | exact he | cases hp.1
    obtain ⟨t', hr', hi, hs⟩ := ih _ (by rw [htodo]; exact hp.2) hend
      (exists_outbox_none hG now _) htodo
    have hset := Task.settled_act hact
    exact ⟨t', hr.trans (hstep.trans hr'), hi, hs.trans hset⟩

/-- The turn of an input other than the shutdown gets to its end. -/
theorem exists_idle_of_take (hG : ∀ s l, (∀ inp, l ≠ .input inp) → G s l) {now : ℕ} {t t' : Task}
    {inp : Input} (ht : t.take now inp = some t') (hs : ∀ ok, inp ≠ .cmd .shutdown ok) :
    ∃ t'', Runs.Reaches step G ⟨now, t'⟩ ⟨now, t''⟩ ∧ t''.idle = true ∧
      t''.actor = t.actor.execAll (t.actor.script inp) := by
  obtain ⟨hi, -, ht'⟩ := Task.take_eq_some_iff.mp ht
  have hplain : t'.todo.all Instr.isPlain = true := by
    rw [ht']
    exact t.actor.all_isPlain_script inp hs
  have hend : t'.ended = false := by
    rw [ht']
    simp only [Task.idle, Bool.and_eq_true, Bool.not_eq_true'] at hi
    exact hi.2
  obtain ⟨t'', hr, hi'', hset⟩ := exists_idle hG now t' hplain hend
  refine ⟨t'', hr, hi'', ?_⟩
  rw [← Task.settled_of_idle hi'', hset, Task.settled_take ht, Task.settled_of_idle hi]

/-- An input other than the shutdown can be taken and its turn finished. -/
theorem exists_turn (hG : ∀ s l, (∀ inp, l ≠ .input inp) → G s l) {s : Loop} (inp : Input)
    (hi : s.task.idle = true) (hr : s.task.ready s.now inp = true)
    (hs : ∀ ok, inp ≠ .cmd .shutdown ok) (hGi : G s (.input inp)) :
    ∃ s', Runs.Reaches step G s s' ∧ s'.task.idle = true ∧
      s'.task.actor = s.task.actor.execAll (s.task.actor.script inp) := by
  have ht : s.task.take s.now inp = some { s.task with todo := s.task.actor.script inp } :=
    Task.take_eq_some_iff.mpr ⟨hi, hr, rfl⟩
  obtain ⟨t', hr', hi', hs'⟩ := exists_idle_of_take hG ht hs
  exact ⟨⟨s.now, t'⟩, .head hGi (by rw [step, ht]; rfl) hr', hi', hs'⟩

/-- An armed backoff timer can elapse. -/
theorem exists_backoffExpired (hG : ∀ s l, (∀ inp, l ≠ .input inp) → G s l) {s : Loop}
    (hGb : ∀ s ok, G s (.input (.backoffExpired ok))) (hi : s.task.idle = true)
    (ha : s.task.actor.backoffSleep.isSome) (ok : Bool) :
    ∃ s', Runs.Reaches step G s s' ∧ s'.task.idle = true ∧
      s'.task.actor = s.task.actor.execAll (s.task.actor.handleBackoffExpired ok) := by
  obtain ⟨s', hr, hi', hs'⟩ := exists_turn (s := ⟨s.now + s.task.backoffAt, s.task⟩)
    hG (.backoffExpired ok) hi (by simp [Task.ready, ha]) nofun (hGb _ _)
  exact ⟨s', .head (l := .tick s.task.backoffAt) (hG _ _ nofun) rfl hr, hi', hs'⟩

end Loop

end Vigil
