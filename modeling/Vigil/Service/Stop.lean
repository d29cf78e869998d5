import Vigil.Service.Invariant

/-!
# Whether a stop lasts

A stop is durable if the actor spawns nothing more until it takes a start or a restart. Two things
can outlive a stop. A restart that is pending in `Stopping` is not called off by a stop that comes
after it, and a backoff timer that was left armed by an earlier start is disarmed by a stop in
`Backoff` only. `Actor.StopLasts` says when neither is there, and `Loop.stop_durable_iff` that this
is the exact condition, in every state that any run reaches.

For the one direction, the actor is `Quiet` after such a stop, and every input but a start keeps it
quiet. For the other, what outlives the stop is let happen.
-/

namespace Vigil

open Actor (Input)

namespace Actor

/-- What holds of the settled actor in every run. -/
structure Plausible (a : Actor) : Prop where
  notStarting : a.state ≠ .starting
  running : a.state = .active ∨ a.state = .stopping → a.child.isSome
  held : a.child.isSome → a.state = .active ∨ a.state = .stopping ∨ a.state = .error
  pending : a.pendingRestart = true → a.state = .stopping ∧ a.backoffSleep = none

/-- An actor that is running or stopping has a process. -/
theorem Plausible.child {a : Actor} (H : a.Plausible)
    (h : a.state.isRunning = true ∨ a.state = .stopping) : a.child.isSome := by
  refine H.running ?_
  have hs := H.notStarting
  cases ha : a.state <;> simp_all [ServiceState.isRunning]

/-- Outside of `Stopping`, no restart is pending. -/
theorem Plausible.pendingRestart {a : Actor} (H : a.Plausible) (hs : a.state ≠ .stopping) :
    a.pendingRestart = false := by
  have := mt (fun h => (H.pending h).1) hs
  simpa using this

/-- Every input but the shutdown leaves the actor plausible. -/
theorem Plausible.script {a : Actor} (H : a.Plausible) {inp : Input}
    (hs : ∀ ok, inp ≠ .cmd .shutdown ok)
    (hb : ∀ ok, inp = .backoffExpired ok → a.backoffSleep.isSome) :
    (a.execAll (a.script inp)).Plausible := by
  have hstart : ∀ ok, (a.execAll (a.handleStart ok)).Plausible := by
    intro ok
    rw [execAll_handleStart]
    split_ifs with hr hok
    · exact H
    · have hp := H.pendingRestart (not_or.mp hr).2
      exact ⟨by simp [started, backoffReset], by simp [started, backoffReset],
        by simp [started, backoffReset], by simp [started, backoffReset, hp]⟩
    · have hp := H.pendingRestart (not_or.mp hr).2
      exact ⟨by simp, by simp, by simp, by simp [hp]⟩
  cases inp with
  | cmd c ok =>
    cases c with
    | start => exact hstart ok
    | stop =>
      have hst := a.execAll_handleStop
      simp only [Actor.script]
      cases ha : a.state with
      | inactive | error | stopping => rw [ha] at hst; rw [hst]; exact H
      | backoff =>
        rw [ha] at hst; rw [hst]
        have hp := H.pendingRestart (by simp [ha])
        have hc : ¬a.child.isSome := fun h => by simpa [ha] using H.held h
        exact ⟨by simp, by simp, fun h => (hc h).elim, by simp [hp]⟩
      | starting => exact (H.notStarting ha).elim
      | active =>
        rw [ha] at hst; rw [hst]
        have hp := H.pendingRestart (by simp [ha])
        have hc := H.running (.inl ha)
        exact ⟨by simp, fun _ => hc, by simp, by simp [hp]⟩
    | restart =>
      simp only [Actor.script, execAll_handleRestart]
      split_ifs with hr
      · have hc := H.child hr
        exact ⟨by simp, fun _ => hc, by simp, by simp⟩
      · exact hstart ok
    | status => exact H
    | forwardSignal sig => exact H
    | shutdown => exact (hs ok rfl).elim
  | childExit success ok =>
    simp only [Actor.script, execAll_handleChildExit, execAll_applyExitPolicy]
    split_ifs with hs hp hok hr hl
    · exact ⟨by simp [started, backoffReset], by simp [started, backoffReset],
        by simp [started, backoffReset], by simp⟩
    · exact ⟨by simp, by simp, by simp [exitNoted], by simp⟩
    · exact ⟨by simp, by simp, by simp [exitNoted], by simp [exitNoted, hp]⟩
    · have hp := H.pendingRestart hs
      exact ⟨by simp, by simp, by simp, by simp [exitNoted, hp]⟩
    · have hp := H.pendingRestart hs
      exact ⟨by simp, by simp, by simp [exitNoted, exec], by simp [exitNoted, exec, hp]⟩
    · have hp := H.pendingRestart hs
      exact ⟨by simp, by simp, by simp [exitNoted], by simp [exitNoted, hp]⟩
  | killDeadline =>
    simp only [Actor.script, execAll_handleKillDeadline]
    exact ⟨H.notStarting, H.running, H.held, H.pending⟩
  | backoffExpired ok =>
    have harmed := hb ok rfl
    have hp : a.pendingRestart = false := by
      by_contra hp
      rw [(H.pending (by simpa using hp)).2] at harmed
      cases harmed
    simp only [Actor.script, execAll_handleBackoffExpired]
    split_ifs with hok
    · exact ⟨by simp [started], by simp [started], by simp [started], by simp [started, hp]⟩
    · exact ⟨by simp, by simp, by simp, by simp [hp]⟩

/-- After a process's exit, the actor would wait to start another. -/
def WouldRestart (a : Actor) : Prop :=
  ∃ success, a.restartsOn success = true ∧ a.backoffLimitExceeded = false

/-- When a stop in this state lasts: the service has no command, or no backoff timer is armed that
the stop does not disarm, no restart is pending, and no process is left from which an exit in
`Error` would lead to a restart. -/
def StopLasts (a : Actor) : Prop :=
  a.config.command = none ∨
    ((a.state = .backoff ∨ a.backoffSleep = none) ∧ a.pendingRestart = false ∧
      (a.state = .error → a.child.isSome → ¬a.WouldRestart))

/-- A settled actor that spawns nothing unless it is told to. -/
def Quiet (a : Actor) : Prop :=
  a.config.command = none ∨
    (a.backoffSleep = none ∧ a.pendingRestart = false ∧
      (a.state = .stopping ∨ a.state = .inactive ∧ a.child = none ∨
        a.state = .error ∧ (a.child.isSome → ¬a.WouldRestart)))

/-- Without a command, nothing is spawned. -/
theorem canSpawn_eq_false {a : Actor} (h : a.config.command = none) (ok : Bool) :
    a.canSpawn ok = false := by
  rw [canSpawn, h]; rfl

/-- Without a command, no turn spawns. -/
theorem spawned_script_of_command {a : Actor} (h : a.config.command = none) (inp : Input) :
    (a.execAll (a.script inp)).spawned = a.spawned := by
  have hstart : ∀ ok, (a.execAll (a.handleStart ok)).spawned = a.spawned := by
    intro ok
    rw [execAll_handleStart, if_neg (by simp [canSpawn_eq_false h] : ¬a.canSpawn ok = true)]
    split_ifs <;> rfl
  cases inp with
  | cmd c ok =>
    cases c with
    | start => exact hstart ok
    | stop => simp only [script, execAll_handleStop]; split <;> rfl
    | restart =>
      simp only [script, execAll_handleRestart]
      split_ifs
      · rfl
      · exact hstart ok
    | status => rfl
    | forwardSignal sig => rfl
    | shutdown => simp only [script, execAll_cleanup]
  | childExit success ok =>
    simp only [script, execAll_handleChildExit, execAll_applyExitPolicy, canSpawn_eq_false h,
      Bool.false_eq_true, if_false]
    split_ifs <;> rfl
  | killDeadline => simp only [script, execAll_handleKillDeadline]
  | backoffExpired ok =>
    simp only [script, execAll_handleBackoffExpired, canSpawn_eq_false h, Bool.false_eq_true,
      if_false]

/-- A stop that lasts leaves the actor quiet, and it spawns nothing itself. -/
theorem quiet_handleStop {a : Actor} (H : a.Plausible) (h : a.StopLasts) :
    (a.execAll a.handleStop).Quiet ∧ (a.execAll a.handleStop).spawned = a.spawned := by
  rcases h with h | ⟨hb, hp, he⟩
  · exact ⟨.inl (by rw [config_execAll]; exact h), spawned_script_of_command h (.cmd .stop true)⟩
  · have hst := a.execAll_handleStop
    cases ha : a.state with
    | inactive =>
      rw [ha] at hst; rw [hst]
      have hc : a.child = none := by
        by_contra hc
        simpa [ha] using H.held (Option.isSome_iff_ne_none.mpr hc)
      exact ⟨.inr ⟨by simpa [ha] using hb, hp, .inr (.inl ⟨ha, hc⟩)⟩, rfl⟩
    | error =>
      rw [ha] at hst; rw [hst]
      exact ⟨.inr ⟨by simpa [ha] using hb, hp, .inr (.inr ⟨ha, he ha⟩)⟩, rfl⟩
    | stopping =>
      rw [ha] at hst; rw [hst]
      exact ⟨.inr ⟨by simpa [ha] using hb, hp, .inl ha⟩, rfl⟩
    | backoff =>
      rw [ha] at hst; rw [hst]
      have hc : a.child = none := by
        by_contra hc
        simpa [ha] using H.held (Option.isSome_iff_ne_none.mpr hc)
      exact ⟨.inr ⟨rfl, hp, .inr (.inl ⟨rfl, hc⟩)⟩, rfl⟩
    | starting => exact (H.notStarting ha).elim
    | active =>
      rw [ha] at hst; rw [hst]
      exact ⟨.inr ⟨by simpa [ha] using hb, hp, .inl rfl⟩, rfl⟩

/-- Every input but a start and the shutdown keeps a quiet actor quiet, and spawns nothing. -/
theorem Quiet.script {a : Actor} (H : a.Quiet) {inp : Input} (hi : inp.isStart = false)
    (hs : ∀ ok, inp ≠ .cmd .shutdown ok)
    (hc : ∀ success ok, inp = .childExit success ok → a.child.isSome)
    (hb : ∀ ok, inp = .backoffExpired ok → a.backoffSleep.isSome) :
    (a.execAll (a.script inp)).Quiet ∧ (a.execAll (a.script inp)).spawned = a.spawned := by
  rcases H with h | ⟨hbs, hp, hst⟩
  · exact ⟨.inl (by rw [config_execAll]; exact h), spawned_script_of_command h inp⟩
  · have H : a.Quiet := .inr ⟨hbs, hp, hst⟩
    cases inp with
    | cmd c ok =>
      cases c with
      | start => cases hi
      | stop =>
        simp only [Actor.script, execAll_handleStop]
        rcases hst with h | ⟨h, -⟩ | ⟨h, -⟩ <;> rw [h] <;> exact ⟨H, rfl⟩
      | restart => cases hi
      | status => exact ⟨H, rfl⟩
      | forwardSignal sig => exact ⟨H, rfl⟩
      | shutdown => exact (hs ok rfl).elim
    | childExit success ok =>
      have hchild := hc success ok rfl
      simp only [Actor.script, execAll_handleChildExit, execAll_applyExitPolicy, hp,
        Bool.false_eq_true, if_false]
      rcases hst with h | ⟨-, h⟩ | ⟨h, hw⟩
      · rw [if_pos h]
        exact ⟨.inr ⟨hbs, hp, .inr (.inl ⟨rfl, rfl⟩)⟩, rfl⟩
      · rw [h] at hchild; cases hchild
      · rw [if_neg (by simp [h])]
        split_ifs with hr hl
        · exact ⟨.inr ⟨hbs, hp, .inr (.inr ⟨rfl, fun hc => by simp [exitNoted] at hc⟩)⟩, rfl⟩
        · exact (hw hchild ⟨success, hr, by simpa using hl⟩).elim
        · exact ⟨.inr ⟨hbs, hp, .inr (.inl ⟨rfl, rfl⟩)⟩, rfl⟩
    | killDeadline =>
      simp only [Actor.script, execAll_handleKillDeadline, and_true]
      exact .inr ⟨hbs, hp, hst⟩
    | backoffExpired ok =>
      have := hb ok rfl
      rw [hbs] at this
      cases this

end Actor

namespace Loop

open Runs

/-! ## What holds in every run -/

/-- The actor of a task that stays is plausible. -/
theorem plausible_of_reaches {name : String} {config : ServiceConfig} {now : ℕ} {s : Loop}
    (h : Reaches step Always (init name config now) s) :
    s.task.leaving = false → s.task.settled.Plausible := by
  refine h.invariant (P := fun s => s.task.leaving = false → s.task.settled.Plausible) ?_ ?_
  · exact fun _ => ⟨nofun, by simp [init, Task.settled, Task.new, Actor.new],
      by simp [init, Task.settled, Task.new, Actor.new], nofun⟩
  · intro s l s' _ H _ hl
    rcases step_cases hl with ⟨d, rfl, rfl⟩ | ⟨t, rfl, ht, rfl⟩ | ⟨t, rfl, ht, rfl⟩ |
      ⟨inp, t, rfl, ht, rfl⟩
    · exact H
    · rw [Task.settled_act ht, Task.leaving_act ht]; exact H
    · rw [Task.settled_deliver ht, Task.leaving_deliver ht]; exact H
    · obtain ⟨hi, hr, -⟩ := Task.take_eq_some_iff.mp ht
      intro hleav
      rw [Task.leaving_take ht] at hleav
      rw [Task.settled_take ht]
      refine (H (Task.leaving_of_idle hi)).script ?_ ?_
      · rintro ok rfl
        rw [Actor.script, Actor.finish_mem_cleanup] at hleav; cases hleav
      · rintro ok rfl
        rw [Task.settled_of_idle hi]
        exact (Bool.and_eq_true_iff.mp hr).1

/-- The actor takes no start and no restart. -/
def NoStart (_ : Loop) (l : Label) : Prop := ∀ inp, l = .input inp → inp.isStart = false

/-- In a run without a start, a quiet actor spawns nothing. -/
theorem spawned_of_quiet {s s' : Loop} (hq : s.task.settled.Quiet)
    (hsp : s.task.settled.spawned = s.task.actor.spawned)
    (h : Reaches step (NoStart) s s') :
    s'.task.actor.spawned = s.task.actor.spawned := by
  -- What the actor will have spawned stays the same, and it only ever spawns more.
  have hinv := h.invariant
    (P := fun s' => s.task.actor.spawned ≤ s'.task.actor.spawned ∧
      s'.task.settled.spawned = s.task.actor.spawned ∧
      (s'.task.leaving = false → s'.task.settled.Quiet))
    ⟨le_rfl, hsp, fun _ => hq⟩ ?_
  · have hle := s'.task.actor.spawned_le_execAll s'.task.todo
    have heq : (s'.task.actor.execAll s'.task.todo).spawned = s.task.actor.spawned := hinv.2.1
    omega
  · rintro s₁ l s₂ - ⟨hle, hsp, hq⟩ hG hl
    rcases step_cases hl with ⟨d, rfl, rfl⟩ | ⟨t, rfl, ht, rfl⟩ | ⟨t, rfl, ht, rfl⟩ |
      ⟨inp, t, rfl, ht, rfl⟩
    · exact ⟨hle, hsp, hq⟩
    · rw [Task.settled_act ht, Task.leaving_act ht]
      obtain ⟨-, i, rest, -, -, rfl⟩ := Task.act_eq_some_iff.mp ht
      exact ⟨hle.trans (s₁.task.actor.spawned_le_exec i), hsp, hq⟩
    · rw [Task.settled_deliver ht, Task.leaving_deliver ht]
      obtain ⟨k, -, rfl⟩ := Task.deliver_eq_some_iff.mp ht
      exact ⟨hle, hsp, hq⟩
    · obtain ⟨hi₁, hr, ht'⟩ := Task.take_eq_some_iff.mp ht
      have hact : t.actor = s₁.task.actor := by rw [ht']
      rw [Task.settled_take ht, Task.leaving_take ht, hact]
      by_cases hs : ∃ ok, inp = .cmd .shutdown ok
      · obtain ⟨ok, rfl⟩ := hs
        refine ⟨hle, ?_, fun hl => ?_⟩
        · rw [Actor.script, Actor.execAll_cleanup]; exact hsp
        · rw [Actor.script, Actor.finish_mem_cleanup] at hl; cases hl
      · obtain ⟨hq', hsp'⟩ := (hq (Task.leaving_of_idle hi₁)).script (hG inp rfl)
          (fun ok h => hs ⟨ok, h⟩)
          (by rintro success ok rfl; rw [Task.settled_of_idle hi₁]; exact hr)
          (by rintro ok rfl; rw [Task.settled_of_idle hi₁]; exact (Bool.and_eq_true_iff.mp hr).1)
        exact ⟨hle, hsp'.trans hsp, fun _ => hq'⟩

/-! ## What outlives a stop -/

/-- A stop leaves the configuration and, outside of `Backoff`, the backoff timer. -/
theorem backoffSleep_handleStop {a : Actor} (hb : a.state ≠ .backoff) :
    (a.execAll a.handleStop).backoffSleep = a.backoffSleep := by
  rw [a.execAll_handleStop]
  split <;> first | rfl | (rename_i h; exact (hb h).elim)

/-- A stop spawns nothing. -/
theorem spawned_handleStop (a : Actor) : (a.execAll a.handleStop).spawned = a.spawned := by
  rw [a.execAll_handleStop]
  split <;> rfl

/-- Where nothing but the backoff timer is needed, a process is spawned. -/
theorem exists_spawn_of_armed {s : Loop} (hi : s.task.idle = true)
    (ha : s.task.actor.backoffSleep.isSome) (hc : s.task.actor.config.command ≠ none) :
    ∃ s', Reaches step (NoStart) s s' ∧
      s'.task.actor.spawned = s.task.actor.spawned + 1 := by
  obtain ⟨s', hr, -, hs'⟩ := exists_backoffExpired
    (G := NoStart) (fun _ _ h inp hl => (h inp hl).elim)
    (fun _ _ inp hl => by cases hl; rfl) hi ha true
  refine ⟨s', hr, ?_⟩
  rw [hs', Actor.execAll_handleBackoffExpired, if_pos]
  · rfl
  · simpa [Actor.canSpawn] using Option.isSome_iff_ne_none.mpr hc

/-- After a stop that does not last, a process is spawned without a start. -/
theorem exists_spawn_after_stop {a : Actor} (P : a.Plausible) (hc : a.config.command ≠ none)
    (hn : ¬((a.state = .backoff ∨ a.backoffSleep = none) ∧ a.pendingRestart = false ∧
      (a.state = .error → a.child.isSome → ¬a.WouldRestart)))
    {s : Loop} (hi : s.task.idle = true) (hs : s.task.actor = a.execAll a.handleStop) :
    ∃ s', Reaches step (NoStart) s s' ∧
      s'.task.actor.spawned = a.spawned + 1 := by
  have hcmd : s.task.actor.config.command ≠ none := by rw [hs, Actor.config_execAll]; exact hc
  have hsp : s.task.actor.spawned = a.spawned := by rw [hs]; exact spawned_handleStop a
  have hok : ∀ b : Actor, b.config = a.config → b.canSpawn true = true := fun b hb => by
    simpa [Actor.canSpawn, hb] using Option.isSome_iff_ne_none.mpr hc
  have hst := a.execAll_handleStop
  by_cases hb : a.state = .backoff ∨ a.backoffSleep = none
  · cases hp : a.pendingRestart with
    | true =>
      -- The restart that is pending is done at the exit of the process.
      obtain ⟨ha, -⟩ := P.pending hp
      rw [ha] at hst
      have hsa : s.task.actor = a := hs.trans hst
      obtain ⟨s', hr, -, hs'⟩ := exists_turn (s := s) (G := NoStart)
        (fun _ _ h inp hl => (h inp hl).elim) (.childExit true true) hi
        (by rw [Task.ready, hsa]; exact P.running (.inr ha)) (by simp)
        (fun inp hl => by cases hl; rfl)
      refine ⟨s', hr, ?_⟩
      rw [hs', hsa, Actor.script, Actor.execAll_handleChildExit, if_pos ha, if_pos hp,
        if_pos (hok a rfl)]
      rfl
    | false =>
      -- The exit of the process that is left in `Error` leads to `Backoff`, and on to a spawn.
      have hw : a.state = .error ∧ a.child.isSome ∧ a.WouldRestart := by
        by_contra hw
        exact hn ⟨hb, hp, fun h₁ h₂ h₃ => hw ⟨h₁, h₂, h₃⟩⟩
      obtain ⟨ha, hchild, success, hr, hl⟩ := hw
      rw [ha] at hst
      have hsa : s.task.actor = a := hs.trans hst
      obtain ⟨s', hr', hi', hs'⟩ := exists_turn (s := s) (G := NoStart)
        (fun _ _ h inp hl => (h inp hl).elim) (.childExit success true) hi
        (by rw [Task.ready, hsa]; exact hchild) (by simp) (fun inp hl => by cases hl; rfl)
      rw [hsa, Actor.script, Actor.execAll_handleChildExit, if_neg (by simp [ha]),
        Actor.execAll_applyExitPolicy, if_pos hr, if_neg (by simp [hl])] at hs'
      obtain ⟨s₂, hr₂, hs₂⟩ := exists_spawn_of_armed hi' (by rw [hs']; rfl) (by rw [hs']; exact hc)
      exact ⟨s₂, hr'.trans hr₂, by rw [hs₂, hs']; rfl⟩
  · -- The backoff timer that is still armed elapses.
    obtain ⟨hb, ha⟩ := not_or.mp hb
    have harmed : s.task.actor.backoffSleep.isSome := by
      rw [hs, backoffSleep_handleStop hb]; exact Option.isSome_iff_ne_none.mpr ha
    obtain ⟨s', hr, hs'⟩ := exists_spawn_of_armed hi harmed hcmd
    exact ⟨s', hr, by rw [hs', hsp]⟩

/-- The exact condition under which a stop is durable. In every state that a run reaches, a stop
that is handled there is followed by no spawn until the next start or restart if and only if it
lasts. -/
theorem stop_durable_iff {name : String} {config : ServiceConfig} {now : ℕ} {s s₁ : Loop}
    {ok : Bool}
    (h : Reaches step Always (init name config now) s)
    (hs : s.step (.input (.cmd .stop ok)) = some s₁) :
    (∀ s₂, Reaches step (NoStart) s₁ s₂ →
      s₂.task.actor.spawned = s.task.actor.spawned) ↔ s.task.actor.StopLasts := by
  obtain ⟨t, ht, rfl⟩ := Option.map_eq_some_iff.mp hs
  obtain ⟨hi, -, ht'⟩ := Task.take_eq_some_iff.mp ht
  have P : s.task.actor.Plausible := by
    rw [← Task.settled_of_idle hi]
    exact plausible_of_reaches h (Task.leaving_of_idle hi)
  have hset : t.settled = s.task.actor.execAll s.task.actor.handleStop := by
    rw [Task.settled_take ht, Task.settled_of_idle hi]; rfl
  have hact : t.actor.spawned = s.task.actor.spawned := by rw [ht']
  constructor
  · -- What would outlive the stop is let happen after its turn.
    intro H
    by_contra hn
    obtain ⟨hc, hn⟩ := not_or.mp hn
    obtain ⟨t₂, hr₂, hi₂, hs₂⟩ := exists_idle_of_take
      (G := NoStart) (fun _ _ h inp hl => (h inp hl).elim) ht (by simp)
    obtain ⟨s₃, hr₃, hs₃⟩ := exists_spawn_after_stop (s := ⟨s.now, t₂⟩) P hc hn hi₂ hs₂
    have := H s₃ (hr₂.trans hr₃)
    omega
  · intro H s₂ hr
    obtain ⟨hq, hsp⟩ := Actor.quiet_handleStop P H
    rw [← hset] at hq hsp
    rw [spawned_of_quiet hq (hsp.trans hact.symm) hr]
    exact hact

instance (s : Loop) (l : Label) : Decidable (NoStart s l) :=
  decidable_of_iff ((match l with | .input inp => !inp.isStart | _ => true) = true) <| by
    cases l <;> simp [NoStart]

/-- A stop of a running service lasts. -/
theorem stop_durable_of_active :
    ∃ s s₁, Reaches step Always (init "web" { command := some "/bin/web" } 0) s ∧
      s.task.actor.state = .active ∧ s.step (.input (.cmd .stop true)) = some s₁ ∧
      ∀ s₂, Reaches step NoStart s₁ s₂ → s₂.task.actor.spawned = s.task.actor.spawned := by
  have h : (runIf step Always (init "web" { command := some "/bin/web" } 0)
      [.input (.cmd .start true), .act, .deliver, .act, .act, .act, .deliver, .act, .act, .act]).any
      (fun s : Loop => decide (s.task.actor.state = .active ∧ s.task.actor.backoffSleep = none ∧
        s.task.actor.pendingRestart = false) && (s.step (.input (.cmd .stop true))).isSome) =
      true := by
    decide +kernel
  obtain ⟨s, hr, h⟩ := Reaches.exists_of_runIf _ h
  rw [Bool.and_eq_true, decide_eq_true_eq] at h
  obtain ⟨⟨ha, hb, hp⟩, hs⟩ := h
  obtain ⟨s₁, hs₁⟩ := Option.isSome_iff_exists.mp hs
  exact ⟨s, s₁, hr, ha, hs₁,
    (stop_durable_iff hr hs₁).mpr (.inr ⟨.inr hb, hp, by simp [ha]⟩)⟩

/-- A restart, and a stop while the process is still stopping: the stop is answered, and then the
exit of the process starts the next one. -/
theorem exists_spawn_after_stop_of_restart :
    ∃ s s₁ s₂ s₃, Reaches step Always (init "web" { command := some "/bin/web" } 0) s ∧
      s.step (.input (.cmd .stop true)) = some s₁ ∧ Reaches step NoStart s₁ s₂ ∧
      s₂.task.done.head? = some (.replied true) ∧ Reaches step NoStart s₂ s₃ ∧
      s₃.task.actor.spawned = s₂.task.actor.spawned + 1 := by
  have h : (runIf step Always (init "web" { command := some "/bin/web" } 0)
      [.input (.cmd .start true), .act, .deliver, .act, .act, .act, .deliver, .act, .act, .act,
        .input (.cmd .restart true), .act, .act, .deliver, .act, .act, .act, .act]).any
      (fun s : Loop => (s.step (.input (.cmd .stop true))).any fun s₁ : Loop =>
        (runIf step NoStart s₁ [.act]).any fun s₂ : Loop =>
          (s₂.task.done.head?.any fun e => e matches .replied true) &&
            (runIf step NoStart s₂ [.input (.childExit true true), .act, .deliver, .act, .act,
              .act, .deliver, .act, .act, .deliver, .act, .act]).any fun s₃ : Loop =>
                decide (s₃.task.actor.spawned = s₂.task.actor.spawned + 1)) = true := by
    decide +kernel
  obtain ⟨s, hr, h⟩ := Reaches.exists_of_runIf _ h
  obtain ⟨s₁, hs₁, h⟩ := (Option.any_eq_true _ _).mp h
  obtain ⟨s₂, hr₂, h⟩ := Reaches.exists_of_runIf _ h
  rw [Bool.and_eq_true, Option.any_eq_true] at h
  obtain ⟨⟨e, he, hreply⟩, h⟩ := h
  obtain rfl : e = .replied true := by split at hreply <;> simp_all
  obtain ⟨s₃, hr₃, h₃⟩ := Reaches.exists_of_runIf _ h
  exact ⟨s, s₁, s₂, s₃, hr, hs₁, hr₂, he, hr₃, of_decide_eq_true h₃⟩

end Loop

end Vigil
