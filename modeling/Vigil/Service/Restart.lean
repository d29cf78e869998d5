import Vigil.Service.Stop

/-!
# A restart of a process that is held

A restart of a running service is deferred: the process is asked to stop, and the next one is
spawned when its exit is handled. `RestartsOnce` says that nothing is spawned before that and that
the exit leads to one attempt. It holds whatever comes in between (`Deferred` is what carries it),
if the restart was taken in `Active` or in `Stopping`.

There is one more state in which an actor can hold a process. A start in `Backoff` leaves the
backoff timer armed, and when it elapses behind the running process and the spawn fails, the actor
is left in `Error` with the process. A restart is not deferred there: `handle_start` spawns beside
the old process. `Loop.restart_once_iff` says that this is the only way in which a restart goes
wrong.
-/

namespace Vigil

open Actor (Effect Input)

/-- How often `do_start` was entered. -/
def attempts (h : List Effect) : ℕ := h.countP fun e => e matches .entered

namespace Actor

/-- Only `do_start` is an attempt. -/
theorem attempts_effects (a : Actor) (is : List Instr) (h : List Effect) :
    attempts (a.effects is h) = attempts h + is.count .enter := by
  induction is generalizing a h with
  | nil => rfl
  | cons i is ih =>
    rw [effects_cons, ih, List.count_cons]
    have hone : attempts ((a.effect i).toList ++ h) =
        attempts h + if i == .enter then 1 else 0 := by
      cases i with
      | enter => simp [effect, attempts]
      | collect | wait | stopSignal | sigkill | signal => cases hc : a.child <;>
          simp [effect, attempts, hc]
      | _ => simp [effect, attempts]
    omega

/-- A restart waits for the exit of the held process, and the actor has spawned `n` processes. -/
structure Deferred (n : ℕ) (a : Actor) : Prop where
  /-- The process has been asked to stop. -/
  stopping : a.state = .stopping
  /-- The restart is noted. -/
  pending : a.pendingRestart = true
  /-- No backoff timer is armed that could start a process first. -/
  backoffSleep : a.backoffSleep = none
  /-- Nothing has been spawned. -/
  spawned : a.spawned = n

/-- A restart in `Active` or `Stopping` is deferred. -/
theorem deferred_handleRestart {a : Actor} (h : a.state = .active ∨ a.state = .stopping)
    (ok : Bool) : Deferred a.spawned (a.execAll (a.handleRestart ok)) := by
  have hr : a.state.isRunning = true ∨ a.state = .stopping := by
    rcases h with h | h
    · exact Or.inl (by rw [h]; rfl)
    · exact Or.inr h
  rw [execAll_handleRestart, if_pos hr]
  exact ⟨rfl, rfl, rfl, rfl⟩

/-- Whatever is taken before the exit but a stop and the shutdown leaves the restart deferred. -/
theorem Deferred.script {n : ℕ} {a : Actor} (H : Deferred n a) {inp : Input}
    (hc : ∀ ok, inp ≠ .cmd .stop ok ∧ inp ≠ .cmd .shutdown ok)
    (he : ∀ success ok, inp ≠ .childExit success ok)
    (hb : ∀ ok, inp = .backoffExpired ok → a.backoffSleep.isSome) :
    Deferred n (a.execAll (a.script inp)) := by
  cases inp with
  | cmd c ok =>
    cases c with
    | start =>
      simp only [Actor.script]
      -- `handle_start` does nothing in `Stopping`.
      rw [execAll_handleStart, if_pos (Or.inr H.stopping)]
      exact H
    | stop => exact absurd rfl (hc ok).1
    | restart =>
      simp only [Actor.script]
      rw [← H.spawned]
      exact deferred_handleRestart (Or.inr H.stopping) ok
    | status => exact H
    | forwardSignal sig => exact H
    | shutdown => exact absurd rfl (hc ok).2
  | childExit success ok => exact absurd rfl (he success ok)
  | killDeadline =>
    simp only [Actor.script]
    rw [execAll_handleKillDeadline]
    exact ⟨H.stopping, H.pending, H.backoffSleep, H.spawned⟩
  | backoffExpired ok =>
    -- The timer that would spawn is not armed.
    have harmed := hb ok rfl
    rw [H.backoffSleep] at harmed
    cases harmed

/-- If a restart waits for the exit, the exit leads to one process with the backoff reset, or to
`Error`. -/
theorem Deferred.execAll_handleChildExit {n : ℕ} {a : Actor} (H : Deferred n a)
    (success ok : Bool) :
    a.execAll (a.handleChildExit success ok) =
      if a.canSpawn ok = true then
        { a.started.backoffReset with stopDeadline := none, pendingRestart := false }
      else { a.exitNoted with state := .error, pendingRestart := false } := by
  rw [Actor.execAll_handleChildExit, if_pos H.stopping, if_pos H.pending]

/-- If a restart waits for the exit, the exit leads to one attempt. -/
theorem Deferred.count_handleChildExit {n : ℕ} {a : Actor} (H : Deferred n a)
    (success ok : Bool) : (a.handleChildExit success ok).count .enter = 1 := by
  unfold handleChildExit doStart
  rw [if_pos H.stopping, if_pos H.pending]
  split_ifs <;> rfl

end Actor

namespace Loop

open Runs

/-- The step is not the exit of the held process, a stop, or the shutdown. -/
def Undisturbed (_ : Loop) : Label → Prop
  | .input (.cmd .stop _) | .input (.cmd .shutdown _) | .input (.childExit _ _) => False
  | _ => True

/-- The step takes no input. -/
def NoInput (_ : Loop) (l : Label) : Prop := ∀ inp, l ≠ .input inp

/-- From the turn that takes the restart on: nothing is spawned before the exit of the process is
handled, and handling it makes one attempt, which ends in `Active` with the backoff reset or in
`Error`, with no timer armed. -/
structure RestartsOnce (s₁ : Loop) : Prop where
  /-- Nothing is spawned before the exit. -/
  waits : ∀ s₂, Reaches step Undisturbed s₁ s₂ →
    s₂.task.actor.spawned = s₁.task.actor.spawned
  /-- The turn that handles the exit ends. -/
  ends : ∀ s₂ s₃ success ok, Reaches step Undisturbed s₁ s₂ →
    s₂.step (.input (.childExit success ok)) = some s₃ →
      ∃ s₄, Reaches step NoInput s₃ s₄ ∧ s₄.task.idle = true
  /-- It makes one attempt. -/
  once : ∀ s₂ s₃ s₄ success ok, Reaches step Undisturbed s₁ s₂ →
    s₂.step (.input (.childExit success ok)) = some s₃ → Reaches step NoInput s₃ s₄ →
    s₄.task.idle = true → attempts s₄.task.done = attempts s₂.task.done + 1
  /-- It ends in `Active` or in `Error`. -/
  outcome : ∀ s₂ s₃ s₄ success ok, Reaches step Undisturbed s₁ s₂ →
    s₂.step (.input (.childExit success ok)) = some s₃ → Reaches step NoInput s₃ s₄ →
    s₄.task.idle = true →
      let a := s₄.task.actor
      (a.state = .active ∧ a.spawned = s₂.task.actor.spawned + 1 ∧ a.backoffCount = 0 ∧
          a.currentBackoff = durationOr a.config.backoffDelay defaultBackoffDelay ∨
        a.state = .error ∧ a.spawned = s₂.task.actor.spawned) ∧
      a.stopDeadline = none ∧ a.backoffSleep = none ∧ a.pendingRestart = false

/-- Without an input, the history stays the same. -/
theorem history_of_reaches {s s' : Loop} (h : Reaches step NoInput s s') :
    s'.task.history = s.task.history :=
  h.constant (fun s => s.task.history) fun s l s' _ hG hl => by
    rcases step_cases hl with ⟨d, rfl, rfl⟩ | ⟨t, rfl, ht, rfl⟩ | ⟨t, rfl, ht, rfl⟩ |
      ⟨inp, t, rfl, ht, rfl⟩
    · rfl
    · exact Task.history_act ht
    · exact Task.history_deliver ht
    · exact absurd rfl (hG inp)

/-- A deferred restart stays deferred until the exit, and nothing is spawned. -/
theorem deferred_of_reaches {s s' : Loop} {n : ℕ} (hd : s.task.settled.Deferred n)
    (hn : s.task.actor.spawned = n) (h : Reaches step Undisturbed s s') :
    s'.task.actor.spawned = n ∧ s'.task.settled.Deferred n := by
  -- What the actor will have spawned stays the same, and it only ever spawns more.
  have hinv := h.invariant
    (P := fun s' => n ≤ s'.task.actor.spawned ∧ s'.task.settled.Deferred n)
    ⟨hn.ge, hd⟩ ?_
  · have hle := s'.task.actor.spawned_le_execAll s'.task.todo
    have heq : (s'.task.actor.execAll s'.task.todo).spawned = n := hinv.2.spawned
    exact ⟨by omega, hinv.2⟩
  rintro s₁ l s₂ - ⟨hle, hd⟩ hG hl
  rcases step_cases hl with ⟨d, rfl, rfl⟩ | ⟨t, rfl, ht, rfl⟩ | ⟨t, rfl, ht, rfl⟩ |
    ⟨inp, t, rfl, ht, rfl⟩
  · exact ⟨hle, hd⟩
  · rw [Task.settled_act ht]
    obtain ⟨-, i, rest, -, -, rfl⟩ := Task.act_eq_some_iff.mp ht
    exact ⟨hle.trans (s₁.task.actor.spawned_le_exec i), hd⟩
  · rw [Task.settled_deliver ht]
    obtain ⟨k, -, rfl⟩ := Task.deliver_eq_some_iff.mp ht
    exact ⟨hle, hd⟩
  · obtain ⟨hi, hr, ht'⟩ := Task.take_eq_some_iff.mp ht
    rw [Task.settled_take ht]
    refine ⟨by rw [ht']; exact hle, hd.script ?_ ?_ ?_⟩
    · intro ok
      constructor
      · rintro rfl
        exact hG
      · rintro rfl
        exact hG
    · rintro success ok rfl
      exact hG
    · rintro ok rfl
      rw [Task.settled_of_idle hi]
      exact (Bool.and_eq_true_iff.mp hr).1

/-- From where a restart waits for the exit on, the service is restarted once. -/
theorem restartsOnce_of_deferred {s₁ : Loop} (hd : s₁.task.settled.Deferred s₁.task.actor.spawned) :
    s₁.RestartsOnce := by
  -- What the turn that handles the exit comes to.
  have exit : ∀ s₂ s₃ success ok, Reaches step Undisturbed s₁ s₂ →
      s₂.step (.input (.childExit success ok)) = some s₃ →
      ∃ t, s₂.task.take s₂.now (.childExit success ok) = some t ∧ s₃ = { s₂ with task := t } ∧
        s₂.task.idle = true ∧ s₂.task.actor.Deferred s₁.task.actor.spawned := by
    intro s₂ s₃ success ok hr hs
    obtain ⟨t, ht, rfl⟩ := Option.map_eq_some_iff.mp hs
    obtain ⟨hi, -, -⟩ := Task.take_eq_some_iff.mp ht
    have hd₂ := (deferred_of_reaches hd rfl hr).2
    rw [Task.settled_of_idle hi] at hd₂
    exact ⟨t, ht, rfl, hi, hd₂⟩
  refine ⟨fun s₂ hr => (deferred_of_reaches hd rfl hr).1, ?_, ?_, ?_⟩
  · intro s₂ s₃ success ok hr hs
    obtain ⟨t, ht, rfl, -, -⟩ := exit s₂ s₃ success ok hr hs
    obtain ⟨t', hr', hi', -⟩ := exists_idle_of_take (G := NoInput) (fun _ _ h => h) ht (by simp)
    exact ⟨⟨s₂.now, t'⟩, hr', hi'⟩
  · intro s₂ s₃ s₄ success ok hr hs hr' hi'
    obtain ⟨t, ht, rfl, hi, hd₂⟩ := exit s₂ s₃ success ok hr hs
    rw [← Task.history_of_idle hi', history_of_reaches hr', Task.history_take ht,
      Task.settled_of_idle hi, Task.history_of_idle hi, Actor.attempts_effects]
    exact congrArg _ (hd₂.count_handleChildExit success ok)
  · intro s₂ s₃ s₄ success ok hr hs hr' hi'
    obtain ⟨t, ht, rfl, hi, hd₂⟩ := exit s₂ s₃ success ok hr hs
    have hset : s₄.task.actor = s₂.task.actor.execAll
        (s₂.task.actor.handleChildExit success ok) := by
      rw [← Task.settled_of_idle hi', settled_of_reaches hr', Task.settled_take ht,
        Task.settled_of_idle hi]
      rfl
    rw [hd₂.execAll_handleChildExit] at hset
    dsimp only
    rw [hset]
    split_ifs
    · exact ⟨Or.inl ⟨rfl, rfl, rfl, rfl⟩, rfl, hd₂.backoffSleep, rfl⟩
    · exact ⟨Or.inr ⟨rfl, rfl⟩, rfl, hd₂.backoffSleep, rfl⟩

/-! ## Where a restart is not deferred -/

/-- A process that is held has been spawned. -/
theorem spawned_pos {name : String} {config : ServiceConfig} {now : ℕ} {s : Loop}
    (h : Reaches step Always (init name config now) s) (hc : s.task.actor.child.isSome) :
    0 < s.task.actor.spawned := by
  refine h.invariant (P := fun s => s.task.actor.child.isSome → 0 < s.task.actor.spawned)
    (fun hc => by cases hc) ?_ hc
  intro s l s' _ H _ hl
  rcases step_cases hl with ⟨d, rfl, rfl⟩ | ⟨t, rfl, ht, rfl⟩ | ⟨t, rfl, ht, rfl⟩ |
    ⟨inp, t, rfl, ht, rfl⟩
  · exact H
  · obtain ⟨-, i, rest, -, -, rfl⟩ := Task.act_eq_some_iff.mp ht
    intro hc
    cases i with
    | spawn => exact Nat.succ_pos _
    | collect | wait => cases hc
    | _ => exact H hc
  · obtain ⟨k, -, rfl⟩ := Task.deliver_eq_some_iff.mp ht
    exact H
  · obtain ⟨-, -, rfl⟩ := Task.take_eq_some_iff.mp ht
    exact H

/-- A service without a command has no process. -/
theorem command_of_child {name : String} {config : ServiceConfig} {now : ℕ} {s : Loop}
    (h : Reaches step Always (init name config now) s) (hc : s.task.actor.child.isSome) :
    s.task.actor.config.command ≠ none := by
  have hconfig : s.task.actor.config = config :=
    h.constant (fun s => s.task.actor.config) fun s l s' _ _ hl => (static_step hl).2
  intro hnone
  rw [hconfig] at hnone
  have hzero : s.task.settled.spawned = 0 :=
    h.constant (fun s => s.task.settled.spawned) fun s l s' hr _ hl => by
      have hs : s.task.actor.config = config :=
        hr.constant (fun s => s.task.actor.config) fun s l s' _ _ hl => (static_step hl).2
      rcases step_cases hl with ⟨d, rfl, rfl⟩ | ⟨t, rfl, ht, rfl⟩ | ⟨t, rfl, ht, rfl⟩ |
        ⟨inp, t, rfl, ht, rfl⟩
      · rfl
      · rw [Task.settled_act ht]
      · rw [Task.settled_deliver ht]
      · rw [Task.settled_take ht, Actor.spawned_script_of_command]
        rw [Task.settled, Actor.config_execAll, hs, hnone]
  -- The process that is held was spawned, and nothing ever is without a command.
  have hpos := spawned_pos h hc
  have hle := s.task.actor.spawned_le_execAll s.task.todo
  rw [Task.settled] at hzero
  omega

/-- In `Error` a start spawns a process, if it can. -/
theorem spawned_handleStart_of_error {a : Actor} (h : a.state = .error) {ok : Bool}
    (hok : a.canSpawn ok = true) : (a.execAll (a.handleStart ok)).spawned = a.spawned + 1 := by
  rw [Actor.execAll_handleStart, if_neg (by rw [h]; decide), if_pos hok]
  rfl

/-- In `Error` a restart is not deferred: a process is spawned before the held one has exited. -/
theorem exists_spawn_of_error {s s₁ : Loop} {ok : Bool} (hstate : s.task.actor.state = .error)
    (hcmd : s.task.actor.config.command ≠ none)
    (hs : s.step (.input (.cmd .restart ok)) = some s₁) :
    ∃ s₂, Reaches step Undisturbed s₁ s₂ ∧
      s₁.task.actor.spawned < s₂.task.actor.spawned := by
  have hG : ∀ s l, (∀ inp, l ≠ .input inp) → Undisturbed s l := by
    intro s l hl
    cases l with
    | input inp => exact absurd rfl (hl inp)
    | _ => trivial
  obtain ⟨t, ht, rfl⟩ := Option.map_eq_some_iff.mp hs
  obtain ⟨hi, -, ht'⟩ := Task.take_eq_some_iff.mp ht
  have hspawned : t.actor.spawned = s.task.actor.spawned := by rw [ht']
  obtain ⟨t', hr, hi', hactor⟩ := exists_idle_of_take (G := Undisturbed) hG ht (by simp)
  have hnot : ¬ (s.task.actor.state.isRunning = true ∨ s.task.actor.state = .stopping) := by
    rw [hstate]
    decide
  rw [Actor.script, Actor.execAll_handleRestart, if_neg hnot] at hactor
  -- A start whose spawn succeeds is one that the environment allows.
  have hcan : s.task.actor.canSpawn true = true := by
    simpa [Actor.canSpawn] using Option.isSome_iff_ne_none.mpr hcmd
  by_cases hok : s.task.actor.canSpawn ok = true
  · -- The restart itself spawns.
    refine ⟨⟨s.now, t'⟩, hr, ?_⟩
    rw [hspawned, hactor, spawned_handleStart_of_error hstate hok]
    exact Nat.lt_succ_self _
  · -- Its spawn fails, and a start spawns.
    rw [Actor.execAll_handleStart, if_neg hnot, if_neg hok] at hactor
    obtain ⟨s₂, hr₂, -, hs₂⟩ := exists_turn (G := Undisturbed) hG (s := ⟨s.now, t'⟩)
      (.cmd .start true) hi' rfl (by simp) trivial
    refine ⟨s₂, hr.trans hr₂, ?_⟩
    have hspawn := spawned_handleStart_of_error (a := t'.actor) (by rw [hactor])
      (by rw [hactor]; exact hcan)
    rw [hspawned, hs₂]
    show _ < (t'.actor.execAll (t'.actor.handleStart true)).spawned
    rw [hspawn, hactor]
    exact Nat.lt_succ_self _

/-- In every state that a run reaches with a process held, a restart restarts once if and only if it
is taken in `Active` or in `Stopping`. -/
theorem restart_once_iff {name : String} {config : ServiceConfig} {now : ℕ} {s s₁ : Loop}
    {ok : Bool} (h : Reaches step Always (init name config now) s)
    (hc : s.task.actor.child.isSome) (hs : s.step (.input (.cmd .restart ok)) = some s₁) :
    s₁.RestartsOnce ↔ s.task.actor.state = .active ∨ s.task.actor.state = .stopping := by
  obtain ⟨t, ht, hs₁⟩ := Option.map_eq_some_iff.mp hs
  obtain ⟨hi, -, ht'⟩ := Task.take_eq_some_iff.mp ht
  constructor
  · intro H
    have P : s.task.actor.Plausible := by
      rw [← Task.settled_of_idle hi]
      exact plausible_of_reaches h (Task.leaving_of_idle hi)
    rcases P.held hc with hst | hst | hst
    · exact Or.inl hst
    · exact Or.inr hst
    · obtain ⟨s₂, hr, hlt⟩ := exists_spawn_of_error hst (command_of_child h hc) hs
      have hwaits := H.waits s₂ hr
      omega
  · intro hstate
    refine restartsOnce_of_deferred ?_
    have hd := Actor.deferred_handleRestart hstate ok
    subst hs₁
    have hspawned : t.actor.spawned = s.task.actor.spawned := by rw [ht']
    have hset : t.settled = s.task.actor.execAll (s.task.actor.handleRestart ok) := by
      rw [Task.settled_take ht, Task.settled_of_idle hi]
      rfl
    rw [hset, hspawned]
    exact hd

instance (s : Loop) (l : Label) : Decidable (Undisturbed s l) := by
  unfold Undisturbed
  split <;> infer_instance

/-- A restart of a running service restarts it once. -/
theorem restart_once_of_active :
    ∃ s s₁, Reaches step Always (init "web" { command := some "/bin/web" } 0) s ∧
      s.task.actor.child = some 0 ∧ s.step (.input (.cmd .restart true)) = some s₁ ∧
      s₁.RestartsOnce := by
  have h : (runIf step Always (init "web" { command := some "/bin/web" } 0)
      [.input (.cmd .start true), .act, .deliver, .act, .act, .act, .deliver, .act, .act, .act]).any
      (fun s : Loop => decide (s.task.actor.state = .active ∧ s.task.actor.child = some 0) &&
        (s.step (.input (.cmd .restart true))).isSome) = true := by
    decide +kernel
  obtain ⟨s, hr, h⟩ := Reaches.exists_of_runIf _ h
  rw [Bool.and_eq_true, decide_eq_true_eq] at h
  obtain ⟨⟨hstate, hc⟩, hs⟩ := h
  obtain ⟨s₁, hs₁⟩ := Option.isSome_iff_exists.mp hs
  exact ⟨s, s₁, hr, hc, hs₁, (restart_once_iff hr (by rw [hc]; rfl) hs₁).mpr (Or.inl hstate)⟩

/-- A process runs in `Active`, with the backoff timer left armed by the start in `Backoff`. The
timer elapses, and the spawn fails. The restart that comes then is accepted, and it spawns a process
before the exit of the first one is handled. -/
theorem exists_spawn_before_exit :
    ∃ s₀ s s₁ s₂, Reaches step Always (init "web" { command := some "/bin/web" } 0) s₀ ∧
      s₀.task.actor.state = .active ∧ s₀.task.actor.child = some 1 ∧
      Reaches step Undisturbed s₀ s ∧ s.step (.input (.cmd .restart true)) = some s₁ ∧
      s₁.task.actor.child = some 1 ∧ Reaches step Undisturbed s₁ s₂ ∧
      s₂.task.done.head? = some (.replied true) ∧
      s₂.task.actor.spawned = s₁.task.actor.spawned + 1 := by
  have h : (runIf step Always (init "web" { command := some "/bin/web" } 0)
      [.input (.cmd .start true), .act, .deliver, .act, .act, .act, .deliver, .act, .act, .act,
        .input (.childExit false true), .act, .deliver, .act, .act, .act, .act, .deliver, .act,
        .input (.cmd .start true), .act, .deliver, .act, .act, .act, .deliver, .act, .act,
        .act]).any (fun s₀ : Loop =>
      decide (s₀.task.actor.state = .active ∧ s₀.task.actor.child = some 1) &&
        (runIf step Undisturbed s₀ [.tick 500, .input (.backoffExpired false), .act, .deliver,
          .act, .act, .deliver, .act, .act]).any fun s : Loop =>
            (s.step (.input (.cmd .restart true))).any fun s₁ : Loop =>
              decide (s₁.task.actor.child = some 1) &&
              (runIf step Undisturbed s₁ [.act, .deliver, .act, .act, .act, .deliver, .act, .act,
                .act]).any fun s₂ : Loop =>
                  (s₂.task.done.head?.any fun e => e matches .replied true) &&
                    decide (s₂.task.actor.spawned = s₁.task.actor.spawned + 1)) = true := by
    decide +kernel
  obtain ⟨s₀, hr₀, h⟩ := Reaches.exists_of_runIf _ h
  rw [Bool.and_eq_true, decide_eq_true_eq] at h
  obtain ⟨⟨hstate, hc⟩, h⟩ := h
  obtain ⟨s, hr, h⟩ := Reaches.exists_of_runIf _ h
  obtain ⟨s₁, hs₁, h⟩ := (Option.any_eq_true _ _).mp h
  rw [Bool.and_eq_true, decide_eq_true_eq] at h
  obtain ⟨hc₁, h⟩ := h
  obtain ⟨s₂, hr₂, h⟩ := Reaches.exists_of_runIf _ h
  rw [Bool.and_eq_true, Option.any_eq_true, decide_eq_true_eq] at h
  obtain ⟨⟨e, he, hreply⟩, hspawned⟩ := h
  obtain rfl : e = .replied true := by split at hreply <;> simp_all
  exact ⟨s₀, s, s₁, s₂, hr₀, hstate, hc, hr, hs₁, hc₁, hr₂, he, hspawned⟩

end Loop

end Vigil
