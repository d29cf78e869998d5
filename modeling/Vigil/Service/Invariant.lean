import Vigil.Service.Turn

/-!
# The invariant of the service actor

An actor keeps one process at a time, and its four pieces of loop state agree with its lifecycle
state, as long as it is not asked to start while it waits for its backoff timer. `handle_stop` and
`handle_restart` disarm that timer and `handle_start` does not, so a start in `Backoff` leaves it
armed behind a running process.

The invariant is about the settled actor and its history, so the only steps to look at are the
inputs, one script at a time (`Sound.start` to `Sound.backoffExpired`).
-/

namespace Vigil

open Actor (Effect Input)

/-! ## Histories -/

/-- The processes that were spawned and whose exit has not been collected. -/
def uncollected : List Effect → List ℕ
  | [] => []
  | .spawned p _ :: h => p :: uncollected h
  | .collected p :: h => (uncollected h).erase p
  | _ :: h => uncollected h

/-- At every point of the history, at most one process was uncollected, and none was when `do_start`
was entered. -/
structure Orderly (h : List Effect) : Prop where
  starts : ∀ older, .entered :: older <:+ h → uncollected older = []
  atMostOne : ∀ older, older <:+ h → (uncollected older).length ≤ 1

/-- The history in which nothing has happened is orderly. -/
theorem orderly_nil : Orderly [] where
  starts older h := by cases List.suffix_nil.mp h
  atMostOne older h := by rw [List.suffix_nil.mp h]; exact Nat.zero_le 1

/-- One more effect leaves the history orderly if and only if at most one process is uncollected
with it, and none before it if it enters `do_start`. -/
theorem orderly_cons {e : Effect} {h : List Effect} :
    Orderly (e :: h) ↔
      (e = .entered → uncollected h = []) ∧ (uncollected (e :: h)).length ≤ 1 ∧ Orderly h := by
  constructor
  · intro H
    refine ⟨?_, H.atMostOne _ (List.suffix_refl _), ?_, ?_⟩
    · rintro rfl
      exact H.starts h (List.suffix_refl _)
    · exact fun older ho => H.starts older (ho.trans (List.suffix_cons e h))
    · exact fun older ho => H.atMostOne older (ho.trans (List.suffix_cons e h))
  · rintro ⟨he, hl, H⟩
    constructor
    · intro older ho
      rcases List.suffix_cons_iff.mp ho with heq | ho
      · obtain ⟨rfl, rfl⟩ := List.cons.inj heq
        exact he rfl
      · exact H.starts older ho
    · intro older ho
      rcases List.suffix_cons_iff.mp ho with rfl | ho
      · exact hl
      · exact H.atMostOne older ho

/-- An older part of an orderly history is orderly. -/
theorem Orderly.of_suffix {h h' : List Effect} (H : Orderly h) (hs : h' <:+ h) : Orderly h' where
  starts older ho := H.starts older (ho.trans hs)
  atMostOne older ho := H.atMostOne older (ho.trans hs)

/-! ## One process at a time -/

/-- Every entry of `do_start` and every spawn in a list of actions finds no process held. -/
def Careful : Actor → List Instr → Prop
  | _, [] => True
  | a, i :: is => (i = .enter ∨ i = .spawn → a.child = none) ∧ Careful (a.exec i) is

/-- What holds of an actor and its history at every moment. -/
structure Kept (a : Actor) (h : List Effect) : Prop where
  orderly : Orderly h
  /-- The held process is the one that is uncollected. -/
  held : uncollected h = a.child.toList

/-- An effect keeps a history in order if it leaves the held process uncollected. -/
theorem Kept.cons {a b : Actor} {h : List Effect} {e : Effect} (H : Kept a h)
    (he : e = .entered → a.child = none) (hu : uncollected (e :: h) = b.child.toList) :
    Kept b (e :: h) where
  orderly := orderly_cons.mpr ⟨fun h' => by rw [H.held, he h']; rfl,
    by rw [hu]; cases b.child <;> simp, H.orderly⟩
  held := hu

/-- An effect that has to do with the held process at most keeps a history in order. -/
theorem Kept.map {a b : Actor} {h : List Effect} (H : Kept a h) {f : ℕ → Effect}
    (hf : ∀ p, f p ≠ .entered ∧ uncollected (f p :: h) = uncollected h) (hb : b.child = a.child) :
    Kept b ((a.child.map f).toList ++ h) := by
  cases hc : a.child with
  | none => exact ⟨H.orderly, by rw [hb]; exact H.held⟩
  | some p =>
    exact H.cons (fun h' => ((hf p).1 h').elim) (by rw [(hf p).2, hb]; exact H.held)

/-- Collecting the exit of the held process keeps a history in order. -/
theorem Kept.collect {a : Actor} {h : List Effect} (H : Kept a h) :
    Kept { a with child := none } ((a.child.map .collected).toList ++ h) := by
  cases hc : a.child with
  | none => exact ⟨H.orderly, H.held.trans (congrArg Option.toList hc)⟩
  | some p =>
    refine H.cons nofun ?_
    rw [uncollected, H.held, hc]
    exact List.erase_cons_head p []

/-- One careful action keeps a history in order. -/
theorem Kept.exec {a : Actor} {h : List Effect} (H : Kept a h) {i : Instr}
    (hi : i = .enter ∨ i = .spawn → a.child = none) :
    Kept (a.exec i) ((a.effect i).toList ++ h) := by
  cases i with
  | enter => exact H.cons (fun _ => hi (.inl rfl)) H.held
  | spawn =>
    refine H.cons nofun ?_
    rw [uncollected, H.held, hi (.inr rfl)]
    rfl
  | collect => exact H.collect
  | wait => exact H.collect
  | stopSignal => exact H.map (fun _ => ⟨nofun, rfl⟩) rfl
  | sigkill => exact H.map (fun _ => ⟨nofun, rfl⟩) rfl
  | signal sig => exact H.map (fun _ => ⟨nofun, rfl⟩) rfl
  | transition s r => exact H.cons nofun H.held
  | reply ok => exact H.cons nofun H.held
  | _ => exact ⟨H.orderly, H.held⟩

/-- A careful list of actions keeps a history in order. -/
theorem Kept.execAll {a : Actor} {h : List Effect} (H : Kept a h) (is : List Instr)
    (hc : Careful a is) : Kept (a.execAll is) (a.effects is h) := by
  induction is generalizing a h with
  | nil => exact H
  | cons i is ih => exact ih (H.exec hc.1) hc.2

/-- `handle_start` is careful where it finds no process. -/
theorem careful_handleStart {a : Actor}
    (h : a.child = none ∨ a.state.isRunning = true ∨ a.state = .stopping) (ok : Bool) :
    Careful a (a.handleStart ok) := by
  unfold Actor.handleStart Actor.doStart
  split_ifs with hr hs hok
  · simp [Careful]
  · simp [Careful]
  · simp_all [Careful, Actor.exec]
  · simp_all [Careful, Actor.exec]

/-- `handle_child_exit` enters `do_start` and spawns only while no process is held. -/
theorem careful_handleChildExit (a : Actor) (success ok : Bool) :
    Careful a (a.handleChildExit success ok) := by
  unfold Actor.handleChildExit Actor.applyExitPolicy Actor.doStart
  repeat' split
  all_goals simp [Careful, Actor.exec]

/-- `handle_backoff_expired` is careful where it finds no process. -/
theorem careful_handleBackoffExpired {a : Actor} (h : a.child = none) (ok : Bool) :
    Careful a (a.handleBackoffExpired ok) := by
  unfold Actor.handleBackoffExpired Actor.doStart
  split_ifs <;> simp [Careful, Actor.exec, h]

/-! ## The invariant -/

/-- What holds of a settled actor and its history as long as the actor stays. -/
structure Sound (a : Actor) (h : List Effect) : Prop extends Kept a h where
  /-- `Starting` does not outlast a turn. -/
  notStarting : a.state ≠ .starting
  /-- The backoff timer is armed exactly in `Backoff`. -/
  backoff : a.backoffSleep.isSome ↔ a.state = .backoff
  /-- A process is held exactly in `Active` and `Stopping`. -/
  child : a.child.isSome ↔ a.state = .active ∨ a.state = .stopping
  /-- In `Stopping`, the kill timer is armed, or `SIGKILL` has been sent. -/
  stopping : a.state = .stopping → a.stopDeadline.isSome ∨ ∃ p, a.child = some p ∧ .killed p ∈ h
  /-- A restart is pending only in `Stopping`. -/
  pending : a.pendingRestart = true → a.state = .stopping

namespace Sound

variable {a : Actor} {h : List Effect}

/-- Outside of `Active` and `Stopping`, no process is held. -/
theorem child_eq_none (H : Sound a h) (hs : a.state ≠ .active) (hs' : a.state ≠ .stopping) :
    a.child = none := by
  have := mt H.child.mp (not_or.mpr ⟨hs, hs'⟩)
  simpa using this

/-- Outside of `Backoff`, the backoff timer is not armed. -/
theorem backoffSleep_eq_none (H : Sound a h) (hs : a.state ≠ .backoff) :
    a.backoffSleep = none := by
  have := mt H.backoff.mp hs
  simpa using this

/-- Outside of `Stopping`, no restart is pending. -/
theorem pendingRestart_eq_false (H : Sound a h) (hs : a.state ≠ .stopping) :
    a.pendingRestart = false := by
  have := mt H.pending hs
  simpa using this

/-- Outside of `Active`, `Stopping`, and `Backoff`, an actor holds nothing. -/
theorem idle (H : Sound a h) (hs : a.state = .inactive ∨ a.state = .error) :
    a.child = none ∧ a.backoffSleep = none ∧ a.pendingRestart = false := by
  have hne : a.state ≠ .active ∧ a.state ≠ .stopping ∧ a.state ≠ .backoff := by
    rcases hs with hs | hs <;> simp [hs]
  exact ⟨H.child_eq_none hne.1 hne.2.1, H.backoffSleep_eq_none hne.2.2,
    H.pendingRestart_eq_false hne.2.1⟩

/-- More effects that keep the history in order do no harm to an actor that stays as it is. -/
theorem grow (H : Sound a h) {h' : List Effect} (K : Kept a h') (hh : h <:+ h') : Sound a h' where
  toKept := K
  notStarting := H.notStarting
  backoff := H.backoff
  child := H.child
  stopping hs := (H.stopping hs).imp_right fun ⟨p, hp, hk⟩ => ⟨p, hp, hh.subset hk⟩
  pending := H.pending

/-- Outside of `Backoff`, `handle_start` keeps the invariant. -/
theorem handleStart (H : Sound a h) (hb : a.state ≠ .backoff) (ok : Bool) :
    Sound (a.execAll (a.handleStart ok)) (a.effects (a.handleStart ok) h) := by
  have hidle : ¬(a.state.isRunning = true ∨ a.state = .stopping) →
      a.state = .inactive ∨ a.state = .error := by
    cases hst : a.state <;> simp_all [ServiceState.isRunning]
  have K := H.toKept.execAll _ (careful_handleStart (by
    by_cases hr : a.state.isRunning = true ∨ a.state = .stopping
    · exact .inr hr
    · exact .inl (H.idle (hidle hr)).1) ok)
  rw [a.execAll_handleStart] at K ⊢
  split_ifs at K ⊢ with hr hok
  · exact H.grow K (a.suffix_effects _ h)
  · obtain ⟨-, hbs, hp⟩ := H.idle (hidle hr)
    exact ⟨K, nofun, by simp [Actor.started, Actor.backoffReset, hbs],
      by simp [Actor.started, Actor.backoffReset], nofun,
      by simp [Actor.started, Actor.backoffReset, hp]⟩
  · obtain ⟨hc, hbs, hp⟩ := H.idle (hidle hr)
    exact ⟨K, nofun, by simp [hbs], by simp [hc], nofun, by simp [hp]⟩

/-- `handle_stop` keeps the invariant. -/
theorem handleStop (H : Sound a h) :
    Sound (a.execAll a.handleStop) (a.effects a.handleStop h) := by
  have K := H.toKept.execAll a.handleStop (by
    unfold Actor.handleStop; cases a.state <;> simp [Careful])
  have hh : h <:+ a.effects a.handleStop h := a.suffix_effects _ h
  have hst := a.execAll_handleStop
  cases hs : a.state with
  | inactive | error | stopping =>
    rw [hs] at hst
    rw [hst] at K ⊢
    exact H.grow K hh
  | backoff =>
    rw [hs] at hst
    rw [hst] at K ⊢
    have hc := H.child_eq_none (by simp [hs]) (by simp [hs])
    have hp := H.pendingRestart_eq_false (by simp [hs])
    exact ⟨K, nofun, by simp, by simp [hc], nofun, by simp [hp]⟩
  | starting => exact (H.notStarting hs).elim
  | active =>
    rw [hs] at hst
    rw [hst] at K ⊢
    have hc := H.child.mpr (.inl hs)
    have hbs := H.backoffSleep_eq_none (by simp [hs])
    exact ⟨K, nofun, by simp [hbs], by simp [hc], fun _ => .inl rfl, by simp⟩

/-- Outside of `Backoff`, `handle_restart` keeps the invariant. -/
theorem handleRestart (H : Sound a h) (hb : a.state ≠ .backoff) (ok : Bool) :
    Sound (a.execAll (a.handleRestart ok)) (a.effects (a.handleRestart ok) h) := by
  have hst := a.execAll_handleRestart ok
  by_cases hr : a.state.isRunning = true ∨ a.state = .stopping
  · have K := H.toKept.execAll (a.handleRestart ok) (by
      unfold Actor.handleRestart; simp_all [Careful])
    rw [if_pos hr] at hst
    rw [hst] at K ⊢
    have hc : a.child.isSome := H.child.mpr (by
      have := H.notStarting
      cases hs : a.state <;> simp_all [ServiceState.isRunning])
    exact ⟨K, nofun, by simp, by simp [hc], fun _ => .inl rfl, by simp⟩
  · have hn : a.handleRestart ok = a.handleStart ok := by
      unfold Actor.handleRestart
      rw [if_neg (by simpa using hr)]
    rw [hn]
    exact H.handleStart hb ok

/-- `handle_child_exit` keeps the invariant. -/
theorem handleChildExit (H : Sound a h) (hc : a.child.isSome) (success ok : Bool) :
    Sound (a.execAll (a.handleChildExit success ok))
      (a.effects (a.handleChildExit success ok) h) := by
  have K := H.toKept.execAll _ (careful_handleChildExit a success ok)
  have hact : a.state = .active ∨ a.state = .stopping := H.child.mp hc
  have hbs : a.backoffSleep = none := H.backoffSleep_eq_none
    (by rcases hact with h | h <;> simp [h])
  rw [a.execAll_handleChildExit, a.execAll_applyExitPolicy] at K ⊢
  split_ifs at K ⊢ with hs hp hok hr hl
  · exact ⟨K, nofun, by simp [Actor.started, Actor.backoffReset, hbs],
      by simp [Actor.started, Actor.backoffReset], nofun, nofun⟩
  · exact ⟨K, nofun, by simp [Actor.exitNoted, hbs], by simp [Actor.exitNoted], nofun, nofun⟩
  · exact ⟨K, nofun, by simp [Actor.exitNoted, hbs], by simp [Actor.exitNoted], nofun,
      by simp [Actor.exitNoted, hp]⟩
  · have hp := H.pendingRestart_eq_false hs
    exact ⟨K, nofun, by simp [Actor.exitNoted, hbs], by simp [Actor.exitNoted], nofun,
      by simp [Actor.exitNoted, hp]⟩
  · have hp := H.pendingRestart_eq_false hs
    exact ⟨K, nofun, by simp, by simp [Actor.exitNoted, Actor.exec], nofun,
      by simp [Actor.exitNoted, Actor.exec, hp]⟩
  · have hp := H.pendingRestart_eq_false hs
    exact ⟨K, nofun, by simp [Actor.exitNoted, hbs], by simp [Actor.exitNoted], nofun,
      by simp [Actor.exitNoted, hp]⟩

/-- `handle_kill_deadline` keeps the invariant: it sends `SIGKILL` before the timer is spent. -/
theorem handleKillDeadline (H : Sound a h) :
    Sound (a.execAll a.handleKillDeadline) (a.effects a.handleKillDeadline h) := by
  have K := H.toKept.execAll a.handleKillDeadline (by
    unfold Actor.handleKillDeadline; split_ifs <;> simp [Careful])
  rw [a.execAll_handleKillDeadline] at K ⊢
  refine ⟨K, H.notStarting, H.backoff, H.child, fun hs => .inr ?_, H.pending⟩
  obtain ⟨p, hp⟩ := Option.isSome_iff_exists.mp (H.child.mpr (.inr hs))
  refine ⟨p, hp, ?_⟩
  simp [Actor.handleKillDeadline, hp, Actor.effect, Actor.exec]

/-- `handle_backoff_expired` keeps the invariant: the timer is armed in `Backoff` only. -/
theorem handleBackoffExpired (H : Sound a h) (hb : a.backoffSleep.isSome) (ok : Bool) :
    Sound (a.execAll (a.handleBackoffExpired ok))
      (a.effects (a.handleBackoffExpired ok) h) := by
  have hs : a.state = .backoff := H.backoff.mp hb
  have hc := H.child_eq_none (by simp [hs]) (by simp [hs])
  have hp := H.pendingRestart_eq_false (by simp [hs])
  have K := H.toKept.execAll _ (careful_handleBackoffExpired hc ok)
  rw [a.execAll_handleBackoffExpired] at K ⊢
  split_ifs at K ⊢ with hok
  · exact ⟨K, nofun, by simp [Actor.started], by simp [Actor.started], nofun,
      by simp [Actor.started, hp]⟩
  · exact ⟨K, nofun, by simp, by simp [hc], nofun, by simp [hp]⟩

end Sound

/-! ## Runs -/

namespace Actor

/-- The commands that may start a process. -/
def Input.isStart : Input → Bool
  | .cmd .start _ | .cmd .restart _ => true
  | _ => false

/-- An input other than a start in `Backoff` or the shutdown keeps the invariant. -/
theorem sound_script {a : Actor} {h : List Effect} (H : Sound a h) {inp : Input}
    (hb : inp.isStart = true → a.state ≠ .backoff) (hs : ∀ ok, inp ≠ .cmd .shutdown ok)
    (hc : ∀ success ok, inp = .childExit success ok → a.child.isSome)
    (ht : ∀ ok, inp = .backoffExpired ok → a.backoffSleep.isSome) :
    Sound (a.execAll (a.script inp)) (a.effects (a.script inp) h) := by
  cases inp with
  | cmd c ok =>
    cases c with
    | start => exact H.handleStart (hb rfl) ok
    | stop => exact H.handleStop
    | restart => exact H.handleRestart (hb rfl) ok
    | status => exact H
    | forwardSignal sig =>
      exact H.grow (H.toKept.exec (i := .signal sig) (by simp)) (List.suffix_append _ h)
    | shutdown => exact (hs ok rfl).elim
  | childExit success ok => exact H.handleChildExit (hc success ok rfl) success ok
  | killDeadline => exact H.handleKillDeadline
  | backoffExpired ok => exact H.handleBackoffExpired (ht ok rfl) ok

end Actor

/-- What holds of a task at every moment: its settled actor is sound as long as the actor stays. -/
structure Task.Invariant (t : Task) : Prop where
  kept : Kept t.settled t.history
  sound : t.leaving = false → Sound t.settled t.history

/-- No start and no restart is taken in `Backoff`. -/
def Loop.NoStartInBackoff (s : Loop) : Loop.Label → Prop
  | .input inp => inp.isStart = true → s.task.actor.state ≠ .backoff
  | _ => True

/-- A step without a start in `Backoff` keeps the invariant. -/
theorem Task.Invariant.step {s s' : Loop} {l : Loop.Label} (H : s.task.Invariant)
    (hG : s.NoStartInBackoff l) (h : s.step l = some s') : s'.task.Invariant := by
  rcases Loop.step_cases h with ⟨d, rfl, rfl⟩ | ⟨t, rfl, ht, rfl⟩ | ⟨t, rfl, ht, rfl⟩ |
    ⟨inp, t, rfl, ht, rfl⟩
  · exact H
  · exact ⟨by rw [settled_act ht, history_act ht]; exact H.kept,
      by rw [settled_act ht, history_act ht, leaving_act ht]; exact H.sound⟩
  · exact ⟨by rw [settled_deliver ht, history_deliver ht]; exact H.kept,
      by rw [settled_deliver ht, history_deliver ht, leaving_deliver ht]; exact H.sound⟩
  · obtain ⟨hi, hr, -⟩ := take_eq_some_iff.mp ht
    have S := H.sound (leaving_of_idle hi)
    by_cases hs : ∃ ok, inp = .cmd .shutdown ok
    · obtain ⟨ok, rfl⟩ := hs
      have K : Kept t.settled t.history := by
        rw [settled_take ht, history_take ht]
        refine H.kept.execAll _ ?_
        unfold Actor.script Actor.cleanup
        split_ifs <;> simp [Careful]
      refine ⟨K, fun hl => ?_⟩
      rw [leaving_take ht] at hl
      unfold Actor.script Actor.cleanup at hl
      split_ifs at hl <;> simp at hl
    · have S' : Sound t.settled t.history := by
        rw [settled_take ht, history_take ht]
        refine Actor.sound_script S ?_ (fun ok ho => hs ⟨ok, ho⟩) ?_ ?_
        · rw [settled_of_idle hi]; exact hG
        · rintro success ok rfl
          rw [settled_of_idle hi]; exact hr
        · rintro ok rfl
          rw [settled_of_idle hi]; exact (Bool.and_eq_true_iff.mp hr).1
      exact ⟨S'.toKept, fun _ => S'⟩

/-- A new actor's task has the invariant. -/
theorem Task.Invariant.new (name : String) (config : ServiceConfig) :
    (Task.new name config).Invariant where
  kept := ⟨orderly_nil, rfl⟩
  sound _ := ⟨⟨orderly_nil, rfl⟩, nofun, by simp [settled, Task.new, Actor.new],
    by simp [settled, Task.new, Actor.new], nofun, nofun⟩

/-- In a run without a start in `Backoff`, the task has the invariant. -/
theorem Loop.invariant_of_reaches {name : String} {config : ServiceConfig} {now : ℕ} {s : Loop}
    (h : Runs.Reaches step NoStartInBackoff (init name config now) s) : s.task.Invariant :=
  h.invariant (P := fun s => s.task.Invariant) (.new name config)
    fun _ _ _ _ H hG hs => H.step hG hs

/-- What the actor's loop is to keep up: one process at a time, and at the loop head, timers,
process handle, and pending restart that agree with the state. -/
structure Task.Coherent (t : Task) : Prop where
  /-- `do_start` was never entered while an earlier process was uncollected. -/
  starts : ∀ older, .entered :: older <:+ t.done → uncollected older = []
  /-- At most one process is uncollected. -/
  atMostOne : (uncollected t.done).length ≤ 1
  backoff : t.idle = true → (t.actor.backoffSleep.isSome ↔ t.actor.state = .backoff)
  child : t.idle = true →
    (t.actor.child.isSome ↔ t.actor.state = .active ∨ t.actor.state = .stopping)
  stopping : t.idle = true → t.actor.state = .stopping →
    t.actor.stopDeadline.isSome ∨ ∃ p, t.actor.child = some p ∧ .killed p ∈ t.done
  pending : t.idle = true → t.actor.pendingRestart = true → t.actor.state = .stopping

/-- The invariant makes a task coherent. -/
theorem Task.Invariant.coherent {t : Task} (H : t.Invariant) : t.Coherent := by
  have O : Orderly t.done := H.kept.orderly.of_suffix t.done_suffix
  have S : t.idle = true → Sound t.actor t.done := fun hi => by
    have := H.sound (leaving_of_idle hi)
    rwa [settled_of_idle hi, history_of_idle hi] at this
  exact ⟨O.starts, O.atMostOne _ (List.suffix_refl _), fun hi => (S hi).backoff,
    fun hi => (S hi).child, fun hi => (S hi).stopping, fun hi => (S hi).pending⟩

/-- In every run in which the actor takes no start and no restart in `Backoff`, the actor is
coherent throughout: under every order of commands, exits, and timers, and every outcome of
spawning. -/
theorem Loop.coherent_of_reaches {name : String} {config : ServiceConfig} {now : ℕ} {s : Loop}
    (h : Runs.Reaches step NoStartInBackoff (init name config now) s) : s.task.Coherent :=
  (invariant_of_reaches h).coherent

instance (s : Loop) (l : Loop.Label) : Decidable (s.NoStartInBackoff l) :=
  match l with
  | .input inp => inferInstanceAs (Decidable (inp.isStart = true → s.task.actor.state ≠ .backoff))
  | .tick _ | .act | .deliver => isTrue trivial

/-- A run through `Backoff`, to the process that the timer starts. -/
theorem Loop.coherent_after_backoff :
    ∃ s, Runs.Reaches step NoStartInBackoff (init "web" { command := some "/bin/web" } 0) s ∧
      s.task.actor.spawned = 2 ∧ s.task.Coherent := by
  have h : (Runs.runIf step NoStartInBackoff (init "web" { command := some "/bin/web" } 0)
      [.input (.cmd .start true), .act, .deliver, .act, .act, .act, .deliver, .act, .act, .act,
        .input (.childExit false true), .act, .deliver, .act, .act, .act, .act, .deliver, .act,
        .tick 500, .input (.backoffExpired true), .act, .deliver, .act, .act]).any
      (fun s : Loop => decide (s.task.actor.spawned = 2)) = true := by
    decide +kernel
  obtain ⟨s, hr, hs⟩ := Runs.Reaches.exists_of_runIf _ h
  exact ⟨s, hr, of_decide_eq_true hs, coherent_of_reaches hr⟩

/-- In `Backoff`, a start and a restart are the same script. -/
theorem Actor.script_of_isStart {a : Actor} (hb : a.state = .backoff) {inp : Input}
    (hi : inp.isStart = true) : ∃ ok, a.script inp = a.handleStart ok := by
  cases inp with
  | cmd c ok =>
    cases c with
    | start => exact ⟨ok, rfl⟩
    | restart => exact ⟨ok, by unfold script handleRestart; simp [hb, ServiceState.isRunning]⟩
    | _ => cases hi
  | _ => cases hi

/-- The condition is exact: once a coherent actor takes a start in `Backoff`, it gets back to its
loop head with the backoff timer armed outside of `Backoff`. -/
theorem Loop.not_coherent_of_start {s s₁ s₂ : Loop} {inp : Input} (hs : s.task.Coherent)
    (hb : s.task.actor.state = .backoff) (hi : inp.isStart = true)
    (h : s.step (.input inp) = some s₁)
    (hr : Runs.Reaches step (fun _ l => ∀ inp, l ≠ .input inp) s₁ s₂)
    (hidle : s₂.task.idle = true) : ¬s₂.task.Coherent := by
  obtain ⟨t, ht, rfl⟩ := Option.map_eq_some_iff.mp h
  have hidle₀ := (Task.take_eq_some_iff.mp ht).1
  have harmed : s.task.actor.backoffSleep.isSome := (hs.backoff hidle₀).mpr hb
  have hset : s₂.task.actor = s.task.actor.execAll (s.task.actor.script inp) := by
    rw [← Task.settled_of_idle hidle, settled_of_reaches hr, Task.settled_take ht,
      Task.settled_of_idle hidle₀]
  obtain ⟨ok, hok⟩ := Actor.script_of_isStart hb hi
  rw [hok, Actor.execAll_handleStart, if_neg (by simp [hb, ServiceState.isRunning])] at hset
  intro H
  have hback := H.backoff hidle
  rw [hset] at hback
  split_ifs at hback
  · simp [Actor.started, Actor.backoffReset, harmed] at hback
  · simp [harmed] at hback

/-- A start in `Backoff` leaves the backoff timer armed. When it elapses, `do_start` is entered
behind the running process, and then two processes are uncollected. -/
theorem Loop.exists_not_coherent :
    ∃ s, Runs.Reaches step Runs.Always (init "web" { command := some "/bin/web" } 0) s ∧
      ¬s.task.Coherent := by
  have h : (Runs.runIf step Runs.Always (init "web" { command := some "/bin/web" } 0)
      [.input (.cmd .start true), .act, .deliver, .act, .act, .act, .deliver, .act, .act, .act,
        .input (.childExit false true), .act, .deliver, .act, .act, .act, .act, .deliver, .act,
        .input (.cmd .start true), .act, .deliver, .act, .act, .act, .deliver, .act, .act, .act,
        .tick 500, .input (.backoffExpired true), .act, .deliver, .act, .act]).any
      (fun s : Loop => decide ((uncollected s.task.done).length = 2)) = true := by
    decide +kernel
  obtain ⟨s, hr, hs⟩ := Runs.Reaches.exists_of_runIf _ h
  exact ⟨s, hr, fun H => by have := H.atMostOne; simp_all⟩

end Vigil
