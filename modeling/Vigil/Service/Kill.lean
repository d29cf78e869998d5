import Vigil.Service.Invariant

/-!
# When `SIGKILL` is sent

An actor sends `SIGKILL` when its kill timer elapses, and in `cleanup`, half a second after the stop
signal whatever the kill delay is. So no process is killed before its kill delay is over as long as
the actor is asked to shut down only when it has no process (`Loop.Spares`). The proof follows the
turn of the loop action by action (`Timely`), since the time of the stop signal and the time at
which the timer is set are not the same: between them the actor may wait for room in the event
channel.
-/

namespace Vigil

open Actor (Effect Input)

/-- The process was sent the stop signal at least `delay` before the time. -/
def Warned (log : List (ℕ × Effect)) (delay p time : ℕ) : Prop :=
  ∃ t₁ sig, (t₁, .stopSignalled p sig) ∈ log ∧ t₁ + delay ≤ time

/-- A process that has been warned stays so as more is done and time passes. -/
theorem Warned.mono {log log' : List (ℕ × Effect)} {delay p time time' : ℕ}
    (h : Warned log delay p time) (hl : ∀ x ∈ log, x ∈ log') (ht : time ≤ time') :
    Warned log' delay p time' :=
  let ⟨t₁, sig, hm, hle⟩ := h
  ⟨t₁, sig, hl _ hm, hle.trans ht⟩

/-- The delay is over when it has passed since the stop signal. -/
theorem Warned.add {log : List (ℕ × Effect)} {p time : ℕ} (h : Warned log 0 p time) (delay : ℕ) :
    Warned log delay p (time + delay) :=
  let ⟨t₁, sig, hm, hle⟩ := h
  ⟨t₁, sig, hm, Nat.add_le_add_right hle delay⟩

/-- The kill timer is set only when the held process has been sent the stop signal (`signalled`),
`SIGKILL` is sent only when its kill delay is over (`due`), and a process is spawned only when the
kill timer is not armed. -/
def Timely : Actor → (signalled due : Bool) → List Instr → Prop
  | _, _, _, [] => True
  | a, signalled, due, i :: is =>
    (i = .armStop → signalled = true) ∧ (i = .sigkill → due = true) ∧
      (i = .spawn → a.stopDeadline = none) ∧
      match i with
      | .stopSignal => Timely (a.exec i) true due is
      | .spawn => Timely (a.exec i) false false is
      | _ => Timely (a.exec i) signalled due is

namespace Actor

variable {a : Actor}

/-- `handle_start` is timely where the kill timer is not armed. -/
theorem timely_handleStart (h : a.stopDeadline = none ∨ a.state = .stopping) (ok : Bool) :
    Timely a false false (a.handleStart ok) := by
  unfold handleStart doStart
  split_ifs with hr hs hok
  · simp [Timely]
  · simp [Timely]
  · simp [Timely, exec, h.resolve_right hs]
  · simp [Timely]

/-- `handle_stop` is timely: it sends the stop signal before it sets the timer. -/
theorem timely_handleStop : Timely a false false a.handleStop := by
  unfold handleStop
  cases a.state <;> simp [Timely]

/-- `handle_restart` is timely where the kill timer is not armed, or armed in `Stopping`. -/
theorem timely_handleRestart (h : a.stopDeadline = none ∨ a.state = .stopping) (ok : Bool) :
    Timely a false false (a.handleRestart ok) := by
  unfold handleRestart
  split_ifs
  · simp [Timely]
  · exact timely_handleStart h ok

/-- `handle_child_exit` is timely: it disarms the timer before it starts a process. -/
theorem timely_handleChildExit (success ok : Bool) :
    Timely a false false (a.handleChildExit success ok) := by
  unfold handleChildExit applyExitPolicy doStart
  repeat' split
  all_goals simp [Timely, exec]

/-- `handle_kill_deadline` is timely when the kill delay is over. -/
theorem timely_handleKillDeadline : Timely a false true a.handleKillDeadline := by
  unfold handleKillDeadline
  split_ifs <;> simp [Timely]

/-- `handle_backoff_expired` is timely where the kill timer is not armed. -/
theorem timely_handleBackoffExpired (h : a.stopDeadline = none) (ok : Bool) :
    Timely a false false (a.handleBackoffExpired ok) := by
  unfold handleBackoffExpired doStart
  split_ifs <;> simp [Timely, exec, h]

/-- `cleanup` is timely without a process. -/
theorem timely_cleanup (h : a.child = none) : Timely a false false a.cleanup := by
  simp [cleanup, h, Timely]

/-- Only `send_sigkill` sends `SIGKILL`, and to the held process. -/
theorem effect_eq_killed {i : Instr} {p : ℕ} (h : a.effect i = some (.killed p)) :
    i = .sigkill ∧ a.child = some p := by
  cases i with
  | sigkill =>
    obtain ⟨q, hq, heq⟩ := Option.map_eq_some_iff.mp h
    cases heq
    exact ⟨rfl, hq⟩
  | collect | wait | stopSignal | signal =>
    obtain ⟨q, -, heq⟩ := Option.map_eq_some_iff.mp h
    cases heq
  | _ => cases h

/-! ## The settled actor -/

/-- Where the kill timer is armed in `Stopping` only, `handle_start` leaves it so. -/
theorem stopDeadline_handleStart (h : a.stopDeadline.isSome → a.state = .stopping) (ok : Bool) :
    (a.execAll (a.handleStart ok)).stopDeadline.isSome →
      (a.execAll (a.handleStart ok)).state = .stopping := by
  rw [execAll_handleStart]
  split_ifs with hr hok
  · exact h
  · exact fun h' => by cases h'
  · exact fun h' => (hr (.inr (h h'))).elim

/-- Where the kill timer is armed in `Stopping` only, an input leaves it so. -/
theorem stopDeadline_script (h : a.stopDeadline.isSome → a.state = .stopping) {inp : Input}
    (hs : ∀ ok, inp ≠ .cmd .shutdown ok) :
    (a.execAll (a.script inp)).stopDeadline.isSome →
      (a.execAll (a.script inp)).state = .stopping := by
  cases inp with
  | cmd c ok =>
    cases c with
    | start => exact stopDeadline_handleStart h ok
    | stop =>
      simp only [script, execAll_handleStop]
      cases hst : a.state with
      | inactive | error => simpa [hst] using h
      | stopping => simp [hst]
      | backoff => exact fun h' => by rw [hst] at h; cases h h'
      | starting | active => exact fun _ => rfl
    | restart =>
      simp only [script, execAll_handleRestart]
      split_ifs
      · exact fun _ => rfl
      · exact stopDeadline_handleStart h ok
    | status => exact h
    | forwardSignal sig => exact h
    | shutdown => exact (hs ok rfl).elim
  | childExit success ok =>
    simp only [script, execAll_handleChildExit, execAll_applyExitPolicy]
    split_ifs <;> exact fun h' => by cases h'
  | killDeadline =>
    simp only [script, execAll_handleKillDeadline]
    exact fun h' => by cases h'
  | backoffExpired ok =>
    simp only [script, execAll_handleBackoffExpired]
    split_ifs <;> exact fun h' => by cases h'

end Actor

/-! ## Runs -/

/-- No start and no restart is taken in `Backoff`, and the shutdown only without a process. -/
def Loop.Spares (s : Loop) : Loop.Label → Prop
  | .input inp => (inp.isStart = true → s.task.actor.state ≠ .backoff) ∧
    ∀ ok, inp = .cmd .shutdown ok → s.task.actor.child = none
  | _ => True

/-- Such a step takes no start in `Backoff`. -/
theorem Loop.Spares.noStart {s : Loop} {l : Loop.Label} (h : s.Spares l) :
    s.NoStartInBackoff l := by
  cases l with
  | input inp => exact h.1
  | _ => trivial

/-- What holds of a task at the time: whom the kill timer is set for was sent the stop signal, and
so was whom `SIGKILL` was sent to, the kill delay before. -/
structure Task.Timed (now : ℕ) (t : Task) : Prop where
  armed : t.actor.stopDeadline.isSome → ∀ p ∈ t.actor.child,
    Warned t.log t.actor.killDelay p t.stopAt
  kills : ∀ time p, (time, .killed p) ∈ t.log → Warned t.log t.actor.killDelay p time
  turn : ∃ signalled due, Timely t.actor signalled due t.todo ∧
    (signalled = true → ∀ p ∈ t.actor.child, Warned t.log 0 p now) ∧
    (due = true → ∀ p ∈ t.actor.child, Warned t.log t.actor.killDelay p now)
  settled : t.leaving = false → t.settled.stopDeadline.isSome → t.settled.state = .stopping

namespace Task.Timed

variable {now : ℕ} {t t' : Task}

/-- The kill timer stays in order as time passes. -/
theorem tick (H : t.Timed now) (d : ℕ) : t.Timed (now + d) where
  armed := H.armed
  kills := H.kills
  turn :=
    let ⟨signalled, due, ht, hs, hd⟩ := H.turn
    ⟨signalled, due, ht, fun h p hp => (hs h p hp).mono (fun _ => id) (Nat.le_add_right _ _),
      fun h p hp => (hd h p hp).mono (fun _ => id) (Nat.le_add_right _ _)⟩
  settled := H.settled

/-- The kill timer stays in order in an action. -/
theorem act (H : t.Timed now) (h : t.act now = some t') : t'.Timed now := by
  have hset : t'.leaving = false → t'.settled.stopDeadline.isSome →
      t'.settled.state = .stopping := by
    rw [leaving_act h, settled_act h]
    exact H.settled
  obtain ⟨-, i, rest, ht, -, rfl⟩ := act_eq_some_iff.mp h
  obtain ⟨signalled, due, htimely, hs, hd⟩ := H.turn
  rw [ht] at htimely
  obtain ⟨harm, hkill, hspawn, htimely⟩ := htimely
  have hlog : ∀ x ∈ t.log, x ∈ (t.perform now i rest).log := fun x hx => List.mem_append_right _ hx
  refine ⟨?_, fun time p hm => ?_, ?_, hset⟩
  · cases i with
    | armStop => exact fun _ p hp => (hs (harm rfl) p hp).add _
    | disarmStop => exact fun h => by cases h
    | spawn =>
      intro h
      have hnone : (t.perform now .spawn rest).actor.stopDeadline = none := hspawn rfl
      rw [hnone] at h
      cases h
    | collect | wait => exact fun _ p hp => by cases hp
    | _ => exact fun h p hp => (H.armed h p hp).mono hlog le_rfl
  · have hdelay : (t.perform now i rest).actor.killDelay = t.actor.killDelay := by
      simp only [perform, Actor.killDelay, Actor.config_exec]
    rw [hdelay]
    rcases List.mem_append.mp hm with hm | hm
    · -- Only `send_sigkill` has the effect, when the kill delay is over.
      obtain ⟨e, he, hpair⟩ := List.mem_map.mp hm
      obtain ⟨rfl, rfl⟩ := Prod.mk.inj hpair
      obtain ⟨rfl, hp⟩ := Actor.effect_eq_killed (Option.mem_toList.mp he)
      exact (hd (hkill rfl) p hp).mono hlog le_rfl
    · exact (H.kills time p hm).mono hlog le_rfl
  · cases i with
    | stopSignal =>
      refine ⟨true, due, htimely, fun _ p hp => ⟨now, t.actor.stopSignal, ?_, le_rfl⟩,
        fun h p hp => (hd h p hp).mono hlog le_rfl⟩
      refine List.mem_append_left _ (List.mem_map.mpr ⟨_, ?_, rfl⟩)
      have hp : t.actor.child = some p := hp
      simp [Actor.effect, hp]
    | spawn => exact ⟨false, false, htimely, by simp, by simp⟩
    | collect | wait =>
      exact ⟨signalled, due, htimely, fun _ p hp => (by cases hp), fun _ p hp => (by cases hp)⟩
    | sleep d =>
      exact ⟨signalled, due, ⟨by simp, by simp, by simp, htimely⟩,
        fun h p hp => (hs h p hp).mono hlog le_rfl,
        fun h p hp => (hd h p hp).mono hlog le_rfl⟩
    | _ =>
      exact ⟨signalled, due, htimely, fun h p hp => (hs h p hp).mono hlog le_rfl,
        fun h p hp => (hd h p hp).mono hlog le_rfl⟩

/-- The kill timer stays in order in a delivery. -/
theorem deliver (H : t.Timed now) (h : t.deliver = some t') : t'.Timed now := by
  have hset : t'.leaving = false → t'.settled.stopDeadline.isSome →
      t'.settled.state = .stopping := by
    rw [leaving_deliver h, settled_deliver h]
    exact H.settled
  obtain ⟨k, -, rfl⟩ := deliver_eq_some_iff.mp h
  exact ⟨H.armed, H.kills, H.turn, hset⟩

/-- The kill timer stays in order when an input is taken that spares the process. -/
theorem take (H : t.Timed now) (S : t.Invariant) {inp : Input}
    (hG : (⟨now, t⟩ : Loop).Spares (.input inp)) (h : t.take now inp = some t') : t'.Timed now := by
  have hset := settled_take h
  have hleave := leaving_take h
  obtain ⟨hi, hr, rfl⟩ := take_eq_some_iff.mp h
  have S := S.sound (leaving_of_idle hi)
  have hA := H.settled (leaving_of_idle hi)
  rw [settled_of_idle hi] at S hA
  -- Outside of `Stopping`, the kill timer is not armed.
  have hnone : t.actor.state ≠ .stopping → t.actor.stopDeadline = none := fun hne => by
    simpa using mt hA hne
  have hor : t.actor.stopDeadline = none ∨ t.actor.state = .stopping :=
    or_iff_not_imp_right.mpr hnone
  refine ⟨H.armed, H.kills, ?_, fun hl => ?_⟩
  · have plain : Timely t.actor false false (t.actor.script inp) →
        ∃ signalled due, Timely t.actor signalled due (t.actor.script inp) ∧
          (signalled = true → ∀ p ∈ t.actor.child, Warned t.log 0 p now) ∧
          (due = true → ∀ p ∈ t.actor.child, Warned t.log t.actor.killDelay p now) := fun h =>
      ⟨false, false, h, by simp, by simp⟩
    cases inp with
    | cmd c ok =>
      cases c with
      | start => exact plain (Actor.timely_handleStart hor ok)
      | stop => exact plain Actor.timely_handleStop
      | restart => exact plain (Actor.timely_handleRestart hor ok)
      | status => exact plain trivial
      | forwardSignal sig => exact plain ⟨by simp, by simp, by simp, trivial⟩
      | shutdown => exact plain (Actor.timely_cleanup (hG.2 ok rfl))
    | childExit success ok => exact plain (Actor.timely_handleChildExit success ok)
    | killDeadline =>
      simp only [ready, Bool.and_eq_true, decide_eq_true_eq] at hr
      exact ⟨false, true, Actor.timely_handleKillDeadline, by simp,
        fun _ p hp => (H.armed hr.1 p hp).mono (fun _ => id) hr.2⟩
    | backoffExpired ok =>
      simp only [ready, Bool.and_eq_true, decide_eq_true_eq] at hr
      have hb := S.backoff.mp hr.1
      exact plain (Actor.timely_handleBackoffExpired (hnone (by rw [hb]; simp)) ok)
  · rw [hset, settled_of_idle hi]
    refine Actor.stopDeadline_script hA ?_
    rintro ok rfl
    rw [hleave, settled_of_idle hi] at hl
    exact absurd t.actor.finish_mem_cleanup (by rw [← Actor.script, hl]; simp)

/-- The kill timer of a new actor is in order, since it is not armed. -/
theorem new (name : String) (config : ServiceConfig) : (Task.new name config).Timed now where
  armed h := by cases h
  kills _ _ h := absurd h List.not_mem_nil
  turn := ⟨false, false, trivial, nofun, nofun⟩
  settled _ h := by cases h

end Task.Timed

/-- An actor that is never asked to start in `Backoff`, and to shut down only when it has no
process, sends no `SIGKILL` before the kill delay after the stop signal is over. -/
theorem Loop.warned_of_reaches {name : String} {config : ServiceConfig} {now : ℕ} {s : Loop}
    (h : Runs.Reaches step Spares (init name config now) s) {time p : ℕ}
    (hk : (time, .killed p) ∈ s.task.log) : Warned s.task.log s.task.actor.killDelay p time := by
  have H := h.invariant (P := fun s => s.task.Timed s.now) (.new name config) ?_
  · exact H.kills time p hk
  intro s l s' hr H hG hl
  rcases step_cases hl with ⟨d, rfl, rfl⟩ | ⟨t, rfl, ht, rfl⟩ | ⟨t, rfl, ht, rfl⟩ |
    ⟨inp, t, rfl, ht, rfl⟩
  · exact H.tick d
  · exact H.act ht
  · exact H.deliver ht
  · exact H.take (invariant_of_reaches (hr.mono fun _ _ => Spares.noStart)) hG ht

end Vigil
