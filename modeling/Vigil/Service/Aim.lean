import Vigil.Service.Kill

/-!
# Whom the kill timer hits

The kill timer is a variable of the loop and knows no process. Every path that gives the actor
another process also disarms it, though not always first: `handle_start` and
`handle_backoff_expired` spawn and then disarm. So the timer may point at the wrong process within a
turn, and `Aimed` reads off a script that it does so neither at the end of the turn nor where
`SIGKILL` is sent or the timer is set.

Nothing is assumed of the runs but that no shutdown is handled: `cleanup` sends `SIGKILL` after half
a second, whatever the kill delay is. In particular a start in `Backoff` does no harm here.
-/

namespace Vigil

open Actor (Effect Input)

/-- `send_stop_signal` reached a process. -/
def Actor.Effect.IsStopSignal : Effect → Prop
  | .stopSignalled _ _ => True
  | _ => False

/-- `SIGKILL` was sent to the process. -/
def Actor.Effect.isKill (p : ℕ) : Effect → Bool
  | .killed q => q == p
  | _ => false

/-- The last stop signal in the log, the newest effect first, was sent at `t₁` to `p`. -/
def LastStop (log : List (ℕ × Effect)) (p t₁ : ℕ) : Prop :=
  ∃ newer sig older, log = newer ++ (t₁, .stopSignalled p sig) :: older ∧
    ∀ e ∈ newer, ¬ e.2.IsStopSignal

/-- Another effect than a stop signal leaves the last one. -/
theorem LastStop.cons {log : List (ℕ × Effect)} {p t₁ : ℕ} (h : LastStop log p t₁)
    {e : ℕ × Effect} (he : ¬ e.2.IsStopSignal) : LastStop (e :: log) p t₁ := by
  obtain ⟨newer, sig, older, rfl, hnewer⟩ := h
  refine ⟨e :: newer, sig, older, rfl, fun x hx => ?_⟩
  rcases List.mem_cons.mp hx with rfl | hx
  · exact he
  · exact hnewer x hx

/-- A stop signal is the last one when it is sent. -/
theorem lastStop_cons (log : List (ℕ × Effect)) (p t₁ : ℕ) (sig : Signal) :
    LastStop ((t₁, .stopSignalled p sig) :: log) p t₁ :=
  ⟨[], sig, log, rfl, fun _ h => absurd h List.not_mem_nil⟩

/-- The last stop signal was sent to `p` at least `delay` before the time. -/
def Due (log : List (ℕ × Effect)) (delay p time : ℕ) : Prop :=
  ∃ t₁, LastStop log p t₁ ∧ t₁ + delay ≤ time

/-! ## Scripts -/

/-- Where the kill timer stands within a turn. -/
inductive Timer
  /-- It is not armed. -/
  | off
  /-- It is set for the held process, if there is one. -/
  | aimed
  /-- It may be set for another process, or too early. -/
  | loose
  deriving DecidableEq

/-- The kill timer when the held process changes or is sent another stop signal. -/
def Timer.loosen : Timer → Timer
  | off => off
  | _ => loose

/-- The actions set the kill timer only after a stop signal to the held process (`signalled`), send
`SIGKILL` only when it is due (`due`), and leave no loose timer at the end. -/
def Aimed : (timer : Timer) → (signalled due : Bool) → List Instr → Prop
  | timer, _, _, [] => timer ≠ .loose
  | timer, _, _, .stopSignal :: is => Aimed timer.loosen true false is
  | _, signalled, due, .armStop :: is => signalled = true ∧ Aimed .aimed signalled due is
  | _, signalled, due, .disarmStop :: is => Aimed .off signalled due is
  | timer, signalled, due, .sigkill :: is => due = true ∧ Aimed timer signalled due is
  | timer, _, _, .spawn :: is => Aimed timer.loosen false false is
  | timer, signalled, due, _ :: is => Aimed timer signalled due is

namespace Actor

variable (a : Actor) {timer : Timer}

/-- `handle_start` disarms the timer after it has spawned. -/
theorem aimed_handleStart (ht : timer ≠ .loose) (ok : Bool) :
    Aimed timer false false (a.handleStart ok) := by
  unfold handleStart doStart
  split_ifs <;> simp [Aimed, ht]

/-- `handle_stop` sends the stop signal before it sets the timer. -/
theorem aimed_handleStop (ht : timer ≠ .loose) : Aimed timer false false a.handleStop := by
  unfold handleStop
  cases a.state <;> simp [Aimed, ht]

/-- `handle_restart` sets the timer anew with every stop signal. -/
theorem aimed_handleRestart (ht : timer ≠ .loose) (ok : Bool) :
    Aimed timer false false (a.handleRestart ok) := by
  unfold handleRestart
  split_ifs
  · simp [Aimed]
  · exact a.aimed_handleStart ht ok

/-- `handle_child_exit` disarms the timer before it spawns. -/
theorem aimed_handleChildExit (success ok : Bool) :
    Aimed timer false false (a.handleChildExit success ok) := by
  unfold handleChildExit applyExitPolicy doStart
  repeat' split
  all_goals simp [Aimed, Timer.loosen]

/-- `handle_kill_deadline` sends `SIGKILL` when it is due, and the timer is spent. -/
theorem aimed_handleKillDeadline : Aimed timer false true a.handleKillDeadline := by
  unfold handleKillDeadline
  split_ifs <;> simp [Aimed]

/-- `handle_backoff_expired` disarms the timer after it has spawned. -/
theorem aimed_handleBackoffExpired (ok : Bool) :
    Aimed timer false false (a.handleBackoffExpired ok) := by
  unfold handleBackoffExpired doStart
  split_ifs <;> simp [Aimed]

end Actor

/-! ## Runs -/

/-- The kill timer of a task is set for whom the last stop signal was sent to. -/
def Task.TimerAimed (t : Task) : Prop :=
  t.actor.stopDeadline.isSome → ∀ p ∈ t.actor.child, Due t.log t.actor.killDelay p t.stopAt

/-- What the position of the timer says of a task. -/
def Timer.Holds (t : Task) : Timer → Prop
  | off => t.actor.stopDeadline = none
  | aimed => t.TimerAimed
  | loose => True

/-- What holds of a task at the time `now`, as long as no shutdown is handled. -/
structure Task.OnTarget (now : ℕ) (t : Task) : Prop where
  /-- Every `SIGKILL` was due. -/
  kills : ∀ newer time p older, t.log = newer ++ (time, .killed p) :: older →
    Due older t.actor.killDelay p time
  /-- The rest of the turn is aimed. -/
  turn : ∃ timer signalled due, Aimed timer signalled due t.todo ∧ timer.Holds t ∧
    (signalled = true → ∀ p ∈ t.actor.child, Due t.log 0 p now) ∧
    (due = true → ∀ p ∈ t.actor.child, Due t.log t.actor.killDelay p now)

/-- What is due stays due as time passes. -/
theorem Due.mono {log : List (ℕ × Effect)} {delay p time time' : ℕ} (h : Due log delay p time)
    (ht : time ≤ time') : Due log delay p time' :=
  let ⟨t₁, hl, hle⟩ := h
  ⟨t₁, hl, hle.trans ht⟩

/-- The delay is over when it has passed since the stop signal. -/
theorem Due.add {log : List (ℕ × Effect)} {p time : ℕ} (h : Due log 0 p time) (delay : ℕ) :
    Due log delay p (time + delay) :=
  let ⟨t₁, hl, hle⟩ := h
  ⟨t₁, hl, Nat.add_le_add_right hle delay⟩

namespace Task

variable {t t' : Task} {now : ℕ}

/-- An action adds its effect to the log, with the time. -/
theorem log_perform (t : Task) (now : ℕ) (i : Instr) (rest : List Instr) :
    (t.perform now i rest).log = (t.actor.effect i).toList.map (now, ·) ++ t.log := rfl

/-- No action changes the kill delay. -/
theorem killDelay_perform (t : Task) (now : ℕ) (i : Instr) (rest : List Instr) :
    (t.perform now i rest).actor.killDelay = t.actor.killDelay := by
  simp only [perform, Actor.killDelay, Actor.config_exec]

/-- An action that sends no stop signal leaves what is due. -/
theorem due_perform {i : Instr} (hi : i ≠ .stopSignal) (rest : List Instr) {delay p time : ℕ}
    (h : Due t.log delay p time) : Due (t.perform now i rest).log delay p time := by
  obtain ⟨t₁, hl, hle⟩ := h
  -- No other action has the effect.
  have hnot : ∀ e ∈ t.actor.effect i, ¬ e.IsStopSignal := by
    intro e he
    cases i with
    | stopSignal => exact absurd rfl hi
    | collect | wait | sigkill | signal =>
      obtain ⟨q, -, rfl⟩ := Option.map_eq_some_iff.mp he
      exact id
    | transition | enter | spawn | reply =>
      cases he
      exact id
    | _ => cases he
  refine ⟨t₁, ?_, hle⟩
  rw [log_perform]
  cases he : t.actor.effect i with
  | none => exact hl
  | some e => exact hl.cons (hnot e he)

/-- An action that does not send `SIGKILL` too early leaves every `SIGKILL` due. -/
theorem kills_perform {i : Instr} (rest : List Instr)
    (H : ∀ newer time p older, t.log = newer ++ (time, .killed p) :: older →
      Due older t.actor.killDelay p time)
    (hi : i = .sigkill → ∀ p ∈ t.actor.child, Due t.log t.actor.killDelay p now) :
    ∀ newer time p older, (t.perform now i rest).log = newer ++ (time, .killed p) :: older →
      Due older (t.perform now i rest).actor.killDelay p time := by
  rw [killDelay_perform]
  intro newer time p older hlog
  rw [log_perform] at hlog
  cases he : t.actor.effect i with
  | none =>
    rw [he] at hlog
    exact H newer time p older hlog
  | some e =>
    rw [he] at hlog
    match newer, hlog with
    | [], hlog =>
      -- The action is the `SIGKILL`.
      obtain ⟨hhead, rfl⟩ := List.cons.inj hlog
      obtain ⟨rfl, rfl⟩ := Prod.mk.inj hhead
      obtain ⟨rfl, hp⟩ := Actor.effect_eq_killed he
      exact hi rfl p hp
    | x :: newer, hlog => exact H newer time p older (List.cons.inj hlog).2

/-- An action that leaves the timer and the held process leaves where the timer stands. -/
theorem holds_perform {i : Instr} (hi : i ≠ .stopSignal) (rest : List Instr) {timer : Timer}
    (hc : ∀ p ∈ (t.perform now i rest).actor.child, p ∈ t.actor.child)
    (hs : (t.perform now i rest).actor.stopDeadline = t.actor.stopDeadline)
    (hat : (t.perform now i rest).stopAt = t.stopAt) (h : timer.Holds t) :
    timer.Holds (t.perform now i rest) := by
  cases timer with
  | off => exact hs.trans h
  | loose => trivial
  | aimed =>
    intro harmed p hp
    rw [hs] at harmed
    rw [hat, killDelay_perform]
    exact due_perform hi rest (h harmed p (hc p hp))

/-- A loosened timer stands where it is said to stand. -/
theorem holds_loosen {i : Instr} (rest : List Instr) {timer : Timer}
    (hs : (t.perform now i rest).actor.stopDeadline = t.actor.stopDeadline)
    (h : timer.Holds t) : timer.loosen.Holds (t.perform now i rest) := by
  cases timer with
  | off => exact hs.trans h
  | aimed | loose => trivial

namespace OnTarget

/-- A task on target stays so as time passes. -/
theorem tick (H : t.OnTarget now) (d : ℕ) : t.OnTarget (now + d) where
  kills := H.kills
  turn := by
    obtain ⟨timer, signalled, due, haim, hholds, hs, hd⟩ := H.turn
    exact ⟨timer, signalled, due, haim, hholds, fun h p hp => (hs h p hp).mono (by omega),
      fun h p hp => (hd h p hp).mono (by omega)⟩

/-- A task on target stays so in an action. -/
theorem act (H : t.OnTarget now) (h : t.act now = some t') : t'.OnTarget now := by
  obtain ⟨-, i, rest, ht, -, rfl⟩ := act_eq_some_iff.mp h
  obtain ⟨timer, signalled, due, haim, hholds, hs, hd⟩ := H.turn
  rw [ht] at haim
  have hkills (hi : i = .sigkill → ∀ p ∈ t.actor.child, Due t.log t.actor.killDelay p now) :=
    kills_perform rest H.kills hi
  -- The actions that change nothing that the timer depends on.
  have plain : Aimed timer signalled due rest → (t.perform now i rest).todo = rest →
      i ≠ .stopSignal → i ≠ .sigkill → (∀ p ∈ (t.actor.exec i).child, p ∈ t.actor.child) →
      (t.actor.exec i).stopDeadline = t.actor.stopDeadline →
      (t.perform now i rest).stopAt = t.stopAt →
      (t.perform now i rest).OnTarget now := by
    intro haim htodo hstop hkill hc hsd hat
    refine ⟨hkills fun e => absurd e hkill, timer, signalled, due, by rw [htodo]; exact haim,
      holds_perform hstop rest hc hsd hat hholds,
      fun h p hp => due_perform hstop rest (hs h p (hc p hp)), fun h p hp => ?_⟩
    rw [killDelay_perform]
    exact due_perform hstop rest (hd h p (hc p hp))
  cases i with
  | stopSignal =>
    -- An armed timer was set for an earlier stop signal, and is due too early for this one.
    refine ⟨hkills (by simp), timer.loosen, true, false, haim, holds_loosen rest rfl hholds,
      fun _ p hp => ⟨now, ?_, le_rfl⟩, by simp⟩
    have hp : t.actor.child = some p := hp
    have hlog : (t.perform now .stopSignal rest).log =
        (now, .stopSignalled p t.actor.stopSignal) :: t.log := by
      simp [perform, Actor.effect, hp]
    rw [hlog]
    exact lastStop_cons t.log p now _
  | armStop =>
    obtain ⟨hsignalled, haim⟩ := haim
    -- Set now, for the process that has just been sent the stop signal.
    exact ⟨hkills (by simp), .aimed, signalled, due, haim,
      fun _ p hp => (hs hsignalled p hp).add t.actor.killDelay, hs, hd⟩
  | disarmStop => exact ⟨hkills (by simp), .off, signalled, due, haim, rfl, hs, hd⟩
  | sigkill =>
    obtain ⟨hdue, haim⟩ := haim
    have hne : Instr.sigkill ≠ .stopSignal := by simp
    exact ⟨hkills fun _ => hd hdue, timer, signalled, due, haim,
      holds_perform hne rest (fun _ hp => hp) rfl rfl hholds,
      fun h p hp => due_perform hne rest (hs h p hp),
      fun h p hp => due_perform hne rest (hd h p hp)⟩
  | spawn =>
    -- An armed timer was set for the process that was held before.
    exact ⟨hkills (by simp), timer.loosen, false, false, haim, holds_loosen rest rfl hholds,
      by simp, by simp⟩
  | collect | wait =>
    -- No process is held any more, so that the timer is set for nobody.
    exact plain haim rfl (by simp) (by simp) (fun _ hp => by cases hp) rfl rfl
  | sleep d =>
    have hne : Instr.sleep d ≠ .stopSignal := by simp
    exact ⟨hkills (by simp), timer, signalled, due, haim,
      holds_perform hne rest (fun _ hp => hp) rfl rfl hholds, hs, hd⟩
  | _ => exact plain haim rfl (by simp) (by simp) (fun _ hp => hp) rfl rfl

/-- A task on target stays so in a delivery. -/
theorem deliver (H : t.OnTarget now) (h : t.deliver = some t') : t'.OnTarget now := by
  obtain ⟨k, -, rfl⟩ := deliver_eq_some_iff.mp h
  obtain ⟨timer, signalled, due, haim, hholds, hs, hd⟩ := H.turn
  refine ⟨H.kills, timer, signalled, due, haim, ?_, hs, hd⟩
  cases timer <;> exact hholds

/-- At the loop head the kill timer is set for whom the last stop signal was sent to. -/
theorem timerAimed (H : t.OnTarget now) (hi : t.idle = true) : t.TimerAimed := by
  obtain ⟨timer, signalled, due, haim, hholds, -⟩ := H.turn
  simp only [idle, Bool.and_eq_true, List.isEmpty_iff] at hi
  -- The turn is over, and leaves no loose timer.
  rw [hi.1.1] at haim
  cases timer with
  | off =>
    intro harmed
    rw [show t.actor.stopDeadline = none from hholds] at harmed
    cases harmed
  | aimed => exact hholds
  | loose => exact absurd rfl haim

/-- A task on target stays so when it takes an input other than the shutdown. -/
theorem take (H : t.OnTarget now) {inp : Input} (hG : ∀ ok, inp ≠ .cmd .shutdown ok)
    (h : t.take now inp = some t') : t'.OnTarget now := by
  obtain ⟨hi, hr, rfl⟩ := take_eq_some_iff.mp h
  have htimer := H.timerAimed hi
  have hne : Timer.aimed ≠ .loose := by simp
  refine ⟨H.kills, .aimed, false, inp matches .killDeadline, ?_, htimer, by simp, ?_⟩
  · cases inp with
    | cmd c ok =>
      cases c with
      | start => exact t.actor.aimed_handleStart hne ok
      | stop => exact t.actor.aimed_handleStop hne
      | restart => exact t.actor.aimed_handleRestart hne ok
      | status => exact hne
      | forwardSignal sig => exact hne
      | shutdown => exact absurd rfl (hG ok)
    | childExit success ok => exact t.actor.aimed_handleChildExit success ok
    | killDeadline => exact t.actor.aimed_handleKillDeadline
    | backoffExpired ok => exact t.actor.aimed_handleBackoffExpired ok
  · intro hkill p hp
    cases inp with
    | killDeadline =>
      -- The timer has elapsed.
      simp only [ready, Bool.and_eq_true, decide_eq_true_eq] at hr
      exact (htimer hr.1 p hp).mono hr.2
    | _ => cases hkill

/-- A new actor has sent no signal, and its timer is not armed. -/
theorem new (name : String) (config : ServiceConfig) : (Task.new name config).OnTarget now where
  kills newer time p older h := by
    have hlen := congrArg List.length h
    simp [Task.new] at hlen
  turn := ⟨.off, false, false, by simp [Task.new, Aimed], rfl, by simp, by simp⟩

end OnTarget

end Task

namespace Loop

open Runs

/-- The step handles no shutdown. -/
def NoShutdown (_ : Loop) (l : Label) : Prop := ∀ ok, l ≠ .input (.cmd .shutdown ok)

/-- In a run without a shutdown every step keeps the timer on target. -/
theorem onTarget_of_reaches {name : String} {config : ServiceConfig} {now : ℕ} {s : Loop}
    (h : Reaches step NoShutdown (init name config now) s) : s.task.OnTarget s.now := by
  refine h.invariant (P := fun s => s.task.OnTarget s.now) (.new name config) ?_
  intro s l s' _ H hG hl
  rcases step_cases hl with ⟨d, rfl, rfl⟩ | ⟨t, rfl, ht, rfl⟩ | ⟨t, rfl, ht, rfl⟩ |
    ⟨inp, t, rfl, ht, rfl⟩
  · exact H.tick d
  · exact H.act ht
  · exact H.deliver ht
  · exact H.take (fun ok e => hG ok (by rw [e])) ht

/-- In every run that handles no shutdown: when `SIGKILL` is sent to a process, the last stop signal
was sent to that process, at least its kill delay before. And whenever the actor is at its loop
head with the kill timer armed, the timer is set for the process that it holds: that process was
sent the last stop signal, and the timer elapses no sooner than its kill delay after it. -/
theorem kill_on_target {name : String} {config : ServiceConfig} {now : ℕ} {s : Loop}
    (h : Reaches step NoShutdown (init name config now) s) :
    (∀ newer time p older, s.task.log = newer ++ (time, .killed p) :: older →
      ∃ t₁, LastStop older p t₁ ∧ t₁ + s.task.actor.killDelay ≤ time) ∧
    (s.task.idle = true → s.task.actor.stopDeadline.isSome → ∀ p ∈ s.task.actor.child,
      ∃ t₁, LastStop s.task.log p t₁ ∧ t₁ + s.task.actor.killDelay ≤ s.task.stopAt) :=
  ⟨(onTarget_of_reaches h).kills, fun hi => (onTarget_of_reaches h).timerAimed hi⟩

instance (s : Loop) (l : Label) : Decidable (NoShutdown s l) :=
  decidable_of_iff ((l matches .input (.cmd .shutdown _)) = false) <| by
    unfold NoShutdown
    constructor
    · rintro h ok rfl
      cases h
    · intro h
      split
      · next ok => exact absurd rfl (h ok)
      · rfl

/-- A stop of a process that does not exit, with the default kill delay: it is killed after it. -/
theorem kill_on_target_of_stop :
    ∃ s older, Reaches step NoShutdown (init "web" { command := some "/bin/web" } 0) s ∧
      s.task.log = (5000, .killed 0) :: older ∧ ∃ t₁, LastStop older 0 t₁ ∧ t₁ + 5000 ≤ 5000 := by
  have h : (runIf step NoShutdown (init "web" { command := some "/bin/web" } 0)
      [.input (.cmd .start true), .act, .deliver, .act, .act, .act, .deliver, .act, .act, .act,
        .input (.cmd .stop true), .act, .act, .deliver, .act, .act, .tick 5000,
        .input .killDeadline, .act]).any
      (fun s : Loop => s.task.actor.killDelay == 5000 &&
        s.task.log.head?.any fun e => e.1 == 5000 && e.2.isKill 0) = true := by
    decide +kernel
  obtain ⟨s, hr, h⟩ := Reaches.exists_of_runIf _ h
  rw [Bool.and_eq_true, beq_iff_eq, Option.any_eq_true] at h
  obtain ⟨hdelay, ⟨time, e⟩, hhead, he⟩ := h
  rw [Bool.and_eq_true, beq_iff_eq] at he
  obtain ⟨htime, he⟩ := he
  obtain rfl : e = .killed 0 := by cases e <;> simp_all [Actor.Effect.isKill]
  obtain rfl : time = 5000 := htime
  obtain ⟨older, hlog⟩ := List.head?_eq_some_iff.mp hhead
  obtain ⟨t₁, hlast, hle⟩ := (kill_on_target hr).1 [] 5000 0 older hlog
  exact ⟨s, older, hr, hlog, t₁, hlast, hdelay ▸ hle⟩

end Loop

end Vigil
