import Mathlib.Algebra.Order.Floor.Ring
import Vigil.Duration.Grammar
import Vigil.Service.Turn

/-!
# The backoff schedule

The delays of consecutive automatic restarts. The actor keeps one delay, which `next_backoff`
multiplies by the factor, truncates to milliseconds, and cuts off at the limit, and a count of
restarts, and `backoff_limit_exceeded` reads both. `truncatedPow` is the delay without the limit, in
closed form but for the truncation, and `Paced` relates the two: cutting off at every step is
cutting off at the end.

How many restarts have been scheduled is not the actor's own count, which wraps, but is read off
the inputs of the run (`Counted`): an operator start sets it to zero, and an exit that leads to
`Backoff` adds one. The restarts that there have been are counted too, at the expiry of the timer.
They are not always those that have been scheduled, since the timer of a service that is started in
`Backoff` still expires.
-/

namespace Vigil

open Actor (Input)

/-! ## Truncated powers -/

/-- `d * f ^ n` in milliseconds, truncated after every multiplication. -/
def truncatedPow (d : ℕ) (f : ℚ) : ℕ → ℕ
  | 0 => d
  | n + 1 => ⌊(truncatedPow d f n : ℚ) * f⌋.toNat

/-- Multiplying and truncating is monotone. -/
theorem floor_mul_mono {x y : ℕ} (h : x ≤ y) {f : ℚ} (hf : 0 ≤ f) :
    ⌊(x : ℚ) * f⌋.toNat ≤ ⌊(y : ℚ) * f⌋.toNat :=
  Int.toNat_le_toNat (Int.floor_mono (mul_le_mul_of_nonneg_right (by exact_mod_cast h) hf))

/-- A factor of at least one makes no delay shorter, truncated or not. -/
theorem le_floor_mul (x : ℕ) {f : ℚ} (hf : 1 ≤ f) : x ≤ ⌊(x : ℚ) * f⌋.toNat := by
  have hle : (x : ℤ) ≤ ⌊(x : ℚ) * f⌋ :=
    Int.le_floor.mpr (by exact_mod_cast le_mul_of_one_le_right (Nat.cast_nonneg x) hf)
  omega

/-- Cutting off before the multiplication makes no difference to cutting off after it. -/
theorem min_floor_mul_min (x l : ℕ) {f : ℚ} (hf : 1 ≤ f) :
    min ⌊((min x l : ℕ) : ℚ) * f⌋.toNat l = min ⌊(x : ℚ) * f⌋.toNat l := by
  rcases le_total x l with h | h
  · rw [Nat.min_eq_left h]
  · have hl := le_floor_mul l hf
    have hx : ⌊(l : ℚ) * f⌋.toNat ≤ ⌊(x : ℚ) * f⌋.toNat := floor_mul_mono h (by linarith)
    rw [Nat.min_eq_right h]
    omega

/-- A whole factor leaves nothing to truncate. -/
theorem truncatedPow_natCast (d k : ℕ) : ∀ n, truncatedPow d k n = d * k ^ n
  | 0 => by simp [truncatedPow]
  | n + 1 => by
    rw [truncatedPow, truncatedPow_natCast d k n]
    have hcast : ((d * k ^ n : ℕ) : ℚ) * k = ((d * k ^ (n + 1) : ℕ) : ℚ) := by
      push_cast
      ring
    rw [hcast, Int.floor_natCast, Int.toNat_natCast]

/-- Truncating never makes the delay longer. -/
theorem truncatedPow_le (d : ℕ) {f : ℚ} (hf : 0 ≤ f) :
    ∀ n, (truncatedPow d f n : ℚ) ≤ d * f ^ n
  | 0 => by simp [truncatedPow]
  | n + 1 => by
    have ih := truncatedPow_le d hf n
    have hnn : (0 : ℚ) ≤ truncatedPow d f n * f := by positivity
    have hfloor : (0 : ℤ) ≤ ⌊(truncatedPow d f n : ℚ) * f⌋ := Int.floor_nonneg.mpr hnn
    calc ((truncatedPow d f (n + 1) : ℕ) : ℚ)
        = ((⌊(truncatedPow d f n : ℚ) * f⌋.toNat : ℤ) : ℚ) := by rw [truncatedPow]; norm_cast
      _ = (⌊(truncatedPow d f n : ℚ) * f⌋ : ℚ) := by rw [Int.toNat_of_nonneg hfloor]
      _ ≤ truncatedPow d f n * f := Int.floor_le _
      _ ≤ d * f ^ n * f := mul_le_mul_of_nonneg_right ih hf
      _ = d * f ^ (n + 1) := by ring

/-! ## Durations in a configuration -/

/-- A duration is a `u64` of milliseconds. -/
theorem parseDuration_le {s : String} {value : ℕ} (h : parseDuration s = .ok value) :
    value ≤ u64Max := by
  obtain ⟨-, hloop⟩ := parseDuration_eq_ok.mp h
  obtain ⟨parts, -, hfits, rfl⟩ := exists_of_durationLoop hloop (Nat.zero_le _)
  exact hfits.2 parts (List.prefix_refl parts)

/-- And so is a configured one, if the default is. -/
theorem durationOr_le (field : Option String) {default : ℕ} (h : default ≤ u64Max) :
    durationOr field default ≤ u64Max := by
  unfold durationOr
  cases field with
  | none => exact h
  | some s =>
    rw [Option.bind_some]
    cases hs : parseDuration s with
    | error e => exact h
    | ok value => exact parseDuration_le hs

namespace ServiceConfig

variable (c : ServiceConfig)

/-- The delay before the first automatic restart. -/
def firstBackoff : ℕ := durationOr c.backoffDelay defaultBackoffDelay

/-- The factor. -/
def factor : ℚ := c.backoffFactor.getD defaultBackoffFactor

/-- The limit. -/
def limit : ℕ := durationOr c.backoffLimit defaultBackoffLimit

/-- The delay after `n` automatic restarts, without the limit. -/
def backoffPow (n : ℕ) : ℕ := truncatedPow c.firstBackoff c.factor n

/-- The delay that the actor keeps after `n` automatic restarts. The first one is not cut off. -/
def keptDelay (n : ℕ) : ℕ := if n = 0 then c.firstBackoff else min (c.backoffPow n) c.limit

/-- The limit is a `u64`. -/
theorem limit_le : c.limit ≤ u64Max := durationOr_le c.backoffLimit (by decide)

end ServiceConfig

/-- `next_backoff` goes on to the next delay. -/
theorem Actor.nextBackoff_eq {a : Actor} (hf : 1 ≤ a.config.factor) {n : ℕ}
    (h : a.currentBackoff = a.config.keptDelay n) :
    a.nextBackoff = a.config.keptDelay (n + 1) := by
  have hlimit := a.config.limit_le
  have hnext : a.nextBackoff =
      min ⌊(a.currentBackoff : ℚ) * a.config.factor⌋.toNat a.config.limit := by
    -- The cast to `u64` saturates, and the limit is below.
    show min (min ⌊(a.currentBackoff : ℚ) * a.config.factor⌋.toNat u64Max) a.config.limit = _
    omega
  have hsucc : a.config.keptDelay (n + 1) =
      min ⌊(a.config.backoffPow n : ℚ) * a.config.factor⌋.toNat a.config.limit := by
    rw [ServiceConfig.keptDelay, if_neg (Nat.succ_ne_zero n)]
    rfl
  rw [hnext, hsucc, h]
  unfold ServiceConfig.keptDelay
  split_ifs with hn
  -- The first delay is not cut off at the limit, and the later ones are.
  · subst hn
    rfl
  · exact min_floor_mul_min _ _ hf

/-! ## Counting the restarts -/

namespace Actor

/-- The input is an operator's start or restart that spawns a process: at once, or, in `Stopping`,
at the exit that a restart waits for. -/
def startedByOperator (a : Actor) : Input → Bool
  | .cmd .start ok | .cmd .restart ok =>
    !a.state.isRunning && a.state ≠ .stopping && a.canSpawn ok
  | .childExit _ ok => a.state = .stopping && a.pendingRestart && a.canSpawn ok
  | _ => false

/-- The input is an exit after which the service waits to be restarted. -/
def schedulesRestart (a : Actor) (inp : Input) : Bool :=
  inp matches .childExit _ _ && (a.execAll (a.script inp)).state = .backoff

/-- The input is the expiry of the backoff timer, and a process is spawned. -/
def restartsNow (a : Actor) : Input → Bool
  | .backoffExpired ok => a.canSpawn ok
  | _ => false

/-- How many automatic restarts there have been since the last operator start, if there has been
one, with this input. -/
def restartedAfter (a : Actor) (inp : Input) (restarted : Option ℕ) : Option ℕ :=
  if a.startedByOperator inp then some 0
  else if a.restartsNow inp then restarted.map (· + 1) else restarted

/-- How many automatic restarts have been scheduled since the last operator start, if there has been
one, with this input. -/
def restartsAfter (a : Actor) (inp : Input) (restarts : Option ℕ) : Option ℕ :=
  if a.startedByOperator inp then some 0
  else if a.schedulesRestart inp then restarts.map (· + 1) else restarts

/-- The actor's count and delay are those of the schedule. -/
def Paced (a : Actor) (restarts : Option ℕ) : Prop :=
  ∀ n, restarts = some n →
    a.backoffCount = n % 2^32 ∧ a.currentBackoff = a.config.keptDelay n

/-- After `reset_backoff` no restart has been counted, and the delay is the first one. -/
theorem paced_backoffReset (a : Actor) : a.backoffReset.Paced (some 0) := by
  intro n hn
  cases hn
  exact ⟨rfl, rfl⟩

/-- Only the count, the delay, and the configuration matter. -/
theorem Paced.congr {a b : Actor} {restarts : Option ℕ} (h : a.Paced restarts)
    (hcount : b.backoffCount = a.backoffCount) (hdelay : b.currentBackoff = a.currentBackoff)
    (hconfig : b.config = a.config) : b.Paced restarts := by
  intro n hn
  rw [hcount, hdelay, hconfig]
  exact h n hn

/-- After `next_backoff` one restart more has been scheduled. -/
theorem Paced.exec_nextBackoff {a : Actor} {restarts : Option ℕ} (h : a.Paced restarts)
    (hf : 1 ≤ a.config.factor) : (a.exec .nextBackoff).Paced (restarts.map (· + 1)) := by
  intro n hn
  obtain ⟨m, hm, rfl⟩ := Option.map_eq_some_iff.mp hn
  obtain ⟨hcount, hdelay⟩ := h m hm
  refine ⟨?_, nextBackoff_eq hf hdelay⟩
  show (a.backoffCount + 1) % 2^32 = (m + 1) % 2^32
  omega

/-- `handle_start` keeps count and delay on the schedule. -/
theorem Paced.handleStart {a : Actor} {restarts : Option ℕ} (h : a.Paced restarts) (ok : Bool) :
    (a.execAll (a.handleStart ok)).Paced
      (if !a.state.isRunning && a.state ≠ .stopping && a.canSpawn ok then some 0
        else restarts) := by
  rw [execAll_handleStart]
  by_cases hr : a.state.isRunning = true ∨ a.state = .stopping
  · rw [if_pos hr, if_neg]
    · exact h
    · rcases hr with hr | hr <;> simp [hr]
  · obtain ⟨hrun, hstop⟩ := not_or.mp hr
    rw [if_neg hr]
    by_cases hok : a.canSpawn ok = true
    · rw [if_pos hok, if_pos (by simp [hrun, hstop, hok])]
      exact (a.started.paced_backoffReset).congr rfl rfl rfl
    · rw [if_neg hok, if_neg (by simp [hok])]
      exact h.congr rfl rfl rfl

/-- An exit leads to `Backoff` where the policy is to restart and the limit is not exceeded. -/
theorem schedulesRestart_childExit (a : Actor) (success ok : Bool) :
    a.schedulesRestart (.childExit success ok) =
      (decide (a.state ≠ .stopping) && a.restartsOn success && !a.backoffLimitExceeded) := by
  have hstate : (a.execAll (a.handleChildExit success ok)).state = .backoff ↔
      a.state ≠ .stopping ∧ a.restartsOn success = true ∧ a.backoffLimitExceeded = false := by
    rw [execAll_handleChildExit, execAll_applyExitPolicy]
    split_ifs <;> simp_all [started, backoffReset]
  rw [Bool.eq_iff_iff]
  show decide ((a.execAll (a.handleChildExit success ok)).state = .backoff) = true ↔ _
  rw [decide_eq_true_iff, hstate]
  simp [and_assoc]

/-- `handle_child_exit` keeps count and delay on the schedule. -/
theorem Paced.handleChildExit {a : Actor} {restarts : Option ℕ} (h : a.Paced restarts)
    (hf : 1 ≤ a.config.factor) (success ok : Bool) :
    (a.execAll (a.handleChildExit success ok)).Paced
      (a.restartsAfter (.childExit success ok) restarts) := by
  rw [execAll_handleChildExit, execAll_applyExitPolicy]
  have hschedules := schedulesRestart_childExit a success ok
  by_cases hs : a.state = .stopping
  · rw [if_pos hs]
    -- In `Stopping` an exit is an operator start if a restart waits for it, and nothing else.
    by_cases hop : a.pendingRestart = true ∧ a.canSpawn ok = true
    · have hafter : a.restartsAfter (.childExit success ok) restarts = some 0 := by
        simp [restartsAfter, startedByOperator, hs, hop]
      rw [hafter, if_pos hop.1, if_pos hop.2]
      exact (a.started.paced_backoffReset).congr rfl rfl rfl
    · have hafter : a.restartsAfter (.childExit success ok) restarts = restarts := by
        simp only [restartsAfter, startedByOperator, hschedules, hs]
        simpa using fun hp hok => absurd ⟨hp, hok⟩ hop
      rw [hafter]
      split_ifs with hp hok
      · exact absurd ⟨hp, hok⟩ hop
      · exact h.congr rfl rfl rfl
      · exact h.congr rfl rfl rfl
  · have hafter : a.restartsAfter (.childExit success ok) restarts =
        if a.restartsOn success && !a.backoffLimitExceeded then restarts.map (· + 1)
        else restarts := by
      simp [restartsAfter, startedByOperator, hschedules, hs]
    -- Elsewhere the policy decides.
    rw [if_neg hs, hafter]
    by_cases hr : a.restartsOn success = true
    · rw [if_pos hr, hr, Bool.true_and]
      by_cases hl : a.backoffLimitExceeded = true
      · rw [if_pos hl, hl]
        exact h.congr rfl rfl rfl
      · rw [if_neg hl, Bool.eq_false_iff.mpr hl]
        exact (h.exec_nextBackoff hf).congr rfl rfl rfl
    · rw [if_neg hr, Bool.eq_false_iff.mpr hr]
      exact h.congr rfl rfl rfl

/-- Every input keeps count and delay on the schedule. -/
theorem Paced.script {a : Actor} {restarts : Option ℕ} (h : a.Paced restarts)
    (hf : 1 ≤ a.config.factor) (inp : Input) :
    (a.execAll (a.script inp)).Paced (a.restartsAfter inp restarts) := by
  cases inp with
  | cmd c ok =>
    cases c with
    | start => exact h.handleStart ok
    | stop =>
      show (a.execAll a.handleStop).Paced restarts
      rw [execAll_handleStop]
      split <;> exact h.congr rfl rfl rfl
    | restart =>
      simp only [Actor.script]
      rw [execAll_handleRestart]
      by_cases hr : a.state.isRunning = true ∨ a.state = .stopping
      · have hnot : a.startedByOperator (.cmd .restart ok) = false := by
          unfold startedByOperator
          rcases hr with hr | hr <;> simp [hr]
        have hafter : a.restartsAfter (.cmd .restart ok) restarts = restarts := by
          rw [restartsAfter, hnot]
          rfl
        rw [if_pos hr, hafter]
        exact h.congr rfl rfl rfl
      · rw [if_neg hr]
        exact h.handleStart ok
    | status => exact h
    | forwardSignal sig => exact h
    | shutdown =>
      simp only [Actor.script]
      rw [execAll_cleanup]
      exact h.congr rfl rfl rfl
  | childExit success ok => exact h.handleChildExit hf success ok
  | killDeadline =>
    simp only [Actor.script]
    rw [execAll_handleKillDeadline]
    exact h.congr rfl rfl rfl
  | backoffExpired ok =>
    simp only [Actor.script]
    rw [execAll_handleBackoffExpired]
    split_ifs <;> exact h.congr rfl rfl rfl

end Actor

/-! ## Runs -/

/-- The loop of an actor, with the automatic restarts since the last operator start. -/
structure Counted where
  loop : Loop
  /-- Those that have been scheduled. -/
  restarts : Option ℕ
  /-- Those that there have been. -/
  restarted : Option ℕ

namespace Counted

open Runs

/-- The restarts that have been scheduled, with a step of the loop. -/
def restartsAfter (s : Counted) : Loop.Label → Option ℕ
  | .input inp => s.loop.task.actor.restartsAfter inp s.restarts
  | _ => s.restarts

/-- The restarts that there have been, with a step of the loop. -/
def restartedAfter (s : Counted) : Loop.Label → Option ℕ
  | .input inp => s.loop.task.actor.restartedAfter inp s.restarted
  | _ => s.restarted

/-- A step of the loop. -/
def step (s : Counted) (l : Loop.Label) : Option Counted :=
  (s.loop.step l).map fun loop => ⟨loop, s.restartsAfter l, s.restartedAfter l⟩

/-- The loop of a new actor, which no operator has started. -/
def init (name : String) (config : ServiceConfig) (now : ℕ) : Counted :=
  ⟨.init name config now, none, none⟩

/-- The configuration never changes. -/
theorem config_of_reaches {name : String} {config : ServiceConfig} {now : ℕ} {s : Counted}
    (h : Reaches step Always (init name config now) s) : s.loop.task.actor.config = config :=
  h.constant (fun s => s.loop.task.actor.config) fun s l s' _ _ hl => by
    obtain ⟨loop, hloop, rfl⟩ := Option.map_eq_some_iff.mp hl
    exact (Loop.static_step hloop).2

/-- In every run the actor keeps the schedule. -/
theorem paced_of_reaches {name : String} {config : ServiceConfig} {now : ℕ} {s : Counted}
    (hf : 1 ≤ config.factor) (h : Reaches step Always (init name config now) s) :
    s.loop.task.settled.Paced s.restarts := by
  refine h.invariant (P := fun s => s.loop.task.settled.Paced s.restarts)
    (fun n hn => by cases hn) ?_
  intro s l s' hr H _ hl
  obtain ⟨loop, hloop, rfl⟩ := Option.map_eq_some_iff.mp hl
  rcases Loop.step_cases hloop with ⟨d, rfl, rfl⟩ | ⟨t, rfl, ht, rfl⟩ | ⟨t, rfl, ht, rfl⟩ |
    ⟨inp, t, rfl, ht, rfl⟩
  · exact H
  · show t.settled.Paced s.restarts
    rw [Task.settled_act ht]
    exact H
  · show t.settled.Paced s.restarts
    rw [Task.settled_deliver ht]
    exact H
  · obtain ⟨hi, -, -⟩ := Task.take_eq_some_iff.mp ht
    have hconfig := config_of_reaches hr
    show t.settled.Paced (s.loop.task.actor.restartsAfter inp s.restarts)
    rw [Task.settled_take ht, Task.settled_of_idle hi]
    rw [Task.settled_of_idle hi] at H
    exact H.script (by rw [hconfig]; exact hf) inp

/-- The schedule. When a process exits after `n` automatic restarts have been scheduled and the
policy is to restart it, the next one is scheduled after `d * f ^ n`, truncated to milliseconds
after every multiplication and cut off at the limit, until that has reached the limit: then the
actor gives up. (What is not cut off is the first delay. The count of restarts wraps.) -/
theorem backoff_schedule {name : String} {config : ServiceConfig} {now : ℕ} {s : Counted}
    {loop : Loop} {n : ℕ} {success ok : Bool} (hf : 1 ≤ config.factor)
    (h : Reaches step Always (init name config now) s) (hn : s.restarts = some n)
    (hd : n = 0 → config.firstBackoff ≤ config.limit)
    (hs : s.loop.step (.input (.childExit success ok)) = some loop)
    (hstate : s.loop.task.actor.state ≠ .stopping)
    (hpolicy : s.loop.task.actor.restartsOn success = true) :
    (if n % 2^32 ≠ 0 ∧ config.limit ≤ config.backoffPow n then
      loop.task.settled.state = .error ∧
        loop.task.settled.backoffSleep = s.loop.task.actor.backoffSleep
    else
      loop.task.settled.state = .backoff ∧
        loop.task.settled.backoffSleep = some (min (config.backoffPow n) config.limit)) ∧
    ((config.backoffPow n : ℚ) ≤ config.firstBackoff * config.factor ^ n) ∧
    (∀ k : ℕ, config.factor = k → config.backoffPow n = config.firstBackoff * k ^ n) := by
  obtain ⟨t, ht, rfl⟩ := Option.map_eq_some_iff.mp hs
  obtain ⟨hi, -, -⟩ := Task.take_eq_some_iff.mp ht
  have hpaced := paced_of_reaches hf h n hn
  rw [Task.settled_of_idle hi, config_of_reaches h] at hpaced
  obtain ⟨hcount, hdelay⟩ := hpaced
  -- Where the first delay is within the limit, so are all of them.
  have hkept : config.keptDelay n = min (config.backoffPow n) config.limit := by
    unfold ServiceConfig.keptDelay
    split_ifs with hzero
    · have hle := hd hzero
      subst hzero
      exact (Nat.min_eq_left hle).symm
    · rfl
  have hlimit : s.loop.task.actor.backoffLimit = config.limit := by
    show s.loop.task.actor.config.limit = config.limit
    rw [config_of_reaches h]
  -- `backoff_limit_exceeded` compares the delay that has been kept with the limit.
  have hexceeded : s.loop.task.actor.backoffLimitExceeded = true ↔
      n % 2^32 ≠ 0 ∧ config.limit ≤ config.backoffPow n := by
    unfold Actor.backoffLimitExceeded
    rw [Bool.and_eq_true, decide_eq_true_eq, decide_eq_true_eq, hcount, hdelay, hkept, hlimit]
    omega
  have hset : t.settled = s.loop.task.actor.exitNoted.execAll
      (s.loop.task.actor.applyExitPolicy success) := by
    rw [Task.settled_take ht, Task.settled_of_idle hi]
    show s.loop.task.actor.execAll (s.loop.task.actor.handleChildExit success ok) = _
    rw [Actor.execAll_handleChildExit, if_neg hstate]
  refine ⟨?_, truncatedPow_le _ (by linarith) n, fun k hk => ?_⟩
  · rw [hset, Actor.execAll_applyExitPolicy, if_pos hpolicy]
    by_cases hl : s.loop.task.actor.backoffLimitExceeded = true
    · rw [if_pos hl, if_pos (hexceeded.mp hl)]
      exact ⟨rfl, rfl⟩
    · rw [if_neg hl, if_neg (mt hexceeded.mpr hl)]
      refine ⟨rfl, ?_⟩
      rw [← hkept, ← hdelay]
  · rw [ServiceConfig.backoffPow, hk, truncatedPow_natCast]

/-- A start, from the actor's loop head and back. -/
def startTurn : List Loop.Label :=
  [.input (.cmd .start true), .act, .deliver, .act, .act, .act, .deliver, .act, .act, .act]

/-- The exit of the process after a failure. -/
def exitTurn : List Loop.Label :=
  [.input (.childExit false true), .act, .deliver, .act, .act, .act, .act, .deliver, .act]

/-- The expiry of the backoff timer, and a spawn. -/
def expiryTurn : List Loop.Label :=
  [.tick 30000, .input (.backoffExpired true), .act, .deliver, .act, .act, .act, .deliver, .act,
    .act]

/-- The exit of the process, and the restart that it leads to. -/
def restartTurns : List Loop.Label := exitTurn ++ expiryTurn

/-- With the defaults, the third delay is two seconds. -/
theorem backoff_schedule_defaults :
    ∃ s loop, Reaches step Always (init "web" { command := some "/bin/web" } 0) s ∧
      s.restarts = some 2 ∧ s.loop.step (.input (.childExit false true)) = some loop ∧
      loop.task.settled.backoffSleep = some 2000 := by
  have h : (runIf step Always (init "web" { command := some "/bin/web" } 0)
      (startTurn ++ restartTurns ++ restartTurns)).any
      (fun s : Counted => decide (s.restarts = some 2 ∧ s.loop.task.actor.state ≠ .stopping ∧
        s.loop.task.actor.restartsOn false = true) &&
          (s.loop.step (.input (.childExit false true))).isSome) = true := by
    decide +kernel
  obtain ⟨s, hr, h⟩ := Reaches.exists_of_runIf _ h
  rw [Bool.and_eq_true, decide_eq_true_eq] at h
  obtain ⟨⟨hn, hstate, hpolicy⟩, hs⟩ := h
  obtain ⟨loop, hloop⟩ := Option.isSome_iff_exists.mp hs
  obtain ⟨hsched, -, hpow⟩ := backoff_schedule (by decide +kernel) hr hn (by simp) hloop hstate
    hpolicy
  have hfour : ServiceConfig.backoffPow { command := some "/bin/web" } 2 = 2000 := hpow 2 rfl
  rw [hfour, if_neg (by decide)] at hsched
  exact ⟨s, loop, hr, hn, hloop, hsched.2⟩

/-- After `n` automatic restarts, which are counted in one of the two ways, the next one is not
scheduled after `min (d * f ^ n) L`. -/
def Misses (count : Counted → Option ℕ) (config : ServiceConfig) (n : ℕ) : Prop :=
  1 ≤ config.factor ∧
    ∃ s loop, Reaches step Always (init "web" config 0) s ∧ count s = some n ∧
      s.loop.task.actor.state = .active ∧ s.loop.task.actor.restartsOn false = true ∧
      s.loop.step (.input (.childExit false true)) = some loop ∧
      loop.task.settled.backoffSleep ≠
        some (min ⌊(config.firstBackoff : ℚ) * config.factor ^ n⌋.toNat config.limit)

/-- A run shows that a schedule is missed. -/
theorem misses_of_run {count : Counted → Option ℕ} {config : ServiceConfig} {n : ℕ}
    (labels : List Loop.Label) (hf : 1 ≤ config.factor)
    (h : (runIf step Always (init "web" config 0) labels).any (fun s : Counted =>
      decide (count s = some n ∧ s.loop.task.actor.state = .active ∧
        s.loop.task.actor.restartsOn false = true) &&
      (s.loop.step (.input (.childExit false true))).any fun loop : Loop =>
        decide (loop.task.settled.backoffSleep ≠
          some (min ⌊(config.firstBackoff : ℚ) * config.factor ^ n⌋.toNat config.limit))) =
        true) : Misses count config n := by
  obtain ⟨s, hr, h⟩ := Reaches.exists_of_runIf _ h
  rw [Bool.and_eq_true, decide_eq_true_eq, Option.any_eq_true] at h
  obtain ⟨⟨hn, hstate, hpolicy⟩, loop, hloop, hne⟩ := h
  exact ⟨hf, s, loop, hr, hn, hstate, hpolicy, hloop, of_decide_eq_true hne⟩

/-- The claimed schedule is missed where the limit is reached, since the actor gives up there; at
the first restart, where the delay is above the limit; where the factor is not whole, since every
delay is truncated: 3 ms times 3/2 three times is 4, 6, and 9 ms; and, if the restarts are counted
that there have been, where the timer of a service that is started in `Backoff` expires. -/
theorem misses_schedule :
    Misses restarts
      { command := some "/bin/web", backoffDelay := some "1s", backoffLimit := some "2s" } 1 ∧
    Misses restarts
      { command := some "/bin/web", backoffDelay := some "2s", backoffLimit := some "1s" } 0 ∧
    Misses restarts
      { command := some "/bin/web", backoffDelay := some "3ms", backoffFactor := some (3 / 2) } 3 ∧
    Misses restarted { command := some "/bin/web" } 1 :=
  ⟨misses_of_run (startTurn ++ restartTurns) (by decide +kernel) (by decide +kernel),
    misses_of_run startTurn (by decide +kernel) (by decide +kernel),
    misses_of_run (startTurn ++ restartTurns ++ restartTurns ++ restartTurns) (by decide +kernel)
      (by decide +kernel),
    misses_of_run (startTurn ++ exitTurn ++ startTurn ++ expiryTurn) (by decide +kernel)
      (by decide +kernel)⟩

end Counted

end Vigil
