import Vigil.Lib.Streak
import Vigil.Relay.Source

/-!
# When the relay gives up

The reconnect loops of `source_url` and `source_unix`, which count their failures and return an
error when there have been as many as `--source-reconnect-retries` allows.

The count is set back when a session connects, and not when it ends well. A session that connects
and then fails counts as the first failure, whatever has been before it.
`givesUpRight_iff` says for which sequences of sessions this makes no difference.
-/

namespace Vigil

open Streak

/-- `ReconnectConfig`. -/
structure ReconnectConfig where
  initialDelayMs : ℕ
  maxDelayMs : ℕ
  /-- Zero for no limit. -/
  maxRetries : UInt64

/-- A response to the request of a source: its status, and its body, with the times for which the
reader waits and whether the channel is full when a line has been read. -/
structure SourceResponse where
  status : ℕ
  waits : List ℕ
  full : ℕ → Bool
  bytes : List UInt8

/-- How a session has gone. -/
inductive SessionOutcome
  | connectError
  /-- The status is no success. -/
  | badStatus
  /-- It has connected, and `stream_loop` has returned. -/
  | streamed (cleanEof : Bool)
  deriving DecidableEq, Repr

/-- How a session goes, with the response, if there is one. -/
def sessionOutcome (src : LineSource) (filter : LineFilter) (idleTimeoutMs : ℕ) :
    Option SourceResponse → SessionOutcome
  | none => .connectError
  | some r =>
    if 200 ≤ r.status ∧ r.status < 300 then
      .streamed (streamLoop src filter idleTimeoutMs r.full r.waits r.bytes).cleanEof
    else .badStatus

/-- `bump_failures`, which returns an error where the limit is reached. -/
def bumpFailures (failures maxRetries : UInt64) : Option UInt64 :=
  let n := failures + 1
  if 0 < maxRetries ∧ maxRetries ≤ n then none else some n

/-- The variables of a reconnect loop. -/
structure Reconnect where
  failures : UInt64 := 0
  backoffMs : ℕ
  deriving DecidableEq

namespace Reconnect

variable (cfg : ReconnectConfig)

/-- The variables before the loop. -/
def start : Reconnect where
  backoffMs := cfg.initialDelayMs

/-- The end of a turn: the sleep, and the next delay. -/
def endTurn (s : Reconnect) (failures : UInt64) : Reconnect where
  failures
  backoffMs := min (s.backoffMs * 2) cfg.maxDelayMs

/-- A turn of the loop, or nothing where it returns an error. -/
def turn (s : Reconnect) : SessionOutcome → Option Reconnect
  | .streamed cleanEof =>
    let s : Reconnect := { failures := 0, backoffMs := cfg.initialDelayMs }
    if cleanEof then some (s.endTurn cfg s.failures)
    else (bumpFailures s.failures cfg.maxRetries).map (s.endTurn cfg)
  | .badStatus | .connectError => (bumpFailures s.failures cfg.maxRetries).map (s.endTurn cfg)

end Reconnect

/-- A turn of the loop of `source_url`. -/
def SourceUrl.turn : ReconnectConfig → Reconnect → SessionOutcome → Option Reconnect :=
  Reconnect.turn

/-- A turn of the loop of `source_unix`. A path that makes no URI ends the task before the first
session. -/
def SourceUnix.turn : ReconnectConfig → Reconnect → SessionOutcome → Option Reconnect :=
  Reconnect.turn

/-- The sources with such a loop. -/
inductive HttpSource
  | url
  | unix

/-- A turn of a source's loop. -/
def HttpSource.turn : HttpSource → ReconnectConfig → Reconnect → SessionOutcome → Option Reconnect
  | url => SourceUrl.turn
  | unix => SourceUnix.turn

/-- The loop of a source after some sessions, or nothing where it has returned an error. -/
def HttpSource.runFor (source : HttpSource) (cfg : ReconnectConfig)
    (outcomes : ℕ → SessionOutcome) : ℕ → Option Reconnect
  | 0 => some (.start cfg)
  | n + 1 => (source.runFor cfg outcomes n).bind fun s => source.turn cfg s (outcomes n)

/-- The session has not come to a clean end. -/
def SessionOutcome.isFailure : SessionOutcome → Bool
  | streamed cleanEof => !cleanEof
  | _ => true

/-- The sessions that have failed in a row when some sessions are over. -/
def failuresInARow (outcomes : ℕ → SessionOutcome) (n : ℕ) : ℕ :=
  streak (fun i => (outcomes i).isFailure) n

/-- The source gives up exactly when as many sessions as the limit says have failed in a row. -/
def GivesUpRight (source : HttpSource) (cfg : ReconnectConfig) (outcomes : ℕ → SessionOutcome) :
    Prop :=
  ∀ n, source.runFor cfg outcomes n = none ↔ 0 < cfg.maxRetries ∧
    ∃ k ≤ n, cfg.maxRetries.toNat ≤ failuresInARow outcomes k

/-- Among the first failures in a row that are as many as the limit, only the first one may be that
of a session that had connected. -/
def FailsToConnect (cfg : ReconnectConfig) (outcomes : ℕ → SessionOutcome) : Prop :=
  ∀ k, failuresInARow outcomes k = cfg.maxRetries.toNat →
    (∀ j < k, failuresInARow outcomes j < cfg.maxRetries.toNat) →
    ∀ i, k < i + cfg.maxRetries.toNat → i < k → outcomes i ≠ .streamed false

/-! ## One turn -/

/-- The failures that are counted after a session, with those before it. -/
def SessionOutcome.count (failures : ℕ) : SessionOutcome → ℕ
  | streamed cleanEof => if cleanEof then 0 else 1
  | _ => failures + 1

section Turn

variable {cfg : ReconnectConfig}

/-- Below the limit, the counter does not overflow. -/
theorem toNat_add_one_of_lt {failures maxRetries : UInt64} (h : failures < maxRetries) :
    (failures + 1).toNat = failures.toNat + 1 := by
  have hlt : failures.toNat < maxRetries.toNat := UInt64.lt_iff_toNat_lt.mp h
  have hmax := maxRetries.toNat_lt
  rw [UInt64.toNat_add, UInt64.toNat_one, Nat.mod_eq_of_lt (by omega)]

/-- Below the limit, a failure stops the loop when it is the last one that is allowed. -/
theorem bumpFailures_of_lt {failures maxRetries : UInt64} (h : failures < maxRetries) :
    bumpFailures failures maxRetries =
      if maxRetries.toNat ≤ failures.toNat + 1 then none else some (failures + 1) := by
  have hpos : 0 < maxRetries :=
    UInt64.lt_iff_toNat_lt.mpr (Nat.zero_lt_of_lt (UInt64.lt_iff_toNat_lt.mp h))
  unfold bumpFailures
  simp only [UInt64.le_iff_toNat_le, toNat_add_one_of_lt h, hpos, true_and]

/-- Without a limit, a failure does not stop the loop. -/
theorem bumpFailures_zero (failures : UInt64) : bumpFailures failures 0 = some (failures + 1) := by
  unfold bumpFailures
  rw [if_neg fun h => absurd h.1 (by decide)]

/-- Without a limit, no turn returns an error. -/
theorem Reconnect.turn_ne_none (h : cfg.maxRetries = 0) (s : Reconnect) (outcome : SessionOutcome) :
    s.turn cfg outcome ≠ none := by
  cases outcome with
  | streamed cleanEof => cases cleanEof <;> simp [turn, h, bumpFailures_zero]
  | _ => simp [turn, h, bumpFailures_zero]

/-- The end of a turn that has failed below the limit. -/
theorem Reconnect.endTurn_spec {failures : UInt64} (h : failures < cfg.maxRetries) (s : Reconnect) :
    match (bumpFailures failures cfg.maxRetries).map (s.endTurn cfg) with
    | some s' => s'.failures.toNat = failures.toNat + 1 ∧ s'.failures < cfg.maxRetries
    | none => cfg.maxRetries.toNat ≤ failures.toNat + 1 := by
  rw [bumpFailures_of_lt h]
  split_ifs with hlast
  · exact hlast
  · refine ⟨toNat_add_one_of_lt h, UInt64.lt_iff_toNat_lt.mpr ?_⟩
    change (failures + 1).toNat < _
    rw [toNat_add_one_of_lt h]
    exact Nat.not_le.mp hlast

/-- A turn that begins below the limit counts the session, and returns an error where the count
reaches the limit. -/
theorem Reconnect.turn_spec {s : Reconnect} (h : s.failures < cfg.maxRetries)
    (outcome : SessionOutcome) :
    match s.turn cfg outcome with
    | some s' => s'.failures.toNat = outcome.count s.failures.toNat ∧ s'.failures < cfg.maxRetries
    | none => cfg.maxRetries.toNat ≤ outcome.count s.failures.toNat := by
  have hpos : 0 < cfg.maxRetries :=
    UInt64.lt_iff_toNat_lt.mpr (Nat.zero_lt_of_lt (UInt64.lt_iff_toNat_lt.mp h))
  cases outcome with
  | streamed cleanEof =>
    -- The session has connected: what has been counted before it is forgotten.
    cases cleanEof with
    | true => exact ⟨rfl, hpos⟩
    | false => exact endTurn_spec hpos _
  | badStatus => exact endTurn_spec h s
  | connectError => exact endTurn_spec h s

end Turn

/-! ## A run -/

section Run

variable (source : HttpSource) (cfg : ReconnectConfig) (outcomes : ℕ → SessionOutcome)

/-- Both sources take the same turn of the loop. -/
theorem HttpSource.turn_eq : source.turn = Reconnect.turn := by
  cases source with
  | url => rfl
  | unix => rfl

/-- The failures that are counted after some sessions, without a limit. -/
def counted : ℕ → ℕ
  | 0 => 0
  | n + 1 => (outcomes n).count (counted n)

/-- Without a limit, the loop goes on. -/
theorem runFor_ne_none (h : cfg.maxRetries = 0) (n : ℕ) : source.runFor cfg outcomes n ≠ none := by
  induction n with
  | zero => exact Option.some_ne_none _
  | succ n ih =>
    obtain ⟨s, hs⟩ := Option.ne_none_iff_exists'.mp ih
    rw [HttpSource.runFor, hs, HttpSource.turn_eq]
    exact Reconnect.turn_ne_none h s _

variable {source cfg outcomes}

/-- A loop that goes on has counted the failures, and no count has reached the limit. -/
theorem of_runFor_eq_some (hpos : 0 < cfg.maxRetries) {n : ℕ} {s : Reconnect}
    (h : source.runFor cfg outcomes n = some s) :
    s.failures.toNat = counted outcomes n ∧ s.failures < cfg.maxRetries := by
  induction n generalizing s with
  | zero =>
    obtain rfl := Option.some.inj h
    exact ⟨rfl, hpos⟩
  | succ n ih =>
    obtain ⟨s₀, hs₀, hturn⟩ := Option.bind_eq_some_iff.mp h
    obtain ⟨hcount, hlt⟩ := ih hs₀
    rw [HttpSource.turn_eq] at hturn
    have hspec := Reconnect.turn_spec hlt (outcomes n)
    rw [hturn, hcount] at hspec
    exact hspec

/-- A loop that has returned does not go on. -/
theorem runFor_eq_none_of_le {k n : ℕ} (hle : k ≤ n) (h : source.runFor cfg outcomes k = none) :
    source.runFor cfg outcomes n = none := by
  induction n, hle using Nat.le_induction with
  | base => exact h
  | succ n _ ih => rw [HttpSource.runFor, ih, Option.bind_none]

/-- With a limit, the loop has returned an error when a count has reached the limit. -/
theorem runFor_eq_none_iff (hpos : 0 < cfg.maxRetries) (n : ℕ) :
    source.runFor cfg outcomes n = none ↔ ∃ k ≤ n, cfg.maxRetries.toNat ≤ counted outcomes k := by
  constructor
  · intro h
    induction n with
    | zero => cases h
    | succ n ih =>
      cases hs : source.runFor cfg outcomes n with
      | none =>
        obtain ⟨k, hk, hcount⟩ := ih hs
        exact ⟨k, Nat.le_succ_of_le hk, hcount⟩
      | some s =>
        -- The last turn is the one that has returned.
        obtain ⟨hcount, hlt⟩ := of_runFor_eq_some hpos hs
        rw [HttpSource.runFor, hs, Option.bind_some, HttpSource.turn_eq] at h
        have hspec := Reconnect.turn_spec hlt (outcomes n)
        rw [h, hcount] at hspec
        exact ⟨n + 1, Nat.le_refl _, hspec⟩
  · rintro ⟨k, hk, hcount⟩
    refine runFor_eq_none_of_le hk (Option.eq_none_iff_forall_not_mem.mpr fun s hs => ?_)
    obtain ⟨heq, hlt⟩ := of_runFor_eq_some hpos hs
    rw [UInt64.lt_iff_toNat_lt, heq] at hlt
    exact absurd hcount (Nat.not_le.mpr hlt)

end Run

/-! ## Counts and streaks -/

section Streaks

variable {outcomes : ℕ → SessionOutcome}

/-- The loop never counts more failures than there have been in a row. -/
theorem counted_le_streak (n : ℕ) :
    counted outcomes n ≤ failuresInARow outcomes n := by
  induction n with
  | zero => exact Nat.le_refl 0
  | succ n ih =>
    rw [failuresInARow] at ih ⊢
    rw [counted, streak]
    cases outcomes n with
    | streamed cleanEof =>
      cases cleanEof with
      | true => exact Nat.le_refl 0
      | false => exact Nat.succ_le_succ (Nat.zero_le _)
    | _ => exact Nat.succ_le_succ ih

/-- It counts at most one failure a session. -/
theorem counted_add_le (n m : ℕ) : counted outcomes (n + m) ≤ counted outcomes n + m := by
  induction m with
  | zero => exact Nat.le_refl _
  | succ m ih =>
    rw [← Nat.add_assoc, counted]
    cases outcomes (n + m) with
    | streamed cleanEof =>
      cases cleanEof with
      | true => exact Nat.zero_le _
      | false => exact Nat.succ_le_succ (Nat.zero_le _)
    | _ => exact Nat.succ_le_succ ih

/-- It counts every failure of a session that does not connect. -/
theorem counted_add (n m : ℕ) (hfail : ∀ i < m, (outcomes (n + i)).isFailure = true)
    (h : ∀ i < m, outcomes (n + i) ≠ .streamed false) :
    counted outcomes (n + m) = counted outcomes n + m := by
  induction m with
  | zero => rfl
  | succ m ih =>
    rw [← Nat.add_assoc, counted, ih (fun i hi => hfail i (Nat.lt_succ_of_lt hi))
      fun i hi => h i (Nat.lt_succ_of_lt hi)]
    have hfail := hfail m (Nat.lt_succ_self m)
    have h := h m (Nat.lt_succ_self m)
    cases hm : outcomes (n + m) with
    | streamed cleanEof =>
      rw [hm] at hfail h
      cases cleanEof with
      | true => cases hfail
      | false => exact absurd rfl h
    | _ => rfl

/-- After a failure the count is not zero. -/
theorem one_le_counted {n : ℕ} (h : (outcomes n).isFailure = true) :
    1 ≤ counted outcomes (n + 1) := by
  rw [counted]
  cases hn : outcomes n with
  | streamed cleanEof =>
    cases cleanEof with
    | true =>
      rw [hn] at h
      cases h
    | false => exact Nat.le_refl 1
  | _ => exact Nat.succ_le_succ (Nat.zero_le _)

variable {cfg : ReconnectConfig}

/-- Where only the first session of a first streak may have connected, the loop counts all of it. -/
theorem FailsToConnect.le_counted (h : FailsToConnect cfg outcomes) (hpos : 0 < cfg.maxRetries)
    {k : ℕ} (hk : failuresInARow outcomes k = cfg.maxRetries.toNat)
    (hfirst : ∀ j < k, failuresInARow outcomes j < cfg.maxRetries.toNat) :
    cfg.maxRetries.toNat ≤ counted outcomes k := by
  obtain ⟨m, hm⟩ : ∃ m, cfg.maxRetries.toNat = m + 1 :=
    Nat.exists_eq_succ_of_ne_zero (Nat.pos_iff_ne_zero.mp (UInt64.lt_iff_toNat_lt.mp hpos))
  -- The streak begins at `a` and goes on for `m` sessions after its first one.
  have hle : failuresInARow outcomes k ≤ k := streak_le k
  obtain ⟨a, ha⟩ := Nat.exists_eq_add_of_le' (hm ▸ hk ▸ hle)
  have hfail : ∀ i < k, a ≤ i → (outcomes i).isFailure = true := fun i hi hai =>
    of_streak hi (show k ≤ i + failuresInARow outcomes k by omega)
  have hrest : counted outcomes (a + 1 + m) = counted outcomes (a + 1) + m :=
    counted_add _ _ (fun i hi => hfail _ (by omega) (by omega))
      fun i hi => h k hk hfirst _ (by omega) (by omega)
  have hone := one_le_counted (hfail a (by omega) (Nat.le_refl a))
  rw [hm, show k = a + 1 + m by omega, hrest]
  omega

/-- A session that connects and then fails in a first streak, but not at its beginning, makes the
loop count too few. -/
theorem counted_lt {k i : ℕ} (hi : i < k) (hki : k < i + cfg.maxRetries.toNat)
    (h : outcomes i = .streamed false) : counted outcomes k < cfg.maxRetries.toNat := by
  obtain ⟨m, rfl⟩ := Nat.exists_eq_add_of_lt hi
  have hone : counted outcomes (i + 1) = 1 := by rw [counted, h]; rfl
  have hle : counted outcomes (i + 1 + m) ≤ counted outcomes (i + 1) + m := counted_add_le (i + 1) m
  rw [hone, show i + 1 + m = i + m + 1 by omega] at hle
  omega

end Streaks

/-- A source gives up at the failure that the limit says, and not without a limit, exactly for those
sequences of sessions in which no session has connected within the first failures in a row that are
as many, except at their beginning. -/
theorem givesUpRight_iff (source : HttpSource) (cfg : ReconnectConfig)
    (outcomes : ℕ → SessionOutcome) :
    GivesUpRight source cfg outcomes ↔ FailsToConnect cfg outcomes := by
  constructor
  · intro h k hk hfirst i hki hi hconnected
    have hpos : 0 < cfg.maxRetries.toNat := by omega
    have hpos : 0 < cfg.maxRetries := UInt64.lt_iff_toNat_lt.mpr hpos
    -- The loop has returned by then, although no count has reached the limit.
    obtain ⟨j, hj, hcount⟩ :=
      (runFor_eq_none_iff hpos k).mp ((h k).mpr ⟨hpos, k, Nat.le_refl k, hk.ge⟩)
    rcases Nat.lt_or_eq_of_le hj with hlt | rfl
    · exact absurd (hcount.trans (counted_le_streak j)) (Nat.not_le.mpr (hfirst j hlt))
    · exact absurd hcount (Nat.not_le.mpr (counted_lt hi hki hconnected))
  · intro h n
    by_cases hpos : 0 < cfg.maxRetries
    · rw [runFor_eq_none_iff hpos]
      constructor
      · rintro ⟨k, hk, hcount⟩
        exact ⟨hpos, k, hk, hcount.trans (counted_le_streak k)⟩
      · rintro ⟨-, k, hk, hstreak⟩
        -- The first streak of this length is counted in full.
        obtain ⟨j, hj, heq, hfirst⟩ := exists_first (UInt64.lt_iff_toNat_lt.mp hpos) hstreak
        exact ⟨j, hj.trans hk, h.le_counted hpos heq hfirst⟩
    · have hzero : cfg.maxRetries = 0 := by
        have := UInt64.lt_iff_toNat_lt.not.mp hpos
        exact UInt64.toNat_inj.mp (Nat.eq_zero_of_not_pos this)
      exact iff_of_false (runFor_ne_none source cfg outcomes hzero n) fun h => hpos h.1

/-- A response without a line for half a minute. -/
def silentResponse : SourceResponse where
  status := 200
  waits := [30000]
  full _ := false
  bytes := []

/-- With an idle timeout of twenty seconds, a session with this response fails. -/
theorem sessionOutcome_silentResponse :
    sessionOutcome .documented {} 20000 (some silentResponse) = .streamed false := by
  rw [sessionOutcome, if_pos (by decide), streamLoop, if_pos (by decide)]

/-- A server that always answers and then falls silent is never given up, although two failures in
a row are allowed at most. -/
theorem not_givesUpRight_silent :
    ¬GivesUpRight .url ⟨500, 30000, 2⟩ fun _ =>
      sessionOutcome .documented {} 20000 (some silentResponse) := by
  rw [sessionOutcome_silentResponse]
  intro h
  have hnone := (h 2).mpr ⟨by decide, 2, Nat.le_refl 2, by decide⟩
  exact absurd hnone (by decide)

end Vigil
