import Vigil.Check.Actor
import Mathlib.Data.List.Induction

/-!
# When a check is down

The status of a check after any results of its probes, in closed form. The loop of `run` moves a
status, a `u32` count of failures, and a flag for its first run. The count goes on while the check
is down, and it wraps. That does no harm: it is read while the check is up, and there it is the
number of failures since the last good probe, which is below the threshold (`Tracks.count`).
-/

namespace Vigil.Check

/-- The number of failed probes since the last good one, or since the start. -/
def failuresSinceSuccess (oks : List Bool) : ℕ := (oks.reverse.takeWhile fun ok => !ok).length

/-- A good probe ends the failures. -/
@[simp] theorem failuresSinceSuccess_concat_true (oks : List Bool) :
    failuresSinceSuccess (oks ++ [true]) = 0 := by
  simp [failuresSinceSuccess]

/-- A failed probe adds one. -/
@[simp] theorem failuresSinceSuccess_concat_false (oks : List Bool) :
    failuresSinceSuccess (oks ++ [false]) = failuresSinceSuccess oks + 1 := by
  simp [failuresSinceSuccess]

namespace Actor

/-- The actor after the probes with these results, and all the statuses that it has reported. -/
def ticks (a : Actor) (oks : List Bool) : Actor × List CheckStatus :=
  oks.foldl (fun r ok => ((r.1.tick ok).1, r.2 ++ (r.1.tick ok).2)) (a, [])

/-- One more probe is a tick of the actor after those of the probes before. -/
theorem ticks_concat (a : Actor) (oks : List Bool) (ok : Bool) :
    a.ticks (oks ++ [ok]) =
      (((a.ticks oks).1.tick ok).1, (a.ticks oks).2 ++ ((a.ticks oks).1.tick ok).2) := by
  unfold ticks
  rw [List.foldl_concat]

/-- A probe does not change the threshold. -/
@[simp] theorem threshold_tick (a : Actor) (ok : Bool) : (a.tick ok).1.threshold = a.threshold := by
  simp only [tick, record]
  split_ifs <;> rfl

/-- After a good probe the check is up and the count is zero. -/
theorem tick_true (a : Actor) : (a.tick true).1.status = .up ∧ (a.tick true).1.failures = 0 :=
  ⟨rfl, rfl⟩

/-- A failed probe adds one to the count of the failures, which is a `u32`. -/
theorem failures_tick_false (a : Actor) : (a.tick false).1.failures = a.failures + 1 := by
  simp only [tick, record, Bool.false_eq_true, if_false]
  split_ifs <;> rfl

/-- After a failed probe the check is down if it was or if the count has reached the threshold. -/
theorem status_tick_false (a : Actor) : (a.tick false).1.status = .down ↔
    a.status = .down ∨ a.threshold ≤ a.failures + 1 := by
  simp only [tick, record, Bool.false_eq_true, if_false]
  split_ifs with h
  · simp [h.1]
  · cases hs : a.status <;> simp_all

/-- The last report of a probe is the status after it, if the probe is the first or has changed the
status. -/
theorem getLast?_tick (a : Actor) (ok : Bool) :
    (a.tick ok).2.getLast? = some (a.tick ok).1.status ∨
      (a.tick ok).2 = [] ∧ a.firstRun = false ∧ (a.tick ok).1.status = a.status := by
  cases hf : a.firstRun with
  | true =>
    left
    simp [tick, hf]
  | false =>
    rw [tick_of_firstRun_eq_false a hf]
    cases ok with
    | true => cases hs : a.status <;> simp [tick_true]
    | false =>
      have hdown := goesDown_false a
      simp only [tick, record, hf] at hdown ⊢
      split_ifs at hdown ⊢ <;> simp_all

/-- What the actor's variables say after the probes with the results `oks`, and what has been
reported. -/
structure Tracks (initial : CheckStatus) (t : UInt32) (oks : List Bool)
    (r : Actor × List CheckStatus) : Prop where
  /-- The threshold is the configured one. -/
  threshold : r.1.threshold = t
  /-- The check is down when the failures since the last good probe have reached the threshold, or
  when it was down from the start and no probe has been good. -/
  status : r.1.status = .down ↔
    max 1 t.toNat ≤ failuresSinceSuccess oks ∨ initial = .down ∧ true ∉ oks
  /-- While the check is up the count is the number of failures since the last good probe. -/
  count : r.1.status = .up → r.1.failures.toNat = failuresSinceSuccess oks
  /-- The first run is over after a probe. -/
  firstRun : r.1.firstRun = decide (oks = [])
  /-- The last report is the status. -/
  last : oks ≠ [] → r.2.getLast? = some r.1.status

/-- An actor that has just been started keeps track of no probes. -/
theorem tracks_start (name : String) (config : CheckConfig) (initial : CheckStatus) :
    Tracks initial (config.threshold.getD defaultThreshold) []
      ((start name config initial).ticks []) where
  threshold := rfl
  status := by
    show initial = .down ↔ max 1 (UInt32.toNat _) ≤ 0 ∨ initial = .down ∧ true ∉ []
    simp
  count := fun _ => rfl
  firstRun := rfl
  last := fun h => absurd rfl h

/-- What is reported last stays the status with one more probe. -/
theorem Tracks.last_tick {initial : CheckStatus} {t : UInt32} {oks : List Bool}
    {r : Actor × List CheckStatus} (h : Tracks initial t oks r) (ok : Bool) :
    (r.2 ++ (r.1.tick ok).2).getLast? = some (r.1.tick ok).1.status := by
  rcases getLast?_tick r.1 ok with hlast | ⟨hnil, hfirst, hsame⟩
  · rw [List.getLast?_append, hlast, Option.some_or]
  · -- Nothing is reported, so that this is not the first probe.
    have hoks : oks ≠ [] := by
      rintro rfl
      rw [h.firstRun] at hfirst
      cases hfirst
    rw [hnil, List.append_nil, hsame, h.last hoks]

/-- While the check is up another failure does not make the count wrap. -/
theorem Tracks.toNat_failures {initial : CheckStatus} {t : UInt32} {oks : List Bool}
    {r : Actor × List CheckStatus} (h : Tracks initial t oks r) (hup : r.1.status = .up) :
    (r.1.failures + 1).toNat = failuresSinceSuccess oks + 1 := by
  have hcount := h.count hup
  have hlt : failuresSinceSuccess oks < max 1 t.toNat := by
    by_contra hle
    have hdown := h.status.mpr (Or.inl (Nat.le_of_not_lt hle))
    rw [hup] at hdown
    cases hdown
  have hmax := t.toNat_lt
  rw [UInt32.toNat_add, hcount]
  show (failuresSinceSuccess oks + 1) % 2 ^ 32 = _
  exact Nat.mod_eq_of_lt (by omega)

/-- An actor that has kept track of its probes keeps track of one more. -/
theorem Tracks.tick {initial : CheckStatus} {t : UInt32} {oks : List Bool}
    {r : Actor × List CheckStatus} (h : Tracks initial t oks r) (ok : Bool) :
    Tracks initial t (oks ++ [ok]) ((r.1.tick ok).1, r.2 ++ (r.1.tick ok).2) where
  threshold := (threshold_tick r.1 ok).trans h.threshold
  firstRun := by
    rw [firstRun_tick]
    exact (decide_eq_false (by simp)).symm
  last := fun _ => h.last_tick ok
  status := by
    cases ok with
    | true =>
      rw [(tick_true r.1).1, failuresSinceSuccess_concat_true]
      simp
    | false =>
      -- A failed probe leaves open whether there has been a good one.
      rw [status_tick_false, failuresSinceSuccess_concat_false]
      have hmem : true ∉ oks ++ [false] ↔ true ∉ oks := by simp
      rw [hmem]
      by_cases hdown : r.1.status = .down
      · -- A check that is down stays down.
        refine ⟨fun _ => ?_, fun _ => Or.inl hdown⟩
        rcases h.status.mp hdown with hle | hinit
        · exact Or.inl (by omega)
        · exact Or.inr hinit
      · have hup : r.1.status = .up := by
          cases hs : r.1.status with
          | up => rfl
          | down => exact absurd hs hdown
        -- The count is that of the failures, and does not wrap, only because the check is up.
        have hnot := fun hinit => hdown (h.status.mpr (Or.inr hinit))
        rw [UInt32.le_iff_toNat_le, h.toNat_failures hup, h.threshold]
        constructor
        · rintro (hd | hle)
          · exact absurd hd hdown
          · exact Or.inl (by omega)
        · rintro (hle | hinit)
          · exact Or.inr (by omega)
          · exact absurd hinit hnot
  count := by
    intro hup
    cases ok with
    | true =>
      rw [failuresSinceSuccess_concat_true]
      rfl
    | false =>
      -- A failed probe brings no check up.
      have hbefore : r.1.status = .up := by
        cases hs : r.1.status with
        | up => rfl
        | down =>
          rw [(status_tick_false r.1).mpr (Or.inl hs)] at hup
          cases hup
      rw [failuresSinceSuccess_concat_false]
      exact (congrArg UInt32.toNat (failures_tick_false r.1)).trans (h.toNat_failures hbefore)

/-- The probes keep track of the failures. -/
theorem tracks_ticks (name : String) (config : CheckConfig) (initial : CheckStatus)
    (oks : List Bool) :
    Tracks initial (config.threshold.getD defaultThreshold) oks
      ((start name config initial).ticks oks) := by
  -- From the last probe, since the status is about the end of the results.
  induction oks using List.reverseRecOn with
  | nil => exact tracks_start name config initial
  | append_singleton oks ok ih =>
    rw [ticks_concat]
    exact ih.tick ok

/-- After any results of its probes a check is down exactly when the failures since the last good
probe have reached the threshold, and at least one, or when it was down from the start and no probe
has been good. From the first probe on, the last report is that status. -/
theorem status_ticks (name : String) (config : CheckConfig) (initial : CheckStatus)
    (oks : List Bool) :
    let r := (start name config initial).ticks oks
    (r.1.status = .down ↔
      max 1 (config.threshold.getD defaultThreshold).toNat ≤ failuresSinceSuccess oks ∨
        initial = .down ∧ true ∉ oks) ∧
      (oks ≠ [] → r.2.getLast? = some r.1.status) :=
  ⟨(tracks_ticks name config initial oks).status, (tracks_ticks name config initial oks).last⟩

end Actor

end Vigil.Check
