import Vigil.Overlord.State
import Vigil.Plan.Check

/-!
# The check actor

The tick branch of `check/actor/mod.rs`: one probe moves the failure count and the status, and the
actor reports to the overlord. It reports every change of the status, and after its first probe it
reports the status once more, whether it has changed or not, so that the alerts know it.

The failure count is a `u32`, and it wraps as it does in a release build.
-/

namespace Vigil.Check

/-- `DEFAULT_THRESHOLD`. -/
def defaultThreshold : UInt32 := 3

/-- The variables of `run` that its loop reads. -/
structure Actor where
  name : String
  threshold : UInt32
  failures : UInt32 := 0
  status : CheckStatus
  firstRun : Bool := true
  deriving DecidableEq

namespace Actor

variable (a : Actor)

/-- The actor where its loop starts. The overlord hands it the status that the alerts have of the
check. -/
def start (name : String) (config : CheckConfig) (initialStatus : CheckStatus) : Actor where
  name
  threshold := config.threshold.getD defaultThreshold
  status := initialStatus

/-- What a probe's result does to the count and the status, and the report if the status changes. -/
def record (ok : Bool) : Actor × List CheckStatus :=
  if ok then
    ({ a with status := .up, failures := 0 }, if a.status = .down then [.up] else [])
  else
    let failures := a.failures + 1
    if a.threshold ≤ failures ∧ a.status = .up then ({ a with failures, status := .down }, [.down])
    else ({ a with failures }, [])

/-- The tick branch: the actor after a probe, and the statuses that it has reported, in order. -/
def tick (ok : Bool) : Actor × List CheckStatus :=
  let r := a.record ok
  ({ r.1 with firstRun := false }, if a.firstRun then r.2 ++ [r.1.status] else r.2)

/-- The check goes down with this probe. -/
def goesDown (ok : Bool) : Bool := decide (a.status = .up ∧ (a.tick ok).1.status = .down)

/-- A tick keeps the actor's name. -/
@[simp] theorem name_tick (ok : Bool) : (a.tick ok).1.name = a.name := by
  simp only [tick, record]
  split_ifs <;> rfl

/-- After a tick the first run is over. -/
@[simp] theorem firstRun_tick (ok : Bool) : (a.tick ok).1.firstRun = false := rfl

/-- After a good probe the check is up, and the overlord has heard of nothing else. -/
theorem down_notMem_tick_true : CheckStatus.down ∉ (a.tick true).2 := by
  simp only [tick, record]
  split_ifs <;> simp

/-- A good probe takes no check down. -/
@[simp] theorem goesDown_true : a.goesDown true = false := by
  simp [goesDown, tick, record]

/-- A failed probe takes a check down that is up and whose count reaches the threshold. -/
theorem goesDown_false :
    a.goesDown false = decide (a.threshold ≤ a.failures + 1 ∧ a.status = .up) := by
  simp only [goesDown, tick, record, Bool.false_eq_true, if_false]
  split_ifs with h
  · simp [h]
  · cases hs : a.status <;> simp_all

/-- After its first run the actor reports that it is down where it goes down, and only there. -/
theorem tick_of_firstRun_eq_false (h : a.firstRun = false) (ok : Bool) :
    (a.tick ok).2 = if a.goesDown ok then [.down] else
      if ok ∧ a.status = .down then [.up] else [] := by
  cases ok with
  | true => simp [tick, record, h, goesDown]
  | false =>
    rw [goesDown_false]
    simp only [tick, record, h]
    split_ifs <;> simp_all

/-- A failed first probe is reported as down once where the check was down, twice where it goes
down, and not where it stays up. -/
theorem tick_false_of_firstRun (h : a.firstRun = true) :
    (a.tick false).2 = if a.goesDown false then [.down, .down] else [a.status] := by
  rw [goesDown_false]
  simp only [tick, record, h]
  split_ifs <;> simp_all

end Actor

end Vigil.Check
