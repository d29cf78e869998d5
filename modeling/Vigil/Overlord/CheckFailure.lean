import Vigil.Check.Actor

/-!
# Acting on a check's failure

A check that goes down is to be acted upon once. The overlord acts on every report that the check is
down, and the check's actor makes one too many: after its first probe it reports the status whether
or not it has changed. `isDue_watch_iff` says when this does not matter.
-/

namespace Vigil

/-- The policy ends the daemon. -/
def OnExit.endsDaemon : OnExit → Bool
  | .restart | .ignore => false
  | .shutdown | .failureShutdown | .successShutdown => true

namespace Overlord

/-- The daemon ends with this action. -/
def Instr.isFinish : Instr → Bool
  | .finish _ => true
  | _ => false

variable (o : Overlord)

/-- The actions that the overlord takes on a check's reports, one after another. No report is taken
after the one that ends the daemon. -/
def handleCheckEvents (check : String) : List CheckStatus → List Instr
  | [] => []
  | status :: rest =>
    let actions := o.handleCheckEvent check status
    if actions.any Instr.isFinish then actions else actions ++ handleCheckEvents check rest

/-- What a probe leads to. -/
structure Turn where
  /-- The check goes down with the probe. -/
  wentDown : Bool
  /-- What the overlord does about the reports. -/
  actions : List Instr

/-- The turns of a sequence of probes, up to the one in which the daemon ends. -/
def watch : Check.Actor → List Bool → List Turn
  | _, [] => []
  | a, ok :: rest =>
    let actions := o.handleCheckEvents a.name (a.tick ok).2
    ⟨a.goesDown ok, actions⟩ :: if actions.any Instr.isFinish then [] else watch (a.tick ok).1 rest

/-- The overlord does with a turn what the policies say: the action of each service that names the
check, in the plan's order and up to the one that ends the daemon, once if the check goes down, and
nothing otherwise. -/
def Turn.IsDue (check : String) (t : Turn) : Prop :=
  t.actions = if t.wentDown then checkActions check (o.onCheckFailure check) else []

/-- Reports that a check is up lead to nothing. -/
theorem handleCheckEvents_eq_nil {check : String} {statuses : List CheckStatus}
    (h : CheckStatus.down ∉ statuses) : o.handleCheckEvents check statuses = [] := by
  induction statuses with
  | nil => rfl
  | cons status rest ih =>
    obtain ⟨hs, hrest⟩ := not_or.mp (mt List.mem_cons.mpr h)
    have hup : o.handleCheckEvent check status = [] := if_neg (Ne.symm hs)
    simp [handleCheckEvents, hup, ih hrest]

/-- One report that a check is down leads to the actions of the policies. -/
@[simp] theorem handleCheckEvents_down (check : String) :
    o.handleCheckEvents check [.down] = checkActions check (o.onCheckFailure check) := by
  simp [handleCheckEvents, handleCheckEvent]

/-- The policies call for nothing when all of them ignore the check. -/
theorem checkActions_eq_nil_iff (check : String) (es : List (String × OnExit)) :
    checkActions check es = [] ↔ ∀ e ∈ es, e.2 = .ignore := by
  induction es with
  | nil => simp [checkActions]
  | cons e es ih =>
    obtain ⟨name, action⟩ := e
    cases action <;> simp [checkActions, shutdown, ih]

/-- The policies end the daemon when one of them does. -/
theorem any_isFinish_checkActions (check : String) (es : List (String × OnExit)) :
    (checkActions check es).any Instr.isFinish = true ↔ ∃ e ∈ es, e.2.endsDaemon = true := by
  induction es with
  | nil => simp [checkActions]
  | cons e es ih =>
    obtain ⟨name, action⟩ := e
    cases action <;>
      simp only [checkActions, shutdown, List.any_cons, Instr.isFinish, ih,
        List.exists_mem_cons_iff, OnExit.endsDaemon, Bool.or_true, Bool.true_or, Bool.false_or,
        List.any_nil, true_or, false_or, reduceCtorEq]

/-- Two reports that a check is down lead to the actions once where the first ends the daemon, and
twice otherwise. -/
theorem handleCheckEvents_down_down (check : String) :
    o.handleCheckEvents check [.down, .down] = checkActions check (o.onCheckFailure check) ↔
      (∀ e ∈ o.onCheckFailure check, e.2 = .ignore) ∨
        ∃ e ∈ o.onCheckFailure check, e.2.endsDaemon = true := by
  rw [← checkActions_eq_nil_iff check, ← any_isFinish_checkActions check]
  simp only [handleCheckEvents, handleCheckEvent, if_true]
  split_ifs with h
  · simp [h]
  · simp [h]

/-- After the first run every turn is as the policies say. -/
theorem isDue_watch_of_firstRun_eq_false (a : Check.Actor) (h : a.firstRun = false)
    (probes : List Bool) : ∀ t ∈ o.watch a probes, t.IsDue o a.name := by
  induction probes generalizing a with
  | nil => simp [watch]
  | cons ok rest ih =>
    have hhead : Turn.IsDue o a.name ⟨a.goesDown ok, o.handleCheckEvents a.name (a.tick ok).2⟩ := by
      unfold Turn.IsDue
      rw [a.tick_of_firstRun_eq_false h]
      cases hd : a.goesDown ok with
      | true => simp
      | false =>
        refine o.handleCheckEvents_eq_nil ?_
        simp only [Bool.false_eq_true, if_false]
        split_ifs <;> simp
    have htail := ih (a.tick ok).1 (a.firstRun_tick ok)
    rw [a.name_tick] at htail
    intro t ht
    rw [watch] at ht
    rcases List.mem_cons.mp ht with rfl | ht
    · exact hhead
    · split_ifs at ht with hfin
      · cases ht
      · exact htail t ht

/-- The first turn is as the policies say unless the probe fails and, on a check that is down, a
policy calls for something, or on one that goes down, the policies call for something that does not
end the daemon. -/
theorem isDue_first_iff (a : Check.Actor) (h : a.firstRun = true) (ok : Bool) :
    Turn.IsDue o a.name ⟨a.goesDown ok, o.handleCheckEvents a.name (a.tick ok).2⟩ ↔
      (∀ e ∈ o.onCheckFailure a.name, e.2 = .ignore) ∨ ok = true ∨
        a.status = .up ∧ (a.failures + 1 < a.threshold ∨
          ∃ e ∈ o.onCheckFailure a.name, e.2.endsDaemon = true) := by
  unfold Turn.IsDue
  cases ok with
  | true => simp [o.handleCheckEvents_eq_nil a.down_notMem_tick_true]
  | false =>
    rw [a.tick_false_of_firstRun h]
    by_cases hd : a.goesDown false = true
    · -- The check goes down, and the overlord hears of it twice.
      obtain ⟨ht, hs⟩ := of_decide_eq_true (a.goesDown_false ▸ hd)
      have hlt : ¬a.failures + 1 < a.threshold := UInt32.not_lt.mpr ht
      simp only [hd, if_true, handleCheckEvents_down_down, hs, hlt, Bool.false_eq_true, false_or,
        true_and]
    · have hnd := of_decide_eq_false (a.goesDown_false ▸ Bool.eq_false_iff.mpr hd)
      rw [if_neg hd, if_neg hd]
      cases hs : a.status with
      | up =>
        have hlt : a.failures + 1 < a.threshold :=
          UInt32.not_le.mp fun hle => hnd ⟨hle, hs⟩
        simp [hlt, handleCheckEvents, handleCheckEvent]
      | down =>
        rw [← checkActions_eq_nil_iff a.name]
        simp

/-- The overlord acts once on each time a check goes down, and at no other time, exactly when all
policies on the check ignore it, or the actor's first probe does not fail, or the check is up when
its actor starts and its first failure does not take it down or ends the daemon. -/
theorem isDue_watch_iff (name : String) (config : CheckConfig) (initialStatus : CheckStatus)
    (probes : List Bool) :
    (∀ t ∈ o.watch (.start name config initialStatus) probes, t.IsDue o name) ↔
      (∀ e ∈ o.onCheckFailure name, e.2 = .ignore) ∨ probes.head? ≠ some false ∨
        initialStatus = .up ∧ (1 < config.threshold.getD Check.defaultThreshold ∨
          ∃ e ∈ o.onCheckFailure name, e.2.endsDaemon = true) := by
  cases probes with
  | nil => simp [watch]
  | cons ok rest =>
    set a : Check.Actor := .start name config initialStatus with ha
    have hfirst := o.isDue_first_iff a rfl ok
    have hrest := o.isDue_watch_of_firstRun_eq_false (a.tick ok).1 (a.firstRun_tick ok) rest
    rw [a.name_tick] at hrest
    have hsplit : (∀ t ∈ o.watch a (ok :: rest), t.IsDue o name) ↔
        Turn.IsDue o name ⟨a.goesDown ok, o.handleCheckEvents name (a.tick ok).2⟩ := by
      rw [watch, List.forall_mem_cons]
      refine and_iff_left ?_
      split_ifs
      · simp
      · exact hrest
    rw [hsplit]
    refine hfirst.trans ?_
    cases ok <;> simp [ha, Check.Actor.start]

/-- The plan of one service that a failure of the check `c` restarts. -/
def restartedPlan : Plan where
  services := ⟨[("a", { onCheckFailure := ⟨[("c", .restart)], by decide⟩ })], by decide⟩

/-- A check with the threshold one goes down with its first probe, and the service is restarted
twice. An actor that a reload has started for a check that is down restarts the service when its
first probe fails, although the check has been down all the time. -/
theorem exists_not_isDue_watch :
    (¬∀ t ∈ watch { plan := restartedPlan } (.start "c" { threshold := some 1 } .up) [false],
        t.IsDue { plan := restartedPlan } "c") ∧
      ¬∀ t ∈ watch { plan := restartedPlan } (.start "c" {} .down) [false],
        t.IsDue { plan := restartedPlan } "c" := by
  unfold Turn.IsDue
  decide +kernel

end Overlord

end Vigil
