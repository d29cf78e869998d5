import Vigil.Overlord.Reports

/-!
# The stop cascade and restarts

An actor that restarts its service reports `Inactive` on the way, and for that report the overlord
stops what requires the service, as for any other. So a restart takes the running dependents down,
and only where none is running as far as the overlord knows (`Daemon.Spared`) it does not
(`Daemon.spared_of_reaches`).
-/

namespace Vigil

open Actor (Input)

namespace Actor

/-- What the mark of a transition says: the service is being stopped for a restart, and the process
that is spawned next is spawned. -/
theorem of_transition_ofRestart {a : Actor} {inp : Input} {st : ServiceState}
    (h : .transition st true ∈ a.script inp) :
    st = .inactive ∧ a.state = .stopping ∧ a.pendingRestart = true ∧
      ∃ success ok, inp = .childExit success ok ∧ a.canSpawn ok = true := by
  have hstart : ∀ {onOk onErr : List Instr} {ok : Bool}, .transition st true ∉ onOk →
      .transition st true ∉ onErr → .transition st true ∉ a.doStart ok onOk onErr := by
    intro onOk onErr ok hok herr hm
    unfold doStart at hm
    split_ifs at hm
    · simp [hok] at hm
    · simp [herr] at hm
  have hhandle : ∀ ok, .transition st true ∉ a.handleStart ok := by
    intro ok hm
    unfold handleStart at hm
    split_ifs at hm
    · simp at hm
    · simp at hm
    · rcases List.mem_cons.mp hm with heq | hm
      · cases heq
      · exact hstart (by simp) (by simp) hm
  cases inp with
  | cmd c ok =>
    cases c with
    | start => exact (hhandle ok h).elim
    | stop =>
      simp only [script, handleStop] at h
      cases hs : a.state <;> simp [hs] at h
    | restart =>
      simp only [script, handleRestart] at h
      split_ifs at h
      · simp at h
      · exact (hhandle ok h).elim
    | status => cases h
    | forwardSignal sig => simp [script] at h
    | shutdown =>
      simp only [script, cleanup] at h
      split_ifs at h <;> simp at h
  | killDeadline =>
    simp only [script, handleKillDeadline] at h
    split_ifs at h <;> simp at h
  | backoffExpired ok =>
    rcases List.mem_cons.mp h with heq | h
    · cases heq
    · exact (hstart (by simp) (by simp) h).elim
  | childExit success ok =>
    simp only [script, handleChildExit, List.mem_cons, reduceCtorEq, false_or] at h
    split_ifs at h with hs hp
    · rcases List.mem_cons.mp h with heq | h
      · obtain ⟨rfl, hok⟩ := Instr.transition.inj heq
        exact ⟨rfl, hs, hp, success, ok, rfl, hok.symm⟩
      · simp only [List.mem_cons, reduceCtorEq, false_or, Instr.transition.injEq,
          Bool.true_eq_false, and_false] at h
        exact (hstart (by simp) (by simp) h).elim
    · simp at h
    · simp only [applyExitPolicy] at h
      repeat' split at h
      all_goals simp at h

end Actor

/-- The reason is a report of a service that is being restarted. -/
def Reason.ofRestart : Reason → Bool
  | .cascade _ r => r
  | _ => false

namespace Overlord

/-- A stop that is about to be sent because a service is being restarted. -/
def Instr.isRestartCascade : Instr → Bool
  | .request _ .stop why => why.ofRestart
  | .sendTo _ _ .stop why => why.ofRestart
  | _ => false

/-- The end of the daemon cascades to no service. -/
theorem isRestartCascade_shutdown (code : Option ℤ) :
    ∀ i ∈ shutdown code, i.isRestartCascade = false := by
  exact forall_mem_shutdown.mpr ⟨rfl, rfl, rfl⟩

/-- No action of a command restarts a service for one that it requires. -/
theorem isRestartCascade_handleCmd (o : Overlord) (c : Cmd) :
    ∀ i ∈ o.handleCmd c, i.isRestartCascade = false := by
  intro i hi
  cases cmdInstr_of_mem hi with
  | @request name c => cases c <;> rfl
  | _ => rfl

/-- A failed check cascades to no service. -/
theorem isRestartCascade_handleCheckEvent (o : Overlord) (check : String) (status : CheckStatus) :
    ∀ i ∈ o.handleCheckEvent check status, i.isRestartCascade = false := by
  intro i hi
  cases checkInstr_of_mem hi <;> rfl

/-- A report asks for no stop on account of a restart, unless it is of a restart and a service that
requires the reporting one is running. -/
theorem isRestartCascade_handleSvcEvent (o : Overlord) (ev : Event)
    (h : ev.ofRestart = true → ∀ st, ev.kind = .stateChanged st →
      (o.noted ev st).runningDependents ev.service = []) :
    ∀ i ∈ (o.handleSvcEvent ev).2, i.isRestartCascade = false := by
  have hstep := o.eventStep ev
  generalize (o.handleSvcEvent ev).1 = o', (o.handleSvcEvent ev).2 = is at hstep
  intro i hi
  cases hstep with
  | started hk hr => obtain ⟨name, -, rfl⟩ := List.mem_map.mp hi; rfl
  | @stopped st hk hs =>
    obtain ⟨name, hname, rfl⟩ := List.mem_map.mp hi
    cases hr : ev.ofRestart with
    | false => rfl
    | true => rw [h hr st hk] at hname; cases hname
  | passed | exited => exact absurd hi List.not_mem_nil
  | shutdown hk => exact isRestartCascade_shutdown _ i hi

end Overlord

namespace Daemon

open Runs Overlord

variable {s s' : Daemon} {l : Label}

/-- When the overlord handles a report of a service that is being restarted, none of the services
that require it is running as far as the overlord knows. -/
def Spared (s : Daemon) : Label → Prop
  | .event => ∀ ev ∈ s.events.head?, ev.ofRestart = true → ∀ st ∈ ev.kind.state?,
    (s.overlord.noted ev st).runningDependents ev.service = []
  | _ => True

instance (l : Label) : Decidable (s.Spared l) := by
  unfold Spared
  split <;> infer_instance

/-- No stop has been sent, and none is about to be, on account of a restart. -/
structure Unharmed (s : Daemon) : Prop where
  todo : ∀ i ∈ s.todo, i.isRestartCascade = false
  log : ∀ name id x r, .sent name id .stop (.cascade x r) ∈ s.log → r = false

/-- The services stay unharmed in the next action of the overlord's handler. -/
theorem Unharmed.step_overlord (H : s.Unharmed) {load : Option Plan} {i : Overlord.Instr}
    {rest : List Overlord.Instr} (htodo : s.todo = i :: rest) (h : OverlordStep s load i rest s') :
    s'.Unharmed := by
  have hi := H.todo i (htodo ▸ List.mem_cons_self)
  have hrest : ∀ j ∈ rest, j.isRestartCascade = false := fun j hj =>
    H.todo j (htodo ▸ List.mem_cons_of_mem _ hj)
  cases h with
  | unknown | await | enable | reloadFailed | stopAll | join => exact ⟨hrest, H.log⟩
  | @request name c why rest e he =>
    refine ⟨fun j hj => ?_, H.log⟩
    rcases List.mem_cons.mp hj with rfl | hj
    · rw [← hi]
      cases c <;> rfl
    · rcases List.mem_cons.mp hj with rfl | hj
      · rfl
      · exact hrest j hj
  | @sendTo name id c why rest slot slot' hs hp =>
    refine ⟨hrest, fun name' id' x r hm => ?_⟩
    rcases List.mem_cons.mp hm with heq | hm
    · obtain ⟨rfl, rfl, rfl, rfl⟩ := Entry.sent.inj heq
      exact hi
    · exact H.log name' id' x r hm
  | @reload rest plan hl =>
    refine ⟨fun j hj => ?_, fun name id x r hm => ?_⟩
    · rcases List.mem_append.mp hj with hj | hj
      · rcases s.overlord.reloadInstr_of_mem hj with ⟨e, -, rfl⟩ | ⟨name, rfl⟩ <;> rfl
      · exact hrest j hj
    · rcases List.mem_cons.mp hm with heq | hm
      · cases heq
      · exact H.log name id x r hm
  | finish =>
    refine ⟨List.forall_mem_nil _, fun name id x r hm => ?_⟩
    rcases List.mem_cons.mp hm with heq | hm
    · cases heq
    · exact H.log name id x r hm

/-- Every step that meets the condition sends no stop on account of a restart. -/
theorem Unharmed.step (H : s.Unharmed) (hG : s.Spared l) (h : s.step l = some s') :
    s'.Unharmed := by
  cases handlerStep h with
  | same _ ht hlog => exact ⟨ht ▸ H.todo, hlog ▸ H.log⟩
  | @command c => exact ⟨s.overlord.isRestartCascade_handleCmd c, H.log⟩
  | @check name status =>
    exact ⟨s.overlord.isRestartCascade_handleCheckEvent name status, H.log⟩
  | @event ev rest _ he =>
    have hspared := hG ev (by rw [he]; rfl)
    refine ⟨s.overlord.isRestartCascade_handleSvcEvent ev fun hr st hk => hspared hr st ?_,
      fun name id x r hm => ?_⟩
    · rw [hk]; rfl
    rcases List.mem_cons.mp hm with heq | hm
    · cases heq
    · exact H.log name id x r hm
  | overlord htodo hstep => exact H.step_overlord htodo hstep

/-- Where the condition is not met, a stop of a dependent is about to be sent on account of the
restart. -/
theorem exists_request_of_not_spared (hG : ¬s.Spared l) (h : s.step l = some s')
    (hkind : ∀ ev ∈ s.events.head?, ev.ofRestart = true → ev.kind = .stateChanged .inactive) :
    ∃ name x, .request name .stop (.cascade x true) ∈ s'.todo := by
  cases l with
  | event =>
    obtain ⟨-, ev, rest, he, rfl⟩ := step_event h
    simp only [Spared, he, List.head?_cons, Option.mem_def, Option.some.injEq, forall_eq'] at hG
    push Not at hG
    obtain ⟨hr, st, hst, hne⟩ := hG
    have hk := hkind ev (by rw [he]; rfl) hr
    rw [hk] at hst
    obtain rfl : ServiceState.inactive = st := Option.some.inj hst
    obtain ⟨name, hname⟩ := List.exists_mem_of_ne_nil _ hne
    have hstep := s.overlord.eventStep ev
    dsimp only
    generalize (s.overlord.handleSvcEvent ev).1 = o', (s.overlord.handleSvcEvent ev).2 = is
      at hstep ⊢
    refine ⟨name, ev.service, ?_⟩
    cases hstep with
    | started hk'' hrun => rw [hk] at hk''; cases hk''; cases hrun
    | stopped hk'' hs =>
      rw [hk] at hk''
      cases hk''
      rw [hr]
      exact List.mem_map.mpr ⟨name, hname, rfl⟩
    | passed hk'' hs =>
      rw [hk] at hk''
      cases hk''
      rcases hs with hs | hs <;> cases hs
    | exited hk'' => rw [hk] at hk''; cases hk''
    | shutdown hk'' => rw [hk] at hk''; cases hk''
  | _ => exact (hG trivial).elim

/-- A plan with a database and a server that requires it. -/
def requiringPlan : Plan where
  services := (IndexMap.insert ∅ "db" { command := some "/bin/db", startup := .enabled }).insert
    "web" { command := some "/bin/web", startup := .enabled, requires := ["db"] }

/-- The start of the daemon with the plan: the server is started when the database is starting. -/
def requiringLabels : List Label :=
  startLabels 0 ++ .event :: startLabels 1 ++ [.event, .event, .event]

end Daemon

end Vigil
