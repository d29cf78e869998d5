import Vigil.Lib.IndexMap
import Vigil.Lib.Runs

/-!
# The reaper

`reaper.rs`: the task that collects whatever process has exited, and `wait_child`, which waits for a
child through tokio and looks for its status among those that the reaper has collected if tokio
finds the child gone. tokio waits for a process by its id. So do its waits for the children that
have been dropped. The kernel may give an id to a new process as soon as the old one is collected.

The record of statuses goes by the id alone, too. `attributed_of_reaches` says that every status is
the child's own if no two processes with one id meet: if the reaper finds no status recorded under
the id of an awaited child that it collects, and no earlier child with the id is awaited still, and
if tokio's waits meet no process but their own. `not_attributed_of_reuse` is a run in which a child
gets the status of an orphan.
-/

namespace Vigil

open Runs

/-- The number of a signal. -/
abbrev SignalNumber := { n : ℕ // 1 ≤ n ∧ n ≤ 64 }

/-- How a process has ended. -/
inductive WaitStatus
  | exited (code : UInt8)
  | signaled (signal : SignalNumber) (core : Bool)
  deriving DecidableEq

namespace WaitStatus

/-- The raw status that the kernel gives out. -/
def kernelRaw : WaitStatus → ℕ
  | exited code => code.toNat * 256
  | signaled signal core => signal.1 + if core then 128 else 0

/-- `nix`'s `waitpid` reports the status. It knows no real-time signals, and returns an error. -/
def reported : WaitStatus → Bool
  | exited _ => true
  | signaled signal _ => signal.1 ≤ 31

/-- The raw status that `record_reaped` makes. -/
def recordRaw : WaitStatus → ℕ
  | exited code => (code.toNat &&& 0xff) <<< 8
  | signaled signal core => signal.1 ||| if core then 0x80 else 0

end WaitStatus

/-! ## `ExitStatus` of the standard library -/

/-- `code`. -/
def exitCode (raw : ℕ) : Option ℕ := if raw &&& 0x7f = 0 then some ((raw >>> 8) &&& 0xff) else none

/-- The process was killed by a signal. -/
def wasSignaled (raw : ℕ) : Bool := 1 ≤ (raw &&& 0x7f) && (raw &&& 0x7f) ≤ 126

/-- `signal`. -/
def exitSignal (raw : ℕ) : Option ℕ := if wasSignaled raw then some (raw &&& 0x7f) else none

/-- `core_dumped`. -/
def coreDumped (raw : ℕ) : Bool := wasSignaled raw && raw &&& 0x80 ≠ 0

/-- Decoding a raw status gives the exit code, or the signal and the core flag. -/
def WaitStatus.DecodedFrom (raw : ℕ) : WaitStatus → Prop
  | exited code => exitCode raw = some code.toNat ∧ exitSignal raw = none
  | signaled signal core =>
    exitCode raw = none ∧ exitSignal raw = some signal.1 ∧ coreDumped raw = core

/-- Decoding the kernel's raw status gives the status back. -/
theorem WaitStatus.decodedFrom_kernelRaw (status : WaitStatus) :
    status.DecodedFrom status.kernelRaw := by
  cases status with
  | exited code =>
    have hall : ∀ n < 256, exitCode (n * 256) = some n ∧ exitSignal (n * 256) = none := by
      decide +kernel
    exact hall _ code.toNat_lt
  | signaled signal core =>
    have hall : ∀ n < 65, 1 ≤ n → ∀ core : Bool, exitCode (n + if core then 128 else 0) = none ∧
        exitSignal (n + if core then 128 else 0) = some n ∧
          coreDumped (n + if core then 128 else 0) = core := by decide +kernel
    exact hall _ (Nat.lt_succ_of_le signal.2.2) signal.2.1 core

/-- The reaper's raw status is the kernel's. -/
theorem WaitStatus.recordRaw_eq (status : WaitStatus) : status.recordRaw = status.kernelRaw := by
  cases status with
  | exited code =>
    have hall : ∀ n < 256, (n &&& 0xff) <<< 8 = n * 256 := by decide +kernel
    exact hall _ code.toNat_lt
  | signaled signal core =>
    have hall : ∀ n < 65, ∀ core : Bool, (n ||| if core then 0x80 else 0) =
        n + if core then 128 else 0 := by decide +kernel
    exact hall _ (Nat.lt_succ_of_le signal.2.2) core

/-! ## The processes and the record -/

/-- What `wait_child` is doing for a child. -/
inductive Waiting
  /-- Nobody waits for the process. -/
  | nobody
  /-- `child.wait()`. -/
  | waiting
  /-- The loop after `ECHILD`, and when it looks next. -/
  | looking (deadline wakeAt : ℕ)
  /-- `Ok` with the raw status, or an error. -/
  | returned (result : Option ℕ)
  deriving DecidableEq

/-- What tokio knows of a process. -/
inductive TokioChild
  /-- Nothing. -/
  | unknown
  /-- A child that it has not waited for with success. -/
  | child
  /-- The child's status. -/
  | done
  /-- A dropped child that it still waits for. -/
  | orphan
  deriving DecidableEq

/-- A process whose parent vigild is or has been. -/
structure Proc where
  pid : ℕ
  /-- How it has ended. -/
  status : Option WaitStatus := none
  /-- A `waitpid` has returned its status, and the kernel has forgotten it. -/
  collected : Bool := false
  waiting : Waiting
  tokio : TokioChild
  deriving DecidableEq

/-- A `wait_child` for the process has not returned for the last time. -/
def Proc.awaited (p : Proc) : Bool :=
  match p.waiting with
  | .waiting | .looking _ _ => true
  | _ => false

/-- The loop of `wait_child` runs for a child that is awaited. -/
theorem Proc.awaited_of_looking {p : Proc} {d w : ℕ} (h : p.waiting = .looking d w) :
    p.awaited = true := by
  rw [Proc.awaited, h]

/-- A child that is dropped. tokio waits for its id on, unless it has the status itself. -/
def Proc.dropped (p : Proc) : Proc :=
  { p with
    waiting := if p.awaited then .nobody else p.waiting
    tokio := if p.tokio = .child then .orphan else .unknown }

/-- A child that is dropped is not awaited. -/
theorem Proc.awaited_dropped (p : Proc) : p.dropped.awaited = false := by
  cases h : p.waiting <;> simp [Proc.dropped, Proc.awaited, h]

/-- The processes, the reaper's task, and its record. -/
structure Reaper where
  now : ℕ := 0
  procs : List Proc := []
  /-- What `waitpid` has returned and `record_reaped` is about to record. -/
  holding : Option (ℕ × WaitStatus) := none
  /-- The time and the raw status for each process id. -/
  record : IndexMap ℕ (ℕ × ℕ) := ∅

/-- What happens. -/
inductive ReaperLabel
  /-- A process is spawned, or an orphan is reparented. -/
  | spawn (pid : ℕ) (child : Bool)
  | exit (i : ℕ) (status : WaitStatus)
  /-- The reaper's `waitpid` returns a process. -/
  | reap (i : ℕ)
  /-- `record_reaped`. -/
  | record
  /-- tokio's wait for a child is polled. -/
  | poll (i : ℕ)
  /-- The loop of `wait_child` looks. -/
  | look (i : ℕ)
  /-- The call of `wait_child` is dropped, and there will be another one. -/
  | cancel (i : ℕ)
  /-- The child is dropped. -/
  | drop (i : ℕ)
  /-- tokio waits for a dropped child. -/
  | orphan (i : ℕ)
  | tick (ms : ℕ)

namespace Reaper

/-- `REAPED_KEEP`, in milliseconds. -/
def reapedKeepMs : ℕ := 60000

/-- `REAPED_LOOKUP`, in milliseconds. -/
def reapedLookupMs : ℕ := 200

variable (s : Reaper)

/-- A process with its new state. -/
def modify (i : ℕ) (f : Proc → Proc) : Reaper := { s with procs := s.procs.modify i f }

/-- The process that `waitpid` finds under an id. -/
def find (pid : ℕ) : Option ℕ := s.procs.findIdx? fun p => p.pid = pid && !p.collected

/-- `waitpid(pid, WNOHANG)`. -/
inductive Found
  /-- `ECHILD`. -/
  | echild
  | stillAlive
  | ended (k : ℕ) (status : WaitStatus)

/-- What `waitpid` finds under an id. -/
def waitpid (pid : ℕ) : Found :=
  match s.find pid with
  | none => .echild
  | some k =>
    match s.procs[k]?.bind Proc.status with
    | none => .stillAlive
    | some status => .ended k status

/-- `record_reaped`. -/
def recordReaped (pid : ℕ) (status : WaitStatus) : IndexMap ℕ (ℕ × ℕ) :=
  (s.record.filter fun e => s.now - e.2.1 < reapedKeepMs).insert pid (s.now, status.recordRaw)

/-- A process of vigild's. -/
def newProc (pid : ℕ) (child : Bool) : Proc where
  pid
  waiting := if child then .waiting else .nobody
  tokio := if child then .child else .unknown

/-- One step. -/
def step : ReaperLabel → Option Reaper
  | .spawn pid child =>
    -- The kernel gives out no id that is in use.
    if s.find pid = none then some { s with procs := s.procs ++ [newProc pid child] } else none
  | .exit i status => do
    let p ← s.procs[i]?
    if p.status = none then some (s.modify i fun p => { p with status := some status }) else none
  | .reap i => do
    let p ← s.procs[i]?
    let status ← p.status
    if s.holding = none ∧ p.collected = false then
      some { s.modify i fun p => { p with collected := true } with
        holding := if status.reported then some (p.pid, status) else none }
    else none
  | .record => do
    let (pid, status) ← s.holding
    some { s with holding := none, record := s.recordReaped pid status }
  | .poll i => do
    let p ← s.procs[i]?
    if p.waiting = .waiting then
      match s.waitpid p.pid with
      | .echild =>
        some (s.modify i fun p => { p with waiting := .looking (s.now + reapedLookupMs) s.now })
      | .stillAlive => some s
      | .ended k status =>
        some ((s.modify k fun p => { p with collected := true }).modify i fun p =>
          { p with waiting := .returned (some status.kernelRaw), tokio := .done })
    else none
  | .look i => do
    let p ← s.procs[i]?
    match p.waiting with
    | .looking deadline wakeAt =>
      if wakeAt ≤ s.now then
        match s.record.get? p.pid with
        | some (_, raw) =>
          some { s.modify i fun p => { p with waiting := .returned (some raw) } with
            record := s.record.shiftRemove p.pid }
        | none =>
          if deadline ≤ s.now then
            some (s.modify i fun p => { p with waiting := .returned none })
          else some (s.modify i fun p => { p with waiting := .looking deadline (s.now + 5) })
      else none
    | _ => none
  | .cancel i => do
    let p ← s.procs[i]?
    if p.awaited then some (s.modify i fun p => { p with waiting := .waiting }) else none
  | .drop i => do
    let p ← s.procs[i]?
    if p.tokio = .child ∨ p.tokio = .done then some (s.modify i Proc.dropped) else none
  | .orphan i => do
    let p ← s.procs[i]?
    if p.tokio = .orphan then
      match s.waitpid p.pid with
      | .echild => some (s.modify i fun p => { p with tokio := .unknown })
      | .stillAlive => some s
      | .ended k _ =>
        some ((s.modify k fun p => { p with collected := true }).modify i fun p =>
          { p with tokio := .unknown })
    else none
  | .tick ms => some { s with now := s.now + ms }

/-- Every status that `wait_child` has returned is the child's own, and every recorded status
decodes to that of a process with its id. -/
def Attributed : Prop :=
  (∀ p ∈ s.procs, ∀ raw, p.waiting = .returned (some raw) →
    ∃ status, p.status = some status ∧ raw = status.kernelRaw ∧ status.DecodedFrom raw) ∧
  ∀ pid e, s.record.get? pid = some e →
    ∃ p ∈ s.procs, p.pid = pid ∧ ∃ status, p.status = some status ∧ status.DecodedFrom e.2

/-- A `waitpid` by id meets no process but the one that it is for. -/
def meetsOwn (i : ℕ) : Bool :=
  match s.procs[i]? with
  | some p =>
    match s.waitpid p.pid with
    | .ended k _ => k = i
    | _ => true
  | none => true

/-- The reaper may collect a process: if it is an awaited child, nothing is recorded under its id,
and no other child with its id is awaited. -/
def meetsNone (i : ℕ) : Bool :=
  match s.procs[i]? with
  | some p =>
    (!p.awaited || (s.record.get? p.pid).isNone) &&
      (s.procs.eraseIdx i).all fun q => !(q.awaited && q.pid = p.pid)
  | none => true

/-- The condition that no two processes with one id meet. -/
def Distinct (s : Reaper) (l : ReaperLabel) : Prop :=
  (match l with
    | .reap i => s.meetsNone i
    | .poll i | .orphan i => s.meetsOwn i
    | _ => true) = true

instance (l : ReaperLabel) : Decidable (Distinct s l) := inferInstanceAs (Decidable (_ = true))

end Reaper

/-! ## The invariant -/

/-- What is known of a process, of the record, and of the status that the reaper holds. -/
structure Proc.Ok (record : IndexMap ℕ (ℕ × ℕ)) (holding : Option (ℕ × WaitStatus)) (p : Proc) :
    Prop where
  /-- The loop of `wait_child` looks for a process that is gone. -/
  looking : ∀ d w, p.waiting = .looking d w → p.collected = true
  /-- What a loop finds is the process's own. -/
  recorded : p.awaited = true → p.collected = true → ∀ e, record.get? p.pid = some e →
    p.status.map WaitStatus.kernelRaw = some e.2
  held : p.awaited = true → p.collected = true → ∀ status, holding = some (p.pid, status) →
    p.status = some status
  returned : ∀ raw, p.waiting = .returned (some raw) →
    p.status.map WaitStatus.kernelRaw = some raw
  /-- No call of `wait_child` is left for a dropped child. -/
  orphan : p.tokio = .orphan → p.awaited = false

/-- A process with that id and that status. -/
def Ended (procs : List Proc) (pid : ℕ) (status : WaitStatus) : Prop :=
  ∃ p ∈ procs, p.pid = pid ∧ p.status = some status

namespace Reaper

/-- The invariant. -/
structure Inv (s : Reaper) : Prop where
  procs : ∀ p ∈ s.procs, p.Ok s.record s.holding
  record : ∀ pid e, s.record.get? pid = some e →
    ∃ status, Ended s.procs pid status ∧ e.2 = status.kernelRaw
  holding : ∀ pid status, s.holding = some (pid, status) → Ended s.procs pid status

/-- What holds of all processes holds of them after one has changed. -/
theorem forall_mem_modify {P : Proc → Prop} {l : List Proc} {i : ℕ} {f : Proc → Proc}
    (h : ∀ j p, l[j]? = some p → j ≠ i → P p) (hf : ∀ p, l[i]? = some p → P (f p)) :
    ∀ p ∈ l.modify i f, P p := by
  intro p hp
  obtain ⟨j, hj⟩ := List.mem_iff_getElem?.mp hp
  by_cases hij : i = j
  · subst hij
    obtain ⟨q, hq, rfl⟩ := Option.map_eq_some_iff.mp (by simpa using hj)
    exact hf q hq
  · exact h j p (by simpa [List.getElem?_modify, hij] using hj) (Ne.symm hij)

/-- A process that has ended has ended after a change that keeps ids and statuses. -/
theorem ended_modify {l : List Proc} {i pid : ℕ} {status : WaitStatus} {f : Proc → Proc}
    (h : Ended l pid status)
    (hf : ∀ p, l[i]? = some p → (f p).pid = p.pid ∧ (p.status ≠ none → (f p).status = p.status)) :
    Ended (l.modify i f) pid status := by
  obtain ⟨p, hp, hpid, hstatus⟩ := h
  obtain ⟨j, hj⟩ := List.mem_iff_getElem?.mp hp
  by_cases hij : i = j
  · subst hij
    obtain ⟨hpid', hstatus'⟩ := hf p hj
    refine ⟨f p, List.mem_iff_getElem?.mpr ⟨i, by simp [hj]⟩, hpid'.trans hpid, ?_⟩
    rw [hstatus' (by simp [hstatus]), hstatus]
  · exact ⟨p, List.mem_iff_getElem?.mpr ⟨j, by simp [hij, hj]⟩, hpid, hstatus⟩

variable {s s' : Reaper}

/-- Fewer recorded statuses, and no other held one, leave a process as it is. -/
theorem ok_mono {record record' : IndexMap ℕ (ℕ × ℕ)} {holding : Option (ℕ × WaitStatus)} {p : Proc}
    (h : p.Ok record holding)
    (hrecord : ∀ pid e, record'.get? pid = some e → record.get? pid = some e) :
    p.Ok record' holding :=
  { h with recorded := fun ha hc e he => h.recorded ha hc e (hrecord _ _ he) }

/-- A change of one process keeps the invariant if the process keeps its id, its status, and what is
known of it. -/
theorem Inv.modify (h : s.Inv) {i : ℕ} {f : Proc → Proc}
    (hf : ∀ p : Proc, s.procs[i]? = some p → p.Ok s.record s.holding → (f p).pid = p.pid ∧
      (p.status ≠ none → (f p).status = p.status) ∧ (f p).Ok s.record s.holding) :
    (s.modify i f).Inv := by
  have hok : ∀ (j : ℕ) (p : Proc), s.procs[j]? = some p → p.Ok s.record s.holding := fun j p hj =>
    h.procs p (List.mem_of_getElem? hj)
  have hkeep : ∀ p, s.procs[i]? = some p →
      (f p).pid = p.pid ∧ (p.status ≠ none → (f p).status = p.status) := fun p hp =>
    ⟨(hf p hp (hok i p hp)).1, (hf p hp (hok i p hp)).2.1⟩
  refine ⟨forall_mem_modify (fun j p hj _ => hok j p hj) fun p hp => (hf p hp (hok i p hp)).2.2,
    fun pid e he => ?_, fun pid status hs => ended_modify (h.holding pid status hs) hkeep⟩
  obtain ⟨status, hended, hraw⟩ := h.record pid e he
  exact ⟨status, ended_modify hended hkeep, hraw⟩

/-- The invariant is kept when a process is spawned. -/
theorem Inv.spawn (h : s.Inv) (pid : ℕ) (child : Bool) :
    Inv { s with procs := s.procs ++ [newProc pid child] } := by
  have hmono : ∀ {q status}, Ended s.procs q status →
      Ended (s.procs ++ [newProc pid child]) q status := fun ⟨p, hp, h'⟩ =>
    ⟨p, List.mem_append_left _ hp, h'⟩
  refine ⟨List.forall_mem_append.mpr ⟨h.procs, List.forall_mem_singleton.mpr ?_⟩,
    fun q e he => ?_, fun q status hs => hmono (h.holding q status hs)⟩
  · cases child <;> exact ⟨nofun, nofun, nofun, nofun, nofun⟩
  · obtain ⟨status, hended, hraw⟩ := h.record q e he
    exact ⟨status, hmono hended, hraw⟩

/-- After `record_reaped` the record has the status of the process, and otherwise what it had. -/
theorem get?_recordReaped {pid q : ℕ} {status : WaitStatus} {e : ℕ × ℕ}
    (he : (s.recordReaped pid status).get? q = some e) :
    (q = pid ∧ e.2 = status.kernelRaw) ∨ (q ≠ pid ∧ s.record.get? q = some e) := by
  rw [recordReaped, IndexMap.get?_insert] at he
  split_ifs at he with hq
  · obtain rfl := Option.some.inj he
    exact .inl ⟨hq, status.recordRaw_eq⟩
  · rw [IndexMap.get?_filter] at he
    exact .inr ⟨hq, (Option.filter_eq_some_iff.mp he).1⟩

/-- The invariant is kept when the reaper records what it holds. -/
theorem Inv.recordReaped (h : s.Inv) {pid : ℕ} {status : WaitStatus}
    (hs : s.holding = some (pid, status)) :
    Inv { s with holding := none, record := s.recordReaped pid status } := by
  refine ⟨fun p hp => ?_, fun q e he => ?_, nofun⟩
  · have hok := h.procs p hp
    refine { hok with recorded := fun ha hc e he => ?_, held := nofun }
    rcases get?_recordReaped he with ⟨hq, hraw⟩ | ⟨-, he⟩
    · rw [hok.held ha hc status (by rw [hs, hq]), hraw]
      rfl
    · exact hok.recorded ha hc e he
  · rcases get?_recordReaped he with ⟨rfl, hraw⟩ | ⟨-, he⟩
    · exact ⟨status, h.holding q status hs, hraw⟩
    · exact h.record q e he

/-- The invariant is kept when the reaper collects a process whose id meets no other one. -/
theorem Inv.reap (h : s.Inv) {i : ℕ} {p : Proc} {status : WaitStatus}
    (hp : s.procs[i]? = some p) (hstatus : p.status = some status) (hG : s.meetsNone i = true) :
    Inv { s.modify i fun p => { p with collected := true } with
      holding := if status.reported then some (p.pid, status) else none } := by
  have hkeep : ∀ {pid st}, Ended s.procs pid st →
      Ended (s.procs.modify i fun p => { p with collected := true }) pid st :=
    fun h => ended_modify h fun _ _ => ⟨rfl, fun _ => rfl⟩
  have hheld : ∀ {q st}, (if status.reported then some (p.pid, status) else none) = some (q, st) →
      q = p.pid ∧ st = status := fun h => by
    split_ifs at h
    obtain ⟨rfl, rfl⟩ := Prod.mk.inj (Option.some.inj h)
    exact ⟨rfl, rfl⟩
  unfold meetsNone at hG
  rw [hp, Bool.and_eq_true, List.all_eq_true] at hG
  obtain ⟨hnone, hothers⟩ := hG
  refine ⟨forall_mem_modify (fun j q hj hne => ?_) fun q hq => ?_, fun q e he => ?_,
    fun q st hs => ?_⟩
  · -- No other child with the id is awaited.
    refine { h.procs q (List.mem_of_getElem? hj) with held := fun ha _ st hs => ?_ }
    have hq := hothers q (List.mem_eraseIdx_iff_getElem?.mpr ⟨j, hne, hj⟩)
    rw [ha, (hheld hs).1] at hq
    simp at hq
  · obtain rfl := Option.some.inj (hp.symm.trans hq)
    have hok := h.procs p (List.mem_of_getElem? hp)
    refine ⟨fun _ _ _ => rfl, fun ha _ e he => ?_, fun _ _ st hs => ?_, hok.returned, hok.orphan⟩
    · have ha' : p.awaited = true := ha
      have he' : s.record.get? p.pid = some e := he
      rw [ha', he'] at hnone
      simp at hnone
    · rw [(hheld hs).2]
      exact hstatus
  · obtain ⟨st, hended, hraw⟩ := h.record q e he
    exact ⟨st, hkeep hended, hraw⟩
  · obtain ⟨rfl, rfl⟩ := hheld hs
    exact hkeep ⟨p, List.mem_of_getElem? hp, rfl, hstatus⟩

/-- After `ECHILD`, no process with the id is left. -/
theorem collected_of_echild {pid : ℕ} (h : s.waitpid pid = .echild) :
    ∀ p ∈ s.procs, p.pid = pid → p.collected = true := by
  unfold waitpid at h
  split at h
  · next hfind =>
    intro p hp hpid
    simpa [hpid] using List.findIdx?_eq_none_iff.mp hfind p hp
  · split at h <;> cases h

/-- What `waitpid` returns is a status of the process that it finds. -/
theorem status_of_ended {pid k : ℕ} {status : WaitStatus} (h : s.waitpid pid = .ended k status) :
    s.procs[k]?.bind Proc.status = some status := by
  unfold waitpid at h
  split at h
  · cases h
  · split at h
    · cases h
    · next hstatus =>
      cases h
      exact hstatus

/-- tokio's wait for a child finds its own process, or none. -/
theorem eq_of_meetsOwn {i k : ℕ} {p : Proc} {status : WaitStatus} (h : s.meetsOwn i = true)
    (hp : s.procs[i]? = some p) (hk : s.waitpid p.pid = .ended k status) :
    k = i ∧ p.status = some status := by
  have hstatus := status_of_ended hk
  rw [meetsOwn, hp] at h
  simp only [hk, decide_eq_true_eq] at h
  subst h
  rw [hp] at hstatus
  exact ⟨rfl, hstatus⟩

/-- Two changes of one process are one. -/
theorem modify_modify (i : ℕ) (f g : Proc → Proc) :
    (s.modify i f).modify i g = s.modify i (g ∘ f) := by
  simp only [modify, List.modify_modify_eq]

/-- tokio's wait for a child is polled. -/
theorem Inv.poll (h : s.Inv) {i : ℕ} (hG : s.meetsOwn i = true)
    (hs : s.step (.poll i) = some s') : s'.Inv := by
  obtain ⟨p, hp, hs⟩ := Option.bind_eq_some_iff.mp hs
  split_ifs at hs with hw
  have hawaited : p.awaited = true := by rw [Proc.awaited, hw]
  split at hs
  · -- The loop begins, and the child is gone.
    next hchild =>
    obtain rfl := Option.some.inj hs
    refine h.modify fun q hq hok => ⟨rfl, fun _ => rfl, ?_⟩
    obtain rfl := Option.some.inj (hp.symm.trans hq)
    have hgone := collected_of_echild hchild p (List.mem_of_getElem? hp) rfl
    exact ⟨fun _ _ _ => hgone, fun _ => hok.recorded hawaited, fun _ => hok.held hawaited, nofun,
      fun ho => absurd (hok.orphan ho) (by simp [hawaited])⟩
  · obtain rfl := Option.some.inj hs
    exact h
  · next hended =>
    obtain ⟨rfl, hstatus⟩ := eq_of_meetsOwn hG hp hended
    obtain rfl := Option.some.inj hs
    rw [modify_modify]
    refine h.modify fun q hq hok => ⟨rfl, fun _ => rfl, nofun, nofun, nofun, fun raw hraw => ?_,
      nofun⟩
    obtain rfl := Option.some.inj (hp.symm.trans hq)
    cases hraw
    exact congrArg (Option.map WaitStatus.kernelRaw) hstatus

/-- The invariant is kept when the loop of `wait_child` looks. -/
theorem Inv.look (h : s.Inv) {i : ℕ} (hs : s.step (.look i) = some s') : s'.Inv := by
  obtain ⟨p, hp, hs⟩ := Option.bind_eq_some_iff.mp hs
  split at hs
  · next deadline wakeAt hw =>
    have hawaited := Proc.awaited_of_looking hw
    have hok := h.procs p (List.mem_of_getElem? hp)
    have hgone := hok.looking deadline wakeAt hw
    by_cases hwake : wakeAt ≤ s.now
    swap
    · rw [if_neg hwake] at hs
      cases hs
    rw [if_pos hwake] at hs
    split at hs
    · next e raw hfound =>
      obtain rfl := Option.some.inj hs
      -- The entry that is taken is the child's.
      have hsub : ∀ q e, (s.record.shiftRemove p.pid).get? q = some e →
          s.record.get? q = some e := fun q e he => by
        rw [IndexMap.get?_shiftRemove] at he
        split_ifs at he
        exact he
      have hmod : (s.modify i fun p => { p with waiting := .returned (some raw) }).Inv := by
        refine h.modify fun q hq hok => ⟨rfl, fun _ => rfl, nofun, nofun, nofun,
          fun raw' hraw => ?_, fun _ => rfl⟩
        obtain rfl := Option.some.inj (hp.symm.trans hq)
        cases hraw
        exact hok.recorded hawaited hgone _ hfound
      exact ⟨fun q hq => ok_mono (hmod.procs q hq) hsub,
        fun q e he => hmod.record q e (hsub q e he), hmod.holding⟩
    · split_ifs at hs with hdeadline
      · obtain rfl := Option.some.inj hs
        exact h.modify fun q hq hok => ⟨rfl, fun _ => rfl, nofun, nofun, nofun, nofun, fun _ => rfl⟩
      · obtain rfl := Option.some.inj hs
        refine h.modify fun q hq hok => ⟨rfl, fun _ => rfl, ?_⟩
        obtain rfl := Option.some.inj (hp.symm.trans hq)
        exact ⟨fun _ _ _ => hgone, fun _ => hok.recorded hawaited, fun _ => hok.held hawaited,
          nofun, fun ho => absurd (hok.orphan ho) (by simp [hawaited])⟩
  · cases hs

/-- The invariant is kept when a call of `wait_child` is dropped. -/
theorem Inv.cancel (h : s.Inv) {i : ℕ} (hs : s.step (.cancel i) = some s') : s'.Inv := by
  obtain ⟨p, hp, hs⟩ := Option.bind_eq_some_iff.mp hs
  split_ifs at hs with hawaited
  obtain rfl := Option.some.inj hs
  refine h.modify fun q hq hok => ⟨rfl, fun _ => rfl, ?_⟩
  obtain rfl := Option.some.inj (hp.symm.trans hq)
  exact ⟨nofun, fun _ => hok.recorded hawaited, fun _ => hok.held hawaited, nofun,
    fun ho => absurd (hok.orphan ho) (by simp [hawaited])⟩

/-- The invariant is kept when a child is dropped. -/
theorem Inv.drop (h : s.Inv) {i : ℕ} (hs : s.step (.drop i) = some s') : s'.Inv := by
  obtain ⟨p, hp, hs⟩ := Option.bind_eq_some_iff.mp hs
  split_ifs at hs with htokio
  obtain rfl := Option.some.inj hs
  refine h.modify fun q hq hok => ⟨rfl, fun _ => rfl, ?_⟩
  have hnot := q.awaited_dropped
  refine ⟨fun d w hw => ?_, fun ha => ?_, fun ha => ?_, fun raw hraw => ?_, fun _ => hnot⟩
  · rw [Proc.awaited_of_looking hw] at hnot
    cases hnot
  · rw [hnot] at ha
    cases ha
  · rw [hnot] at ha
    cases ha
  · change (if q.awaited then Waiting.nobody else q.waiting) = .returned (some raw) at hraw
    split_ifs at hraw
    exact hok.returned raw hraw

/-- The invariant is kept when tokio waits for a dropped child. -/
theorem Inv.orphan (h : s.Inv) {i : ℕ} (hG : s.meetsOwn i = true)
    (hs : s.step (.orphan i) = some s') : s'.Inv := by
  obtain ⟨p, hp, hs⟩ := Option.bind_eq_some_iff.mp hs
  split_ifs at hs with htokio
  split at hs
  · obtain rfl := Option.some.inj hs
    exact h.modify fun q hq hok => ⟨rfl, fun _ => rfl, hok.looking, hok.recorded, hok.held,
      hok.returned, nofun⟩
  · obtain rfl := Option.some.inj hs
    exact h
  · next hended =>
    obtain ⟨rfl, hstatus⟩ := eq_of_meetsOwn hG hp hended
    obtain rfl := Option.some.inj hs
    rw [modify_modify]
    refine h.modify fun q hq hok => ⟨rfl, fun _ => rfl, fun _ _ _ => rfl, fun ha => ?_,
      fun ha => ?_, hok.returned, nofun⟩
    all_goals
      obtain rfl := Option.some.inj (hp.symm.trans hq)
      exact absurd ha (by simpa [Proc.awaited] using hok.orphan htokio)

/-- The invariant is kept when a process exits. -/
theorem Inv.exit (h : s.Inv) {i : ℕ} {status : WaitStatus}
    (hs : s.step (.exit i status) = some s') : s'.Inv := by
  obtain ⟨p, hp, hs⟩ := Option.bind_eq_some_iff.mp hs
  split_ifs at hs with hrunning
  obtain rfl := Option.some.inj hs
  refine h.modify fun q hq hok => ?_
  obtain rfl := Option.some.inj (hp.symm.trans hq)
  -- Nothing is known yet of the status of a running process.
  have hnone : ∀ raw, p.status.map WaitStatus.kernelRaw ≠ some raw := fun raw => by simp [hrunning]
  refine ⟨rfl, fun hne => absurd hrunning hne, hok.looking, fun ha hc e he => ?_,
    fun ha hc st hst => ?_, fun raw hraw => ?_, hok.orphan⟩
  · exact absurd (hok.recorded ha hc e he) (hnone _)
  · have hsome := hok.held ha hc st hst
    rw [hrunning] at hsome
    cases hsome
  · exact absurd (hok.returned raw hraw) (hnone _)

/-- A step that meets the condition keeps the invariant. -/
theorem Inv.step (h : s.Inv) {l : ReaperLabel} (hG : Distinct s l) (hs : s.step l = some s') :
    s'.Inv := by
  cases l with
  | spawn pid child =>
    rw [Reaper.step] at hs
    split_ifs at hs
    obtain rfl := Option.some.inj hs
    exact h.spawn pid child
  | exit i status => exact h.exit hs
  | reap i =>
    obtain ⟨p, hp, hs⟩ := Option.bind_eq_some_iff.mp hs
    obtain ⟨status, hstatus, hs⟩ := Option.bind_eq_some_iff.mp hs
    obtain ⟨-, hs⟩ := Option.ite_none_right_eq_some.mp hs
    obtain rfl := Option.some.inj hs
    exact h.reap hp hstatus hG
  | record =>
    obtain ⟨⟨pid, status⟩, hholding, hs⟩ := Option.bind_eq_some_iff.mp hs
    obtain rfl := Option.some.inj hs
    exact h.recordReaped hholding
  | poll i => exact h.poll hG hs
  | look i => exact h.look hs
  | cancel i => exact h.cancel hs
  | drop i => exact h.drop hs
  | orphan i => exact h.orphan hG hs
  | tick ms =>
    obtain rfl := Option.some.inj hs
    exact ⟨h.procs, h.record, h.holding⟩

/-- At the start there is no process. -/
theorem inv_start : Inv {} := ⟨List.forall_mem_nil _, nofun, nofun⟩

/-- `wait_child` returns a child's own exit status, and every recorded status decodes to the exit
code, or the signal and the core flag, of a process with its id, as long as no two processes with
one id meet. -/
theorem attributed_of_reaches (h : Reaches Reaper.step Distinct {} s) : s.Attributed := by
  have hinv : s.Inv := h.invariant inv_start fun _ _ _ _ hi hG hs => hi.step hG hs
  refine ⟨fun p hp raw hraw => ?_, fun pid e he => ?_⟩
  · obtain ⟨status, hstatus, rfl⟩ :=
      Option.map_eq_some_iff.mp ((hinv.procs p hp).returned raw hraw)
    exact ⟨status, hstatus, rfl, status.decodedFrom_kernelRaw⟩
  · obtain ⟨status, ⟨p, hp, hpid, hstatus⟩, hraw⟩ := hinv.record pid e he
    exact ⟨p, hp, hpid, status, hstatus, hraw ▸ status.decodedFrom_kernelRaw⟩

/-- Two children and an orphan. The reaper is the first to collect one child, and tokio the other
one, whose status it has. The orphan has the id of the first child, after that one's status has been
taken from the record. -/
def shared : List ReaperLabel :=
  [.spawn 7 true, .spawn 8 true, .exit 0 (.signaled ⟨15, by decide⟩ true), .exit 1 (.exited 3),
    .reap 0, .poll 0, .look 0, .record, .poll 1, .tick 5, .look 0, .drop 0, .orphan 0, .drop 1,
    .spawn 7 false, .exit 2 (.exited 1), .reap 2, .record]

/-- The state that `shared` leads to. -/
def sharedEnd : Reaper := (runIf step Distinct {} shared).getD {}

/-- In it, both children's statuses are their own. -/
theorem attributed_of_reaches_shared : sharedEnd.Attributed :=
  attributed_of_reaches (.getD_runIf (by decide +kernel))

/-- An orphan's status is recorded, and its id is given to a child. The reaper collects the child,
and before it has recorded its status, the child's waiter finds the orphan's. -/
theorem not_attributed_of_reuse : ∃ s, Reaches step Always {} s ∧ ¬s.Attributed := by
  have hrun : (runIf step Always {} [.spawn 7 false, .exit 0 (.exited 1), .reap 0, .record,
      .spawn 7 true, .exit 1 (.exited 0), .reap 1, .poll 1, .look 1]).any (fun s =>
        s.procs.any fun p => p.status = some (.exited 0) && p.waiting = .returned (some 256)) =
      true := by
    decide +kernel
  obtain ⟨s, hs, hp⟩ := Reaches.exists_of_runIf _ hrun
  obtain ⟨p, hmem, hp⟩ := List.any_eq_true.mp hp
  rw [Bool.and_eq_true, decide_eq_true_eq, decide_eq_true_eq] at hp
  refine ⟨s, hs, fun hattr => ?_⟩
  obtain ⟨status, hstatus, hraw, -⟩ := hattr.1 p hmem 256 hp.2
  rw [hp.1] at hstatus
  cases hstatus
  exact absurd hraw (by decide)

end Reaper

end Vigil
