import Vigil.Lib.IndexMap
import Vigil.Lib.Ring
import Vigil.Lib.Runs

/-!
# The log store

`logs/store.rs`: a ring buffer for each service, behind a read-write lock on the map and a mutex on
each buffer, and the calls of `push` that any number of tasks make at the same time. The locks make
a critical section of each of a call's steps: the lookup, the insertion of a new buffer, and the
push to the buffer. Between them other tasks go on.

A service gets its buffer with the first entry. The lookup that misses it gives up the lock before
the insertion, which does not look again: of two tasks that both miss, the later one throws the
buffer of the earlier one away, and what is in it or is still to be pushed to it is lost. The two
readers of a new service are such tasks. `kept_of_reaches` says that nothing else loses an entry.
-/

namespace Vigil

/-- `LogStream`. -/
inductive LogStream
  | stdout
  | stderr
  deriving DecidableEq, Repr

/-- `LogEntry`. -/
structure LogEntry where
  timestamp : ℕ
  service : String
  stream : LogStream
  message : String
  deriving DecidableEq

namespace LogStore

/-- How far a call of `push` is. -/
inductive Phase
  /-- Before the read lock. -/
  | lookup
  /-- The lookup has missed, and the read lock is free again. -/
  | missed
  /-- `buffer_for` has returned the buffer. -/
  | holding (buffer : ℕ)
  /-- The entry is in the buffer, and its followers are to be told. -/
  | announcing
  deriving DecidableEq

/-- A task that pushes entries, one after another. -/
structure Task where
  phase : Phase := .lookup
  /-- The entry whose `push` is running, and those after it. -/
  todo : List LogEntry
  deriving DecidableEq

end LogStore

/-- The store and the tasks that push to it. -/
structure LogStore where
  bufferCapacity : ℕ
  /-- The buffer of each service in the map. -/
  buffers : IndexMap String ℕ := ∅
  /-- The buffers that have been made. A buffer that the map has lost is still here. -/
  heap : List (List LogEntry) := []
  /-- What the followers have been sent. -/
  broadcast : List LogEntry := []
  tasks : List LogStore.Task
  /-- The entries in the order of the critical sections of `Buffer::push`. The store does not keep
  them. -/
  pushed : List LogEntry := []

namespace LogStore

/-- `LogStore::new`, with the tasks that are to push the entries. -/
def new (bufferCapacity : ℕ) (entries : List (List LogEntry)) : LogStore where
  bufferCapacity
  tasks := entries.map fun todo => { todo }

variable (s : LogStore)

/-- The store with a task's new state. -/
def setTask (i : ℕ) (t : Task) : LogStore := { s with tasks := s.tasks.set i t }

/-- The phase after the lookup under the read lock. -/
def lookedUp (service : String) : Phase :=
  match s.buffers.get? service with
  | some b => .holding b
  | none => .missed

/-- The insertion under the write lock: a new buffer, whether or not the service has one by now. -/
def insertBuffer (service : String) : LogStore :=
  { s with buffers := s.buffers.insert service s.heap.length, heap := s.heap ++ [[]] }

/-- `Buffer::push`. -/
def pushTo (b : ℕ) (entry : LogEntry) : LogStore :=
  { s with
    heap := s.heap.modify b fun l => Ring.push s.bufferCapacity l entry
    pushed := s.pushed ++ [entry] }

/-- The next step of a task. -/
def step (i : ℕ) : Option LogStore :=
  match s.tasks[i]? with
  | some ⟨phase, entry :: rest⟩ =>
    some <| match phase with
      | .lookup => s.setTask i ⟨s.lookedUp entry.service, entry :: rest⟩
      | .missed => (s.insertBuffer entry.service).setTask i ⟨.holding s.heap.length, entry :: rest⟩
      | .holding b => (s.pushTo b entry).setTask i ⟨.announcing, entry :: rest⟩
      | .announcing => { s with broadcast := s.broadcast ++ [entry] }.setTask i ⟨.lookup, rest⟩
  | _ => none

/-- All calls of `push` have returned. -/
def Done : Prop := ∀ t ∈ s.tasks, t.todo = []

/-- The entries that have been pushed for a service, in the order of the critical sections. -/
def pushedFor (service : String) : List LogEntry :=
  s.pushed.filter fun e => decide (e.service = service)

/-- The entries in a service's buffer. -/
def bufferOf (service : String) : List LogEntry :=
  match s.buffers.get? service with
  | some b => s.heap[b]?.getD []
  | none => []

/-- Every service's buffer has the latest entries that were pushed for it, as many as its
capacity. -/
def Kept : Prop :=
  ∀ service, (Ring.recent s.bufferCapacity (s.pushedFor service)).Sublist (s.bufferOf service)

/-- The task is about to insert a buffer for a service that has got one since the lookup. -/
def overwrites (i : ℕ) : Bool :=
  match s.tasks[i]? with
  | some ⟨.missed, entry :: _⟩ => s.buffers.contains entry.service
  | _ => false

/-- The condition that a step throws no buffer away. -/
def Unraced (s : LogStore) (i : ℕ) : Prop := s.overwrites i = false

instance (i : ℕ) : Decidable (Unraced s i) := inferInstanceAs (Decidable (_ = false))

/-! ## What a step does -/

/-- A step is a task's, and one of four. -/
theorem step_cases {s s' : LogStore} {i : ℕ} (h : s.step i = some s') :
    ∃ phase entry rest, s.tasks[i]? = some ⟨phase, entry :: rest⟩ ∧
      ((phase = .lookup ∧ s' = s.setTask i ⟨s.lookedUp entry.service, entry :: rest⟩) ∨
        (phase = .missed ∧
          s' = (s.insertBuffer entry.service).setTask i ⟨.holding s.heap.length, entry :: rest⟩) ∨
        (∃ b, phase = .holding b ∧ s' = (s.pushTo b entry).setTask i ⟨.announcing, entry :: rest⟩) ∨
        (phase = .announcing ∧
          s' = { s with broadcast := s.broadcast ++ [entry] }.setTask i ⟨.lookup, rest⟩)) := by
  unfold step at h
  split at h
  · next phase entry rest ht =>
    refine ⟨phase, entry, rest, ht, ?_⟩
    cases phase <;> simp_all
  · cases h

/-- A task after `setTask` is the new one, or was there before. -/
theorem mem_setTask {i : ℕ} {t u : Task} (h : u ∈ (s.setTask i t).tasks) : u = t ∨ u ∈ s.tasks :=
  (List.mem_or_eq_of_mem_set h).symm

/-! ## The invariant -/

/-- What holds of the store as long as no buffer is thrown away. -/
structure Coherent : Prop where
  /-- The buffers in the map have been made. -/
  made : ∀ service b, s.buffers.get? service = some b → b < s.heap.length
  /-- No two services share a buffer. -/
  unshared : ∀ service service' b, s.buffers.get? service = some b →
    s.buffers.get? service' = some b → service = service'
  /-- The buffer that a call has looked up is the one in the map. -/
  current : ∀ t ∈ s.tasks, ∀ b entry rest, t = ⟨.holding b, entry :: rest⟩ →
    s.buffers.get? entry.service = some b
  /-- The buffers have the latest entries. -/
  kept : ∀ service, Ring.recent s.bufferCapacity (s.pushedFor service) = s.bufferOf service

namespace Coherent

variable {s} (hs : s.Coherent)

include hs

/-- Changing a task keeps the invariant if the buffer that it has looked up is the one in the
map. -/
theorem setTask {i : ℕ} {t : Task} (ht : ∀ b entry rest, t = ⟨.holding b, entry :: rest⟩ →
    s.buffers.get? entry.service = some b) : (s.setTask i t).Coherent where
  made := hs.made
  unshared := hs.unshared
  current u hu := (s.mem_setTask hu).elim (fun h => h ▸ ht) (hs.current u)
  kept := hs.kept

/-- Making a service's first buffer keeps the invariant. -/
theorem insertBuffer {service : String} (hc : 0 < s.bufferCapacity)
    (hnone : s.buffers.get? service = none) : (s.insertBuffer service).Coherent := by
  have hget : ∀ service', (s.insertBuffer service).buffers.get? service' =
      if service' = service then some s.heap.length else s.buffers.get? service' :=
    fun service' => s.buffers.get?_insert service service' _
  have hlen : (s.insertBuffer service).heap.length = s.heap.length + 1 := by
    simp [LogStore.insertBuffer]
  refine ⟨fun service' b h => ?_, fun service₁ service₂ b h₁ h₂ => ?_,
    fun t ht b entry rest h => ?_,
    fun service' => ?_⟩
  · rw [hget] at h
    split_ifs at h with heq
    · obtain rfl := Option.some.inj h
      omega
    · have := hs.made _ _ h
      omega
  · rw [hget] at h₁ h₂
    split_ifs at h₁ h₂ with heq₁ heq₂ heq₂
    · exact heq₁.trans heq₂.symm
    · obtain rfl := Option.some.inj h₁
      exact absurd (hs.made _ _ h₂) (Nat.lt_irrefl _)
    · obtain rfl := Option.some.inj h₂
      exact absurd (hs.made _ _ h₁) (Nat.lt_irrefl _)
    · exact hs.unshared _ _ _ h₁ h₂
  · have hcur := hs.current t ht b entry rest h
    have hne : entry.service ≠ service := fun heq => by
      rw [heq, hnone] at hcur
      cases hcur
    rw [hget, if_neg hne, hcur]
  · have hkept := hs.kept service'
    unfold bufferOf at hkept ⊢
    rw [hget]
    split_ifs with heq
    · -- Nothing has been pushed for a service without a buffer.
      rw [heq, hnone] at hkept
      have hnil : (s.insertBuffer service).pushedFor service = [] :=
        Ring.eq_nil_of_recent _ hc hkept
      rw [heq, hnil, Ring.recent_nil]
      simp [LogStore.insertBuffer]
    · refine hkept.trans ?_
      cases hb : s.buffers.get? service' with
      | none => rfl
      | some b =>
        simp only [LogStore.insertBuffer]
        rw [List.getElem?_append_left (hs.made _ _ hb)]

/-- Pushing an entry to its service's buffer keeps the invariant. -/
theorem pushTo {b : ℕ} {entry : LogEntry} (hc : 0 < s.bufferCapacity)
    (hb : s.buffers.get? entry.service = some b) : (s.pushTo b entry).Coherent := by
  have hlt := hs.made _ _ hb
  refine ⟨fun service b' h => ?_, hs.unshared, hs.current, fun service => ?_⟩
  · have := hs.made _ _ h
    simpa [LogStore.pushTo] using this
  · have hkept := hs.kept service
    have hpushed : (s.pushTo b entry).pushedFor service =
        s.pushedFor service ++ if entry.service = service then [entry] else [] := by
      simp only [LogStore.pushTo, pushedFor, List.filter_append, List.filter_cons, List.filter_nil,
        decide_eq_true_eq]
    have hbuffer : (s.pushTo b entry).bufferOf service =
        match s.buffers.get? service with
        | some b' => (s.heap.modify b fun l => Ring.push s.bufferCapacity l entry)[b']?.getD []
        | none => [] := rfl
    rw [hpushed, hbuffer]
    by_cases heq : entry.service = service
    · subst heq
      rw [bufferOf, hb] at hkept
      rw [if_pos rfl, hb]
      simp only [List.getElem?_modify_eq, List.getElem?_eq_getElem hlt,
        Option.getD_some] at hkept ⊢
      rw [← hkept]
      exact (Ring.push_recent _ hc _ _).symm
    · rw [if_neg heq, List.append_nil]
      refine hkept.trans ?_
      unfold bufferOf
      cases hb' : s.buffers.get? service with
      | none => rfl
      | some b' =>
        have hne : b ≠ b' := fun h => heq (hs.unshared _ _ _ hb (h ▸ hb'))
        simp only [List.getElem?_modify_ne _ _ hne]

/-- A step that throws no buffer away keeps the invariant. -/
theorem step {s' : LogStore} {i : ℕ} (hc : 0 < s.bufferCapacity) (hG : Unraced s i)
    (h : s.step i = some s') : s'.Coherent := by
  obtain ⟨phase, entry, rest, ht, hcase⟩ := step_cases h
  rcases hcase with ⟨rfl, rfl⟩ | ⟨rfl, rfl⟩ | ⟨b, rfl, rfl⟩ | ⟨rfl, rfl⟩
  · -- The lookup finds the buffer in the map.
    refine hs.setTask fun b entry' rest' heq => ?_
    obtain ⟨hphase, htodo⟩ := Task.mk.inj heq
    obtain ⟨rfl, -⟩ := List.cons.inj htodo
    unfold lookedUp at hphase
    cases hb : s.buffers.get? entry.service with
    | none => rw [hb] at hphase; cases hphase
    | some b' => rw [hb] at hphase; cases hphase; rfl
  · have hnone : s.buffers.get? entry.service = none := by
      unfold Unraced overwrites at hG
      rw [ht] at hG
      exact IndexMap.get?_eq_none_iff.mpr fun hmem =>
        Bool.false_ne_true (hG.symm.trans (IndexMap.contains_iff.mpr hmem))
    refine (hs.insertBuffer hc hnone).setTask fun b entry' rest' heq => ?_
    obtain ⟨hphase, htodo⟩ := Task.mk.inj heq
    obtain ⟨rfl, -⟩ := List.cons.inj htodo
    cases hphase
    exact (s.buffers.get?_insert _ _ _).trans (if_pos rfl)
  · have hb := hs.current _ (List.mem_of_getElem? ht) b entry rest rfl
    exact (hs.pushTo hc hb).setTask fun b' entry' rest' heq => by cases heq
  · exact Coherent.setTask (s := { s with broadcast := s.broadcast ++ [entry] })
      ⟨hs.made, hs.unshared, hs.current, hs.kept⟩ fun b' entry' rest' heq => by cases heq

end Coherent

/-- A step keeps the capacity. -/
theorem bufferCapacity_step {s s' : LogStore} {i : ℕ} (h : s.step i = some s') :
    s'.bufferCapacity = s.bufferCapacity := by
  obtain ⟨phase, entry, rest, -, hcase⟩ := step_cases h
  rcases hcase with ⟨-, rfl⟩ | ⟨-, rfl⟩ | ⟨b, -, rfl⟩ | ⟨-, rfl⟩ <;> rfl

/-- A new store is coherent. -/
theorem coherent_new (c : ℕ) (entries : List (List LogEntry)) : (new c entries).Coherent where
  made _ _ h := by cases h
  unshared _ _ _ h := by cases h
  current t ht b entry rest h := by
    obtain ⟨todo, -, rfl⟩ := List.mem_map.mp ht
    cases h
  kept _ := Ring.recent_nil _

/-- Any number of tasks may push any entries: in every state that is reached, and so when all calls
of `push` have returned, every service's buffer has the latest entries that were pushed for it, as
many as the capacity, if no task has inserted a buffer for a service that got one after the task's
lookup. -/
theorem kept_of_reaches {c : ℕ} (hc : 1 ≤ c) {entries : List (List LogEntry)} {s : LogStore}
    (h : Runs.Reaches step Unraced (new c entries) s) : s.Kept := by
  have hs : s.Coherent ∧ 0 < s.bufferCapacity := by
    refine h.invariant (P := fun s => s.Coherent ∧ 0 < s.bufferCapacity)
      ⟨coherent_new c entries, hc⟩ fun s i s' _ hs hG hstep => ?_
    exact ⟨hs.1.step hs.2 hG hstep, (bufferCapacity_step hstep).symm ▸ hs.2⟩
  intro service
  rw [hs.1.kept service]

/-- A line that the service `a` prints. -/
def printed (stream : LogStream) (message : String) : LogEntry := ⟨0, "a", stream, message⟩

/-- The readers of a service's two streams push at the same time. The second one looks the buffer up
when the first one has inserted it, but has not yet pushed. Both lines are kept. -/
theorem kept_of_two_readers :
    ∃ s : LogStore, s.Done ∧ s.pushed = [printed .stdout "x", printed .stderr "y"] ∧
      s.bufferOf "a" = s.pushed ∧ s.Kept := by
  have h : (Runs.runIf step Unraced (new 2 [[printed .stdout "x"], [printed .stderr "y"]])
      [0, 0, 1, 0, 1, 0, 1]).any
      (fun s : LogStore => decide (s.pushed = [printed .stdout "x", printed .stderr "y"] ∧
        s.bufferOf "a" = s.pushed ∧ ∀ t ∈ s.tasks, t.todo = [])) = true := by decide +kernel
  obtain ⟨s, hs, hp⟩ := Runs.Reaches.exists_of_runIf _ h
  obtain ⟨hpushed, hbuffer, hdone⟩ := of_decide_eq_true hp
  exact ⟨s, hdone, hpushed, hbuffer, kept_of_reaches (by decide) hs⟩

/-- The first line on each of a service's streams, and both readers miss the service before one of
them inserts its buffer. The line that is pushed first is lost, although the buffer has room for
it. -/
theorem exists_not_kept :
    ∃ s, Runs.Reaches step Runs.Always (new 1000 [[printed .stdout "x"], [printed .stderr "y"]]) s ∧
      s.Done ∧ ¬s.Kept := by
  have h : (Runs.runIf step Runs.Always (new 1000 [[printed .stdout "x"], [printed .stderr "y"]])
      [0, 1, 0, 0, 0, 1, 1, 1]).any (fun s : LogStore => decide ((∀ t ∈ s.tasks, t.todo = []) ∧
        ¬(Ring.recent s.bufferCapacity (s.pushedFor "a")).Sublist (s.bufferOf "a"))) = true := by
    decide +kernel
  obtain ⟨s, hs, hp⟩ := Runs.Reaches.exists_of_runIf _ h
  obtain ⟨hdone, hlost⟩ := of_decide_eq_true hp
  exact ⟨s, hs, hdone, fun hkept => hlost (hkept "a")⟩

end LogStore

end Vigil
