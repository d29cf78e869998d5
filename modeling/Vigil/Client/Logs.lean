import Vigil.Logs.Follow
import Vigil.Logs.Tail

/-!
# The logs command

`vigil logs -f`, `cmd/logs.rs`: the command asks for the tail of the log store, prints it, and then
follows. The two requests are handled by `get_logs` and `follow_logs`, and tasks go on pushing
entries between them, and between the two steps of each of these and of `push`.

The command takes it that what is in the buffers is what has been announced. Where that is so at the
subscription, nothing is skipped and nothing is shown twice (`shownOnce_of_reaches`).
`not_shownOnce_skipped` is a run with an entry that is pushed after the tail and before the
subscription, and is never shown.
-/

namespace Vigil

open Runs

/-- A list in which one element has been changed, part by part. -/
theorem perm_flatMap_set {α β : Type*} {l : List α} {i : ℕ} {t : α} (f : α → List β) (t' : α)
    (h : l[i]? = some t) : ((l.set i t').flatMap f ++ f t).Perm (l.flatMap f ++ f t') := by
  classical
  obtain ⟨hi, rfl⟩ := List.getElem?_eq_some_iff.mp h
  have hsplit : l = l.take i ++ l[i] :: l.drop (i + 1) := by
    rw [← List.drop_eq_getElem_cons hi, List.take_append_drop]
  rw [List.set_eq_take_cons_drop t' hi]
  conv_rhs => rw [hsplit]
  refine List.perm_iff_count.mpr fun b => ?_
  simp only [List.flatMap_append, List.flatMap_cons, List.count_append]
  omega

namespace LogStore

/-- The entry that a task has pushed to its buffer and not announced. -/
def Task.announcing : Task → List LogEntry
  | ⟨.announcing, entry :: _⟩ => [entry]
  | _ => []

/-- The entries that have been pushed and not announced. -/
def announcing (s : LogStore) : List LogEntry := s.tasks.flatMap Task.announcing

/-- Every entry that has been pushed is announced once, or will be. -/
def Announced (s : LogStore) : Prop := (s.broadcast ++ s.announcing).Perm s.pushed

/-- A change of a task, counted by what it has to announce. -/
theorem count_announcing_setTask {s : LogStore} {i : ℕ} {t : Task} (t' : Task)
    (h : s.tasks[i]? = some t) (e : LogEntry) :
    (s.setTask i t').announcing.count e + t.announcing.count e =
      s.announcing.count e + t'.announcing.count e := by
  have hcount := (perm_flatMap_set Task.announcing t' h).count_eq e
  rw [List.count_append, List.count_append] at hcount
  exact hcount

/-- A step announces what has been pushed. -/
theorem Announced.step {s s' : LogStore} {i : ℕ} (hs : s.Announced) (h : s.step i = some s') :
    s'.Announced := by
  obtain ⟨phase, entry, rest, ht, hcase⟩ := step_cases h
  refine List.perm_iff_count.mpr fun e => ?_
  have hcount := List.perm_iff_count.mp hs e
  rw [List.count_append] at hcount ⊢
  rcases hcase with ⟨rfl, rfl⟩ | ⟨rfl, rfl⟩ | ⟨b, rfl, rfl⟩ | ⟨rfl, rfl⟩
  · -- A lookup and an insertion announce nothing.
    have hset := count_announcing_setTask ⟨s.lookedUp entry.service, entry :: rest⟩ ht e
    have hnone : Task.announcing ⟨s.lookedUp entry.service, entry :: rest⟩ = [] := by
      unfold lookedUp
      split <;> rfl
    rw [hnone] at hset
    exact (congrArg _ hset).trans hcount
  · have hset := count_announcing_setTask (s := s.insertBuffer entry.service)
      ⟨.holding s.heap.length, entry :: rest⟩ ht e
    exact (congrArg _ hset).trans hcount
  · -- The entry has been pushed and is still to be announced.
    have hset := count_announcing_setTask (s := s.pushTo b entry) ⟨.announcing, entry :: rest⟩ ht e
    have hpushed : (s.pushed ++ [entry]).count e = s.pushed.count e + [entry].count e :=
      List.count_append
    show s.broadcast.count e + _ = (s.pushed ++ [entry]).count e
    rw [hpushed, ← hcount, Nat.add_assoc]
    exact congrArg _ hset
  · have hset : (({ s with broadcast := s.broadcast ++ [entry] } : LogStore).setTask i
        ⟨.lookup, rest⟩).announcing.count e + [entry].count e = s.announcing.count e + 0 :=
      count_announcing_setTask (s := { s with broadcast := s.broadcast ++ [entry] })
        ⟨.lookup, rest⟩ ht e
    have hsent : (s.broadcast ++ [entry]).count e = s.broadcast.count e + [entry].count e :=
      List.count_append
    show (s.broadcast ++ [entry]).count e + _ = s.pushed.count e
    omega

/-- A step adds to what has been pushed and announced. -/
theorem exists_append_of_step {s s' : LogStore} {i : ℕ} (h : s.step i = some s') :
    ∃ pushed sent, s'.pushed = s.pushed ++ pushed ∧ s'.broadcast = s.broadcast ++ sent := by
  obtain ⟨phase, entry, rest, -, hcase⟩ := step_cases h
  rcases hcase with ⟨-, rfl⟩ | ⟨-, rfl⟩ | ⟨b, -, rfl⟩ | ⟨-, rfl⟩
  · exact ⟨[], [], (List.append_nil _).symm, (List.append_nil _).symm⟩
  · exact ⟨[], [], (List.append_nil _).symm, (List.append_nil _).symm⟩
  · exact ⟨[entry], [], rfl, (List.append_nil _).symm⟩
  · exact ⟨[], [entry], (List.append_nil _).symm, rfl⟩

end LogStore

/-! ## The two requests -/

/-- How far the command is. -/
inductive LogsPhase
  | start
  /-- `tail` holds the read lock of the map: the services whose buffers are still to be copied, and
  what has been copied. -/
  | tailing (todo : List String) (all : List LogEntry)
  /-- The answer has been printed. -/
  | tailed
  /-- The follow request has subscribed. -/
  | following
  deriving DecidableEq

/-- The command and the log store of the daemon that it talks to. -/
structure LogsFollow where
  services : List String
  /-- The number of lines that it asks for. -/
  n : Option ℕ
  store : LogStore
  phase : LogsPhase := .start
  /-- The entries that it has printed from the tail. -/
  replay : List LogEntry := []
  /-- The entries that it has printed since. -/
  live : List LogEntry := []
  /-- The place of the receiver in the broadcast. -/
  next : ℕ := 0
  /-- The services whose buffers have been copied, and how many entries had been pushed. Nobody
  keeps them. -/
  copies : List (String × ℕ) := []

/-- What happens. -/
inductive LogsLabel
  /-- A task's `push` goes on. -/
  | push (i : ℕ)
  /-- `tail` takes the read lock, and finds the services in some order. -/
  | tail (order : List String)
  /-- `tail` copies a buffer. -/
  | copy
  /-- The answer to the tail request. -/
  | answer
  /-- `subscribe`. -/
  | subscribe
  /-- An announcement goes through the stream. -/
  | receive

namespace LogsFollow

variable (s : LogsFollow)

/-- The condition on an entry in `follow_logs`. -/
def selected (e : LogEntry) : Bool := Followed.selects s.services e

/-- The number of lines in `get_logs`. -/
def tailCount : ℕ := s.n.getD 100

/-- A task of the store waits for the write lock of the map. -/
def insertsBuffer (i : ℕ) : Bool :=
  match s.store.tasks[i]? with
  | some ⟨.missed, _ :: _⟩ => true
  | _ => false

/-- `tail` holds the read lock of the map. -/
def mapLocked : Bool :=
  match s.phase with
  | .tailing _ _ => true
  | _ => false

/-- One step. -/
def step : LogsLabel → Option LogsFollow
  | .push i =>
    if s.mapLocked && s.insertsBuffer i then none
    else (s.store.step i).map fun store => { s with store }
  | .tail order =>
    if s.phase = .start ∧ order.isPerm (s.store.buffers.keys.filter fun name =>
        s.services.isEmpty || s.services.contains name) then
      some { s with phase := .tailing order [] }
    else none
  | .copy =>
    match s.phase with
    | .tailing (name :: todo) all =>
      some { s with
        phase := .tailing todo (all ++ s.store.bufferOf name)
        copies := s.copies ++ [(name, s.store.pushed.length)] }
    | _ => none
  | .answer =>
    match s.phase with
    | .tailing [] all => some { s with phase := .tailed, replay := tailOf s.tailCount all }
    | _ => none
  | .subscribe =>
    if s.phase = .tailed then
      some { s with phase := .following, next := s.store.broadcast.length }
    else none
  | .receive =>
    match s.phase, s.store.broadcast[s.next]? with
    | .following, some e =>
      some { s with next := s.next + 1, live := s.live ++ if s.selected e then [e] else [] }
    | _, _ => none

/-- The selected entries that the follower will still be sent. -/
def outstanding : List LogEntry :=
  (s.store.broadcast.drop s.next ++ s.store.announcing).filter s.selected

/-- What has been printed and will be: every selected entry that was pushed after the first one of
the tail, and that one, each once, and maybe some that were pushed before. -/
def ShownOnce : Prop :=
  ∃ before after earlier, s.store.pushed = before ++ after ∧
    (∀ e ∈ s.replay.head?, after.head? = some e) ∧ earlier.Sublist (before.filter s.selected) ∧
    (s.replay ++ s.live ++ s.outstanding).Perm (earlier ++ after.filter s.selected)

/-- The entry that a task is about to push to a buffer fits the order of the timestamps. -/
def fitsOrder (i : ℕ) : Bool :=
  match s.store.tasks[i]? with
  | some ⟨.holding _, entry :: _⟩ =>
    !s.selected entry || s.store.pushed.all fun x => !s.selected x ||
      (x.timestamp < entry.timestamp ||
        (x.timestamp = entry.timestamp && x.service = entry.service))
  | _ => true

/-- The condition that the subscription is where the tail ends. -/
def Seamless (s : LogsFollow) : LogsLabel → Prop
  | .push i => s.store.Unraced i ∧ s.fitsOrder i = true
  | .tail _ => s.tailCount ≤ s.store.bufferCapacity
  | .subscribe => (copied s.store.pushed s.copies).Perm (s.store.broadcast.filter s.selected)
  | _ => True

instance (l : LogsLabel) : Decidable (Seamless s l) :=
  match l with
  | .push i => inferInstanceAs (Decidable (s.store.Unraced i ∧ s.fitsOrder i = true))
  | .tail _ => inferInstanceAs (Decidable (s.tailCount ≤ s.store.bufferCapacity))
  | .subscribe => inferInstanceAs (Decidable (List.Perm _ _))
  | .copy | .answer | .receive => isTrue trivial

/-! ## The invariant -/

/-- What is known in each phase. -/
def PhaseOk : Prop :=
  match s.phase with
  | .start => s.copies = [] ∧ s.live = []
  | .tailing todo all =>
    (s.copies.map Prod.fst ++ todo).Nodup ∧
      (∀ name ∈ todo, ∀ e : LogEntry, e.service = name → s.selected e = true) ∧
      (0 < s.store.bufferCapacity →
        all = buffered s.store.bufferCapacity s.store.pushed s.copies) ∧ s.live = []
  | .tailed =>
    s.replay = tailOf s.tailCount (buffered s.store.bufferCapacity s.store.pushed s.copies) ∧
      s.live = []
  | .following =>
    s.replay = tailOf s.tailCount (buffered s.store.bufferCapacity s.store.pushed s.copies) ∧
      s.next ≤ s.store.broadcast.length ∧
      (copied s.store.pushed s.copies ++ s.live).Perm
        ((s.store.broadcast.take s.next).filter s.selected)

/-- The invariant. -/
structure Inv : Prop where
  coherent : 0 < s.store.bufferCapacity → s.store.Coherent
  announced : s.store.Announced
  order : InOrder s.selected s.store.pushed
  /-- Each service has been copied once. -/
  copies : (s.copies.map Prod.fst).Nodup
  bound : ∀ p ∈ s.copies, p.2 ≤ s.store.pushed.length
  selected : ∀ p ∈ s.copies, ∀ e : LogEntry, e.service = p.1 → s.selected e = true
  count : s.phase ≠ .start → s.tailCount ≤ s.store.bufferCapacity
  phase : s.PhaseOk

variable {s} {s' : LogsFollow}

/-- Each entry that is pushed keeps the timestamps in order. -/
theorem inOrder_step {i : ℕ} {store : LogStore} (h : InOrder s.selected s.store.pushed)
    (hG : s.fitsOrder i = true) (hs : s.store.step i = some store) :
    InOrder s.selected store.pushed := by
  obtain ⟨phase, entry, rest, ht, hcase⟩ := LogStore.step_cases hs
  rcases hcase with ⟨-, rfl⟩ | ⟨-, rfl⟩ | ⟨b, rfl, rfl⟩ | ⟨-, rfl⟩
  · exact h
  · exact h
  · refine List.pairwise_append.mpr ⟨h, List.pairwise_singleton _ _,
      fun x hx y hy hselx hsely => ?_⟩
    obtain rfl := List.mem_singleton.mp hy
    unfold fitsOrder at hG
    rw [ht] at hG
    simp only [hsely, Bool.not_true, Bool.false_or, List.all_eq_true] at hG
    simpa [hselx] using hG x hx
  · exact h

/-- The invariant is kept by a step of a task's `push`. -/
theorem Inv.push (h : s.Inv) {i : ℕ} {store : LogStore} (hG : Seamless s (.push i))
    (hs : s.store.step i = some store) : Inv { s with store } := by
  obtain ⟨pushed, sent, hpushed, hsent⟩ := LogStore.exists_append_of_step hs
  have hcapacity := LogStore.bufferCapacity_step hs
  have horder : InOrder s.selected store.pushed := inOrder_step h.order hG.2 hs
  refine ⟨fun hc => ?_, h.announced.step hs, horder, h.copies, fun p hp => ?_, h.selected,
    fun hne => hcapacity ▸ h.count hne, ?_⟩
  · have hc' : 0 < s.store.bufferCapacity := hcapacity ▸ hc
    exact (h.coherent hc').step hc' hG.1 hs
  · have hle := h.bound p hp
    show p.2 ≤ store.pushed.length
    rw [hpushed, List.length_append]
    omega
  · have hphase := h.phase
    unfold PhaseOk at hphase ⊢
    cases hp : s.phase with
    | start =>
      simp only [hp] at hphase ⊢
      exact hphase
    | tailing todo all =>
      simp only [hp, hpushed, hcapacity, buffered_append h.bound] at hphase ⊢
      exact hphase
    | tailed =>
      simp only [hp, hpushed, hcapacity, buffered_append h.bound] at hphase ⊢
      exact hphase
    | following =>
      -- What has been received stays the beginning of what has been sent.
      simp only [hp, hpushed, hcapacity, buffered_append h.bound, copied_append h.bound,
        hsent] at hphase ⊢
      obtain ⟨hreplay, hnext, hlive⟩ := hphase
      refine ⟨hreplay, by rw [List.length_append]; omega, ?_⟩
      rw [List.take_append_of_le_length hnext]
      exact hlive

/-- The invariant is kept when the tail request begins. -/
theorem Inv.tail (h : s.Inv) {order : List String} (hG : Seamless s (.tail order))
    (hs : s.step (.tail order) = some s') : s'.Inv := by
  rw [step] at hs
  split_ifs at hs with hcond
  obtain rfl := Option.some.inj hs
  obtain ⟨hstart, horder⟩ := hcond
  have hphase := h.phase
  unfold PhaseOk at hphase
  rw [hstart] at hphase
  obtain ⟨hcopies, hlive⟩ := hphase
  have hperm := List.isPerm_iff.mp horder
  refine ⟨h.coherent, h.announced, h.order, h.copies, h.bound, h.selected, fun _ => hG, ?_, ?_, ?_,
    hlive⟩
  · rw [hcopies]
    exact hperm.nodup_iff.mpr (s.store.buffers.nodup_keys.filter _)
  · intro name hname e he
    have hmem := (List.mem_filter.mp (hperm.subset hname)).2
    rw [← he] at hmem
    exact hmem
  · intro _
    show [] = buffered _ _ s.copies
    rw [hcopies]
    rfl

/-- The invariant is kept when the tail request copies a buffer. -/
theorem Inv.copy (h : s.Inv) (hs : s.step .copy = some s') : s'.Inv := by
  rw [step] at hs
  split at hs
  · next name todo all hp =>
    obtain rfl := Option.some.inj hs
    have hphase := h.phase
    unfold PhaseOk at hphase
    rw [hp] at hphase
    obtain ⟨hnodup, hselected, hall, hlive⟩ := hphase
    have hkeys : (s.copies ++ [(name, s.store.pushed.length)]).map Prod.fst =
        s.copies.map Prod.fst ++ [name] := List.map_append
    have hnodup' : ((s.copies.map Prod.fst ++ [name]) ++ todo).Nodup := by
      rw [List.append_assoc]
      exact hnodup
    refine ⟨h.coherent, h.announced, h.order, ?_, ?_, ?_, fun _ => h.count (by rw [hp]; nofun), ?_⟩
    · show ((s.copies ++ [(name, s.store.pushed.length)]).map Prod.fst).Nodup
      rw [hkeys]
      exact hnodup'.of_append_left
    · exact List.forall_mem_append.mpr ⟨h.bound, List.forall_mem_singleton.mpr (Nat.le_refl _)⟩
    · exact List.forall_mem_append.mpr ⟨h.selected, List.forall_mem_singleton.mpr
        (hselected name List.mem_cons_self)⟩
    · refine ⟨?_, fun v hv => hselected v (List.mem_cons_of_mem _ hv), fun hc => ?_, hlive⟩
      · show ((s.copies ++ [(name, s.store.pushed.length)]).map Prod.fst ++ todo).Nodup
        rw [hkeys]
        exact hnodup'
      · -- The buffer has the latest entries of its service.
        have hkept := (h.coherent hc).kept name
        show all ++ s.store.bufferOf name =
          buffered _ _ (s.copies ++ [(name, s.store.pushed.length)])
        rw [buffered, List.flatMap_append, ← buffered, ← hall hc, ← hkept, List.flatMap_singleton,
          List.take_length]
        rfl
  · cases hs

/-- The invariant is kept when the tail request ends. -/
theorem Inv.answer (h : s.Inv) (hs : s.step .answer = some s') : s'.Inv := by
  rw [step] at hs
  split at hs
  · next all hp =>
    obtain rfl := Option.some.inj hs
    have hphase := h.phase
    unfold PhaseOk at hphase
    rw [hp] at hphase
    obtain ⟨-, -, hall, hlive⟩ := hphase
    have hcount := h.count (by rw [hp]; nofun)
    refine ⟨h.coherent, h.announced, h.order, h.copies, h.bound, h.selected, fun _ => hcount, ?_,
      hlive⟩
    show tailOf s.tailCount all = tailOf s.tailCount (buffered _ _ _)
    -- Without a capacity no lines may be asked for.
    by_cases hc : 0 < s.store.bufferCapacity
    · rw [hall hc]
    · rw [show s.tailCount = 0 by omega, tailOf_zero, tailOf_zero]
  · cases hs

/-- The invariant is kept when the follow request subscribes. -/
theorem Inv.subscribe (h : s.Inv) (hG : Seamless s .subscribe)
    (hs : s.step .subscribe = some s') : s'.Inv := by
  rw [step] at hs
  split_ifs at hs with hp
  obtain rfl := Option.some.inj hs
  have hphase := h.phase
  unfold PhaseOk at hphase
  rw [hp] at hphase
  obtain ⟨hreplay, hlive⟩ := hphase
  refine ⟨h.coherent, h.announced, h.order, h.copies, h.bound, h.selected,
    fun _ => h.count (by rw [hp]; nofun), hreplay, Nat.le_refl _, ?_⟩
  show (copied s.store.pushed s.copies ++ s.live).Perm
    ((s.store.broadcast.take s.store.broadcast.length).filter s.selected)
  rw [hlive, List.append_nil, List.take_length]
  exact hG

/-- The invariant is kept when the follow request receives an announcement. -/
theorem Inv.receive (h : s.Inv) (hs : s.step .receive = some s') : s'.Inv := by
  rw [step] at hs
  split at hs
  · next e hp he =>
    obtain rfl := Option.some.inj hs
    have hphase := h.phase
    unfold PhaseOk at hphase
    rw [hp] at hphase
    obtain ⟨hreplay, hnext, hlive⟩ := hphase
    obtain ⟨hlt, -⟩ := List.getElem?_eq_some_iff.mp he
    refine ⟨h.coherent, h.announced, h.order, h.copies, h.bound, h.selected,
      fun _ => h.count (by rw [hp]; nofun), ?_⟩
    unfold PhaseOk
    rw [hp]
    refine ⟨hreplay, hlt, ?_⟩
    show (copied s.store.pushed s.copies ++ (s.live ++ if s.selected e then [e] else [])).Perm
      ((s.store.broadcast.take (s.next + 1)).filter s.selected)
    rw [List.take_add_one, he, List.filter_append, ← List.append_assoc]
    refine hlive.append ?_
    by_cases hsel : s.selected e = true
    · simp [hsel]
    · simp [hsel]
  · cases hs

/-- A step that meets the condition keeps the invariant. -/
theorem Inv.step (h : s.Inv) {l : LogsLabel} (hG : Seamless s l) (hs : s.step l = some s') :
    s'.Inv := by
  cases l with
  | push i =>
    rw [LogsFollow.step] at hs
    split_ifs at hs
    obtain ⟨store, hstore, rfl⟩ := Option.map_eq_some_iff.mp hs
    exact h.push hG hstore
  | tail order => exact h.tail hG hs
  | copy => exact h.copy hs
  | answer => exact h.answer hs
  | subscribe => exact h.subscribe hG hs
  | receive => exact h.receive hs

/-- The command is about to begin, and tasks are about to push entries. -/
def init (services : List String) (n : Option ℕ) (bufferCapacity : ℕ)
    (entries : List (List LogEntry)) : LogsFollow where
  services
  n
  store := .new bufferCapacity entries

/-- The invariant holds at the start. -/
theorem inv_init (services : List String) (n : Option ℕ) (c : ℕ) (entries : List (List LogEntry)) :
    (init services n c entries).Inv where
  coherent _ := LogStore.coherent_new c entries
  announced := by
    have hnone : (LogStore.new c entries).announcing = [] := by
      refine List.flatMap_eq_nil_iff.mpr fun t ht => ?_
      obtain ⟨todo, -, rfl⟩ := List.mem_map.mp ht
      rfl
    show ([] ++ (LogStore.new c entries).announcing).Perm []
    rw [hnone]
    exact .refl _
  order := List.Pairwise.nil
  copies := List.nodup_nil
  bound := List.forall_mem_nil _
  selected := List.forall_mem_nil _
  count hne := absurd rfl hne
  phase := ⟨rfl, rfl⟩

/-- Any number of tasks may push any entries while the command makes its requests: every entry of
the selected services that is pushed after the first one of the tail is shown exactly once, if at
the subscription exactly those selected entries have been announced that are in the tail's copies,
if the timestamps are in the order in which the entries are pushed, and if no service's buffer is
shorter than the tail or thrown away. -/
theorem shownOnce_of_reaches {services : List String} {n : Option ℕ} {c : ℕ}
    {entries : List (List LogEntry)} {s : LogsFollow}
    (h : Reaches step Seamless (init services n c entries) s) (hp : s.phase = .following) :
    s.ShownOnce := by
  have hinv : s.Inv := h.invariant (inv_init services n c entries) fun _ _ _ _ hi hG hs =>
    hi.step hG hs
  have hphase := hinv.phase
  unfold PhaseOk at hphase
  rw [hp] at hphase
  obtain ⟨hreplay, -, hlive⟩ := hphase
  have hall : (s.store.pushed.filter s.selected).Perm
      (copied s.store.pushed s.copies ++ (s.live ++ s.outstanding)) := by
    have hsplit : (s.store.broadcast.filter s.selected) =
        (s.store.broadcast.take s.next).filter s.selected ++
          (s.store.broadcast.drop s.next).filter s.selected := by
      rw [← List.filter_append, List.take_append_drop]
    calc (s.store.pushed.filter s.selected).Perm
          ((s.store.broadcast ++ s.store.announcing).filter s.selected) :=
          (hinv.announced.filter _).symm
      _ = (s.store.broadcast.take s.next).filter s.selected ++ s.outstanding := by
          rw [List.filter_append, hsplit, List.append_assoc, outstanding, List.filter_append]
      List.Perm _ (copied s.store.pushed s.copies ++ s.live ++ s.outstanding) :=
          (hlive.append_right _).symm
      _ = _ := List.append_assoc _ _ _
  obtain ⟨before, after, earlier, hpushed, hhead, hearlier, hperm⟩ := exists_seam
    (hinv.count (by rw [hp]; nofun)) hinv.order hinv.copies hinv.selected hall
  rw [← hreplay] at hhead hperm
  rw [← List.append_assoc] at hperm
  exact ⟨before, after, earlier, hpushed, hhead, hearlier, hperm⟩

/-- A line that a service prints. -/
def line (timestamp : ℕ) (service : String) : LogEntry := ⟨timestamp, service, .stdout, "up"⟩

/-- Two services have printed a line each, and the command asks for one line. While the buffers are
copied, one of the services looks its buffer up, and after the subscription it pushes its next
line. -/
def twoServices : LogsFollow :=
  (runIf step Seamless (init [] (some 1) 2 [[line 0 "a", line 2 "a"], [line 1 "b"]])
    [.push 0, .push 0, .push 0, .push 0, .push 1, .push 1, .push 1, .push 1, .tail ["b", "a"],
      .copy, .push 0, .copy, .answer, .subscribe, .push 0, .push 0, .receive]).getD
    (init [] none 0 [])

/-- In the sample run with two services every line is shown once. -/
theorem shownOnce_of_reaches_twoServices : twoServices.ShownOnce :=
  @shownOnce_of_reaches [] (some 1) 2 [[line 0 "a", line 2 "a"], [line 1 "b"]] _
    (.getD_runIf (by decide +kernel)) (by decide +kernel)

/-- A line that is pushed after the tail and before the subscription is never shown. -/
theorem not_shownOnce_skipped :
    ∃ s, Reaches step Always (init ["a"] none 1000 [[line 0 "a", line 1 "a"]]) s ∧
      s.phase = .following ∧ ¬s.ShownOnce := by
  have hrun : (runIf step Always (init ["a"] none 1000 [[line 0 "a", line 1 "a"]])
      [.push 0, .push 0, .push 0, .push 0, .tail ["a"], .copy, .answer, .push 0, .push 0, .push 0,
        .subscribe]).any (fun s => decide (s.phase = .following ∧
          s.store.pushed = [line 0 "a", line 1 "a"] ∧ s.replay = [line 0 "a"] ∧ s.live = [] ∧
          s.outstanding = [] ∧ [line 0 "a", line 1 "a"].filter s.selected =
            [line 0 "a", line 1 "a"])) = true := by
    decide +kernel
  obtain ⟨s, hs, hfacts⟩ := Reaches.exists_of_runIf _ hrun
  obtain ⟨hp, hpushed, hreplay, hlive, hout, hsel⟩ := of_decide_eq_true hfacts
  refine ⟨s, hs, hp, fun ⟨before, after, earlier, hsplit, hhead, _, hperm⟩ => ?_⟩
  rw [hpushed] at hsplit
  rw [hreplay] at hhead
  have hfirst := hhead _ rfl
  have hafter : after = [line 0 "a", line 1 "a"] := by
    rcases before with _ | ⟨b, before⟩
    · exact hsplit.symm
    · -- The second line is not the first one.
      obtain ⟨-, hrest⟩ := List.cons.inj hsplit
      rcases before with _ | ⟨b', before⟩
      · rw [← (show [line 1 "a"] = after from hrest)] at hfirst
        exact absurd hfirst (by decide)
      · obtain ⟨-, hrest⟩ := List.cons.inj hrest
        obtain ⟨-, rfl⟩ := List.append_eq_nil_iff.mp hrest.symm
        cases hfirst
  have hlen := hperm.length_eq
  rw [hafter, hsel, hreplay, hlive, hout, List.length_append, List.length_append] at hlen
  simp only [List.length_append, List.length_cons, List.length_nil] at hlen
  omega

end LogsFollow

end Vigil
