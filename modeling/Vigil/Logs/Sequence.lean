import Vigil.Logs.Tail

/-!
# Pushes one after another

The log store of `logs/store.rs` when no two calls of `push` overlap, and `tail` on what they have
left. A call is then one function of the store (`LogStore.push`), which does the steps of a task
that nobody interrupts (`reaches_push`).

Every service's buffer has the latest entries that were pushed for it, as many as the capacity, and
`tail` shows the last ones of the buffers that it selects. The capacity zero is an exception,
because a buffer drops its oldest entry before it takes the new one: it keeps one entry. So is a
capacity for which `VecDeque::with_capacity` has no memory: it panics, and nothing is ever pushed.
-/

namespace Vigil

namespace LogStore

/-! ## The functions of the source -/

section Functions

variable (reserves : ℕ → Bool) (s : LogStore)

/-- `buffer_for`: the store, and the service's buffer. `reserves` says for which capacities
`VecDeque::with_capacity` returns, and `none` is its panic. -/
def bufferFor (service : String) : Option (LogStore × ℕ) :=
  match s.buffers.get? service with
  | some b => some (s, b)
  | none =>
    if reserves s.bufferCapacity then some (s.insertBuffer service, s.heap.length) else none

/-- Tell the followers of an entry. -/
def announce (entry : LogEntry) : LogStore := { s with broadcast := s.broadcast ++ [entry] }

/-- `push`. -/
def push (entry : LogEntry) : Option LogStore :=
  (s.bufferFor reserves entry.service).map fun r => (r.1.pushTo r.2 entry).announce entry

/-- Some entries, pushed one after another. -/
def pushAll : LogStore → List LogEntry → Option LogStore
  | s, [] => some s
  | s, entry :: entries => (s.push reserves entry).bind fun s => pushAll s entries

/-- Whether `tail` takes the buffer of a service. -/
def selects (services : List String) (name : String) : Bool :=
  services.isEmpty || services.contains name

/-- `tail`, with the entries of the map in the order in which it comes to them. -/
def tail (order : List (String × ℕ)) (services : List String) (n : ℕ) : List LogEntry :=
  tailOf n ((order.filter fun p => selects services p.1).flatMap fun p => s.heap[p.2]?.getD [])

end Functions

/-! ## What is expected -/

/-- The last `n` of some entries, sorted by their timestamps. The sort is stable: entries with the
same timestamp stay in the order in which they were. -/
def IsTail (all : List LogEntry) (n : ℕ) (shown : List LogEntry) : Prop :=
  ∃ sorted : List LogEntry, sorted.Perm all ∧ sorted.Pairwise LogEntry.le ∧
    (∀ time, sorted.filter (fun e => decide (e.timestamp = time)) =
      all.filter fun e => decide (e.timestamp = time)) ∧
    shown = Ring.recent n sorted

/-- The entries that have been pushed for a service. -/
def ofService (service : String) (entries : List LogEntry) : List LogEntry :=
  entries.filter fun e => decide (e.service = service)

/-- The entries with a timestamp. -/
def atTime (time : ℕ) (entries : List LogEntry) : List LogEntry :=
  entries.filter fun e => decide (e.timestamp = time)

/-- The store has what it is to have after some entries have been pushed. -/
structure Retains (c : ℕ) (entries : List LogEntry) (s : LogStore) : Prop where
  /-- A service's buffer is the last `c` entries that were pushed for it. -/
  buffers : ∀ service, s.bufferOf service = Ring.recent c (ofService service entries)
  /-- `tail` shows the last `n` entries of the selected buffers, one after another. -/
  tail : ∀ order services n, order.Perm s.buffers.entries →
    IsTail ((order.filter fun p => selects services p.1).flatMap fun p => s.bufferOf p.1) n
      (s.tail order services n)
  /-- The entries of one service with the same timestamp are shown in the order of their pushes. -/
  order : ∀ order services n, order.Perm s.buffers.entries → ∀ service time,
    atTime time (ofService service (s.tail order services n)) <:+
      atTime time (ofService service entries)

/-! ## A call that nobody interrupts -/

section Step

variable {s : LogStore} {i : ℕ} {entry : LogEntry} {rest : List LogEntry}

/-- The task that has been set is at its place. -/
theorem getElem?_setTask {t : Task} (t' : Task) (ht : s.tasks[i]? = some t) :
    (s.setTask i t').tasks[i]? = some t' := by
  obtain ⟨hlt, -⟩ := List.getElem?_eq_some_iff.mp ht
  exact List.getElem?_set_self hlt

/-- Of two tasks that are set at a place, the later one is there. -/
theorem setTask_setTask (t t' : Task) : (s.setTask i t).setTask i t' = s.setTask i t' := by
  simp [setTask]

/-- A task that has not missed its buffer throws none away. -/
theorem unraced_of_ne_missed {phase : Phase} (ht : s.tasks[i]? = some ⟨phase, entry :: rest⟩)
    (h : phase ≠ .missed) : s.Unraced i := by
  unfold Unraced overwrites
  rw [ht]
  cases phase with
  | missed => exact (h rfl).elim
  | _ => rfl

/-- A call that has its buffer pushes the entry, announces it, and begins with the next one. -/
theorem reaches_of_holding {b : ℕ} (ht : s.tasks[i]? = some ⟨.holding b, entry :: rest⟩) :
    Runs.Reaches step Unraced s
      (((s.pushTo b entry).announce entry).setTask i ⟨.lookup, rest⟩) := by
  have hpush : s.step i = some ((s.pushTo b entry).setTask i ⟨.announcing, entry :: rest⟩) := by
    unfold step
    rw [ht]
  have ht' : ((s.pushTo b entry).setTask i ⟨.announcing, entry :: rest⟩).tasks[i]? =
      some ⟨.announcing, entry :: rest⟩ := getElem?_setTask (s := s.pushTo b entry) _ ht
  have hannounce : ((s.pushTo b entry).setTask i ⟨.announcing, entry :: rest⟩).step i =
      some ((((s.pushTo b entry).announce entry).setTask i ⟨.announcing, entry :: rest⟩).setTask i
        ⟨.lookup, rest⟩) := by
    unfold step
    rw [ht']
    rfl
  rw [setTask_setTask] at hannounce
  exact (Runs.Reaches.single (unraced_of_ne_missed ht (by simp)) hpush).tail
    (unraced_of_ne_missed ht' (by simp)) hannounce

/-- A call that has found no buffer makes one while there is still none, pushes the entry, and
begins with the next one. -/
theorem reaches_of_missed (ht : s.tasks[i]? = some ⟨.missed, entry :: rest⟩)
    (hb : s.buffers.get? entry.service = none) :
    Runs.Reaches step Unraced s
      ((((s.insertBuffer entry.service).pushTo s.heap.length entry).announce entry).setTask i
        ⟨.lookup, rest⟩) := by
  have hinsert : s.step i =
      some ((s.insertBuffer entry.service).setTask i ⟨.holding s.heap.length, entry :: rest⟩) := by
    unfold step
    rw [ht]
  -- The insertion throws no buffer away.
  have hunraced : s.Unraced i := by
    unfold Unraced overwrites
    rw [ht]
    have hnot := IndexMap.get?_eq_none_iff.mp hb
    exact Bool.eq_false_iff.mpr fun h => hnot (IndexMap.contains_iff.mp h)
  have hlast := reaches_of_holding (getElem?_setTask (s := s.insertBuffer entry.service)
    ⟨.holding s.heap.length, entry :: rest⟩ ht)
  have heq : ((((s.insertBuffer entry.service).setTask i
      ⟨.holding s.heap.length, entry :: rest⟩).pushTo s.heap.length entry).announce
        entry).setTask i ⟨.lookup, rest⟩ =
      (((s.insertBuffer entry.service).pushTo s.heap.length entry).announce entry).setTask i
        ⟨.lookup, rest⟩ :=
    setTask_setTask (s := ((s.insertBuffer entry.service).pushTo s.heap.length entry).announce
      entry) _ _
  rw [heq] at hlast
  exact Runs.Reaches.head hunraced hinsert hlast

/-- A call of `push` does the steps of a task that nobody interrupts. -/
theorem reaches_push {reserves : ℕ → Bool} {s' : LogStore}
    (ht : s.tasks[i]? = some ⟨.lookup, entry :: rest⟩) (h : s.push reserves entry = some s') :
    Runs.Reaches step Unraced s (s'.setTask i ⟨.lookup, rest⟩) := by
  obtain ⟨r, hr, rfl⟩ := Option.map_eq_some_iff.mp h
  have hlookup : s.step i =
      some (s.setTask i ⟨s.lookedUp entry.service, entry :: rest⟩) := by
    unfold step
    rw [ht]
  have hfirst := Runs.Reaches.single (unraced_of_ne_missed ht (by simp)) hlookup
  have ht' := getElem?_setTask ⟨s.lookedUp entry.service, entry :: rest⟩ ht
  unfold bufferFor at hr
  unfold lookedUp at hfirst ht'
  cases hb : s.buffers.get? entry.service with
  | some b =>
    rw [hb] at hr hfirst ht'
    obtain rfl := Option.some.inj hr
    have heq : (((s.setTask i ⟨.holding b, entry :: rest⟩).pushTo b entry).announce entry).setTask i
        ⟨.lookup, rest⟩ = ((s.pushTo b entry).announce entry).setTask i ⟨.lookup, rest⟩ :=
      setTask_setTask (s := (s.pushTo b entry).announce entry) _ _
    exact heq ▸ hfirst.trans (reaches_of_holding ht')
  | none =>
    rw [hb] at hr hfirst ht'
    dsimp only at hr
    split_ifs at hr
    obtain rfl := Option.some.inj hr
    have heq : ((((s.setTask i ⟨.missed, entry :: rest⟩).insertBuffer entry.service).pushTo
        s.heap.length entry).announce entry).setTask i ⟨.lookup, rest⟩ =
        (((s.insertBuffer entry.service).pushTo s.heap.length entry).announce entry).setTask i
          ⟨.lookup, rest⟩ :=
      setTask_setTask (s := ((s.insertBuffer entry.service).pushTo s.heap.length entry).announce
        entry) _ _
    exact heq ▸ hfirst.trans (reaches_of_missed ht' hb)

end Step

/-! ## The buffers -/

section Push

variable {reserves : ℕ → Bool} {s s' : LogStore}

/-- A call of `push` keeps the invariant, and adds its entry. -/
theorem Coherent.push (hs : s.Coherent) (hc : 0 < s.bufferCapacity) {entry : LogEntry}
    (h : s.push reserves entry = some s') :
    s'.Coherent ∧ s'.bufferCapacity = s.bufferCapacity ∧ s'.pushed = s.pushed ++ [entry] := by
  obtain ⟨r, hr, rfl⟩ := Option.map_eq_some_iff.mp h
  have announce : ∀ {s : LogStore}, s.Coherent → (s.announce entry).Coherent := fun hs =>
    ⟨hs.made, hs.unshared, hs.current, hs.kept⟩
  unfold bufferFor at hr
  cases hb : s.buffers.get? entry.service with
  | some b =>
    rw [hb] at hr
    obtain rfl := Option.some.inj hr
    exact ⟨announce (hs.pushTo hc hb), rfl, rfl⟩
  | none =>
    rw [hb] at hr
    dsimp only at hr
    split_ifs at hr
    obtain rfl := Option.some.inj hr
    have hget : (s.insertBuffer entry.service).buffers.get? entry.service = some s.heap.length :=
      (s.buffers.get?_insert _ _ _).trans (if_pos rfl)
    exact ⟨announce ((hs.insertBuffer hc hb).pushTo hc hget), rfl, rfl⟩

/-- Any number of calls one after the other leaves the store coherent, keeps the capacity, and
pushes the entries in order. -/
theorem Coherent.pushAll {entries : List LogEntry} (hs : s.Coherent) (hc : 0 < s.bufferCapacity)
    (h : s.pushAll reserves entries = some s') :
    s'.Coherent ∧ s'.bufferCapacity = s.bufferCapacity ∧ s'.pushed = s.pushed ++ entries := by
  induction entries generalizing s with
  | nil =>
    obtain rfl := Option.some.inj h
    exact ⟨hs, rfl, (List.append_nil _).symm⟩
  | cons entry entries ih =>
    obtain ⟨t, ht, h⟩ := Option.bind_eq_some_iff.mp h
    obtain ⟨hcoherent, hcapacity, hpushed⟩ := hs.push hc ht
    obtain ⟨hcoherent', hcapacity', hpushed'⟩ := ih hcoherent (hcapacity.symm ▸ hc) h
    refine ⟨hcoherent', hcapacity'.trans hcapacity, ?_⟩
    rw [hpushed', hpushed, List.append_assoc]
    rfl

/-- Where the memory for a buffer is there, no call panics. -/
theorem exists_pushAll (hr : reserves s.bufferCapacity = true) (entries : List LogEntry) :
    ∃ s', s.pushAll reserves entries = some s' := by
  induction entries generalizing s with
  | nil => exact ⟨s, rfl⟩
  | cons entry entries ih =>
    obtain ⟨r, hfor, hcapacity⟩ : ∃ r, s.bufferFor reserves entry.service = some r ∧
        r.1.bufferCapacity = s.bufferCapacity := by
      unfold bufferFor
      cases s.buffers.get? entry.service with
      | some b => exact ⟨_, rfl, rfl⟩
      | none => exact ⟨_, if_pos hr, rfl⟩
    obtain ⟨s', hs'⟩ := ih (s := (r.1.pushTo r.2 entry).announce entry) (hcapacity.symm ▸ hr)
    refine ⟨s', ?_⟩
    rw [LogStore.pushAll, LogStore.push, hfor]
    exact hs'

/-- Where the memory for a buffer is not there, the first call panics. -/
theorem pushAll_new_eq_none {c : ℕ} (hr : reserves c = false) {entries : List LogEntry}
    (hne : entries ≠ []) : (new c []).pushAll reserves entries = none := by
  cases entries with
  | nil => exact (hne rfl).elim
  | cons entry entries =>
    have hpush : (new c []).push reserves entry = none := by
      unfold push bufferFor
      rw [show (new c []).buffers.get? entry.service = none from rfl]
      exact congrArg (Option.map _) (if_neg (by simp [new, hr]))
    rw [pushAll, hpush]
    rfl

/-- The store with room for one entry in each buffer at least. -/
def raise (s : LogStore) : LogStore := { s with bufferCapacity := max s.bufferCapacity 1 }

/-- A buffer with room for nothing is like one with room for one entry. -/
theorem push_raise {entry : LogEntry} (h : s.push reserves entry = some s') :
    s.raise.push (fun _ => true) entry = some s'.raise := by
  obtain ⟨r, hr, rfl⟩ := Option.map_eq_some_iff.mp h
  have hto : ∀ (s : LogStore) b, s.raise.pushTo b entry = (s.pushTo b entry).raise := by
    intro s b
    simp only [pushTo, raise, Ring.push_max_one]
  unfold push
  unfold bufferFor at hr ⊢
  rw [show s.raise.buffers.get? entry.service = s.buffers.get? entry.service from rfl]
  cases hb : s.buffers.get? entry.service with
  | some b =>
    rw [hb] at hr
    obtain rfl := Option.some.inj hr
    rw [Option.map_some, hto]
    rfl
  | none =>
    rw [hb] at hr
    dsimp only at hr
    split_ifs at hr
    obtain rfl := Option.some.inj hr
    dsimp only
    rw [if_pos rfl, Option.map_some]
    exact congrArg (fun s => some (announce s entry)) (hto (s.insertBuffer entry.service) _)

/-- Raising the capacity before any number of calls is the same as doing so after them. -/
theorem pushAll_raise {entries : List LogEntry} (h : s.pushAll reserves entries = some s') :
    s.raise.pushAll (fun _ => true) entries = some s'.raise := by
  induction entries generalizing s with
  | nil =>
    obtain rfl := Option.some.inj h
    rfl
  | cons entry entries ih =>
    obtain ⟨t, ht, h⟩ := Option.bind_eq_some_iff.mp h
    rw [pushAll, push_raise ht]
    exact ih h

end Push

/-- What the store has after some entries have been pushed to a new one, whatever its capacity
is. -/
theorem coherent_raise {reserves : ℕ → Bool} {c : ℕ} {entries : List LogEntry} {s : LogStore}
    (h : (new c []).pushAll reserves entries = some s) :
    s.raise.Coherent ∧ ∀ service,
      s.bufferOf service = Ring.recent (max c 1) (ofService service entries) := by
  have hraise := pushAll_raise h
  have hpos : 0 < max c 1 := Nat.lt_of_lt_of_le Nat.one_pos (Nat.le_max_right c 1)
  obtain ⟨hs, hcapacity, hpushed⟩ := Coherent.pushAll (coherent_new (max c 1) []) hpos hraise
  refine ⟨hs, fun service => ?_⟩
  have hkept := hs.kept service
  rw [hcapacity, pushedFor, hpushed] at hkept
  exact hkept.symm

/-! ## The tail -/

section Tail

variable {reserves : ℕ → Bool} {c : ℕ} {entries : List LogEntry} {s : LogStore}
  (h : (new c []).pushAll reserves entries = some s)

/-- `tail` on some entries gives the last `n` by their timestamps. -/
theorem isTail_tailOf (n : ℕ) (all : List LogEntry) : IsTail all n (tailOf n all) := by
  refine ⟨all.insertionSort LogEntry.le, List.perm_insertionSort _ _,
    List.pairwise_insertionSort _ _, fun time => ?_, tailOf_eq n all⟩
  refine filter_insertionSort_of_forall LogEntry.le (fun x hx y hy => ?_) all
  rw [decide_eq_true_eq] at hx hy
  exact Nat.le_of_eq (hx.trans hy.symm)

/-- The buffers that `tail` copies are those of the services. -/
theorem tail_eq {order : List (String × ℕ)} (horder : order.Perm s.buffers.entries)
    (services : List String) (n : ℕ) :
    s.tail order services n =
      tailOf n ((order.filter fun p => selects services p.1).flatMap fun p => s.bufferOf p.1) := by
  unfold tail
  congr 1
  refine List.flatMap_congr fun p hp => ?_
  have hget : s.buffers.get? p.1 = some p.2 :=
    IndexMap.get?_eq_some_iff.mpr (horder.mem_iff.mp (List.mem_filter.mp hp).1)
  rw [bufferOf, hget]

include h in
/-- A buffer has entries of its service only. -/
theorem ofService_bufferOf (service name : String) :
    ofService service (s.bufferOf name) = if name = service then s.bufferOf service else [] := by
  have hmem : ∀ e ∈ s.bufferOf name, e.service = name := by
    intro e he
    rw [(coherent_raise h).2] at he
    exact of_decide_eq_true (List.mem_filter.mp ((recent_sublist _ _).subset he)).2
  unfold ofService
  split_ifs with heq
  · subst heq
    exact List.filter_eq_self.mpr fun e he => decide_eq_true (hmem e he)
  · refine List.filter_eq_nil_iff.mpr fun e he hservice => heq ?_
    exact (hmem e he).symm.trans (of_decide_eq_true hservice)

/-- Of different services, one at most is the service. -/
theorem flatMap_ite_suffix {ps : List (String × ℕ)} (hps : (ps.map Prod.fst).Nodup)
    (service : String) (l : List LogEntry) :
    (ps.flatMap fun p => if p.1 = service then l else []) <:+ l := by
  induction ps with
  | nil => exact List.nil_suffix
  | cons p ps ih =>
    obtain ⟨hp, hps⟩ := List.nodup_cons.mp hps
    rw [List.flatMap_cons]
    split_ifs with heq
    · have hnil : (ps.flatMap fun q => if q.1 = service then l else []) = [] := by
        refine List.flatMap_eq_nil_iff.mpr fun q hq => if_neg fun hservice => hp ?_
        rw [heq, ← hservice]
        exact List.mem_map_of_mem hq
      rw [hnil]
      exact ⟨[], List.append_nil l⟩
    · exact ih hps

include h in
/-- Of the buffers of different services, one at most has entries of a service. -/
theorem ofService_flatMap_suffix {ps : List (String × ℕ)} (hps : (ps.map Prod.fst).Nodup)
    (service : String) :
    ofService service (ps.flatMap fun p => s.bufferOf p.1) <:+ s.bufferOf service := by
  have hflat : ofService service (ps.flatMap fun p => s.bufferOf p.1) =
      ps.flatMap fun p => if p.1 = service then s.bufferOf service else [] := by
    rw [ofService, List.filter_flatMap]
    exact List.flatMap_congr fun p _ => ofService_bufferOf h service p.1
  rw [hflat]
  exact flatMap_ite_suffix hps service _

include h in
/-- The entries of one service with the same timestamp keep their order. -/
theorem atTime_tail_suffix {order : List (String × ℕ)} (horder : order.Perm s.buffers.entries)
    (services : List String) (n : ℕ) (service : String) (time : ℕ) :
    atTime time (ofService service (s.tail order services n)) <:+
      atTime time (ofService service entries) := by
  set all := (order.filter fun p => selects services p.1).flatMap fun p => s.bufferOf p.1 with hall
  obtain ⟨sorted, -, -, hstable, hshown⟩ := isTail_tailOf n all
  have hkeys : ((order.filter fun p => selects services p.1).map Prod.fst).Nodup :=
    ((horder.map Prod.fst).nodup_iff.mpr s.buffers.nodup).sublist (List.filter_sublist.map _)
  have hcomm : ∀ l, atTime time (ofService service l) = ofService service (atTime time l) :=
    fun l => List.filter_comm _ _ l
  have hbuffer : s.bufferOf service <:+ ofService service entries := by
    rw [(coherent_raise h).2]
    exact List.drop_suffix _ _
  rw [tail_eq horder, ← hall, hshown]
  have hdrop : Ring.recent n sorted <:+ sorted := List.drop_suffix _ _
  have hsorted : atTime time (ofService service sorted) = atTime time (ofService service all) := by
    rw [hcomm, hcomm]
    exact congrArg (ofService service) (hstable time)
  have hlast : atTime time (ofService service (Ring.recent n sorted)) <:+
      atTime time (ofService service sorted) := (hdrop.filter _).filter _
  rw [hsorted] at hlast
  exact hlast.trans (((ofService_flatMap_suffix h hkeys service).trans hbuffer).filter _)

end Tail

/-- After pushes one after another, every buffer has the latest entries and `tail` shows the last
ones of them, if and only if nothing is pushed, or there is room for an entry and memory for a
buffer. -/
theorem retains_iff (reserves : ℕ → Bool) (c : ℕ) (entries : List LogEntry) :
    (∃ s, (new c []).pushAll reserves entries = some s ∧ s.Retains c entries) ↔
      entries = [] ∨ (1 ≤ c ∧ reserves c = true) := by
  constructor
  · rintro ⟨s, hs, hretains⟩
    refine or_iff_not_imp_left.mpr fun hne => ?_
    obtain ⟨entry, rest, rfl⟩ := List.exists_cons_of_ne_nil hne
    constructor
    · -- A buffer has an entry at least once something has been pushed for its service.
      have hbuffer := congrArg List.length
        (((coherent_raise hs).2 entry.service).symm.trans (hretains.buffers entry.service))
      rw [Ring.length_recent, Ring.length_recent] at hbuffer
      have hpos : 0 < (ofService entry.service (entry :: rest)).length := by
        simp [ofService]
      omega
    · by_contra hr
      rw [pushAll_new_eq_none (Bool.eq_false_iff.mpr hr) hne] at hs
      cases hs
  · intro hcond
    have hex : ∃ s, (new c []).pushAll reserves entries = some s := by
      rcases hcond with rfl | ⟨-, hr⟩
      · exact ⟨_, rfl⟩
      · exact exists_pushAll hr entries
    obtain ⟨s, hs⟩ := hex
    refine ⟨s, hs, fun service => ?_, fun order services n horder => ?_,
      fun order services n horder => atTime_tail_suffix hs horder services n⟩
    · rw [(coherent_raise hs).2]
      rcases hcond with rfl | ⟨hc, -⟩
      · rw [ofService, List.filter_nil, Ring.recent_nil, Ring.recent_nil]
      · rw [Nat.max_eq_left hc]
    · rw [tail_eq horder]
      exact isTail_tailOf n _

/-- With the capacity zero, which the command line admits, a buffer keeps one entry. -/
theorem not_retains_zero : ¬ ∀ reserves c entries,
    ∃ s, (new c []).pushAll reserves entries = some s ∧ s.Retains c entries := by
  intro h
  obtain ⟨s, hs, hretains⟩ := h (fun _ => true) 0 [printed .stdout "x"]
  obtain rfl := Option.some.inj hs
  exact absurd (hretains.buffers "a") (by decide)

end LogStore

end Vigil
