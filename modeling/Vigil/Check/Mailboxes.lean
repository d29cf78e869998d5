import Vigil.Check.BoardSteps

/-!
# Questions to the check actors

What the overlord's handler may have left to do in a state of a run (`Handling`), and from that,
that an actor's mailbox has one command at most: the overlord asks one actor at a time and waits for
its answer, and it tells an actor to end once. So it never waits for room in a mailbox, and no
shutdown is lost although it is sent without waiting (`prompt_of_reaches`).

It does wait for the answers. An actor that has reports to send waits for room in the channel of the
check events, and nobody takes events out of it while the overlord waits. `answerable_iff` says when
the answer can still come: when the reports that the actor still owes fit into the channel.
-/

namespace Vigil.Check

open CheckTask (TaskStep)
open Runs

/-! ## Tasks -/

namespace CheckTask

variable {t t' : CheckTask} {now : ℕ} {eff : Effect}

/-- A shutdown is in the mailbox, or the task has returned. -/
def Told (t : CheckTask) : Prop := t.phase = .ended ∨ t.mailbox = [.shutdown]

/-- Nothing is on its way from or to the task, but a shutdown if the handle is gone. -/
structure Quiet (t : CheckTask) : Prop where
  answer : t.answer = none
  ended : t.phase = .ended → t.mailbox = []
  held : t.held = true → t.mailbox = []
  told : t.held = false → t.Told
  /-- Without a shutdown only a tick of no length ends it. -/
  panicked : t.held = true → t.phase = .ended → t.config.periodMs = 0

/-- Nothing is on its way from or to the task, but a shutdown. -/
structure Settled (t : CheckTask) : Prop where
  answer : t.answer = none
  ended : t.phase = .ended → t.mailbox = []
  mailbox : t.mailbox = [] ∨ t.mailbox = [.shutdown]

/-- The task has been asked for its status, and has yet to take the question, or has answered it or
returned. -/
inductive Asked (t : CheckTask) : Prop
  | waiting (hh : t.held = true) (hm : t.mailbox = [.getStatus]) (ha : t.answer = none)
    (hp : t.phase ≠ .ended)
  | answered (hh : t.held = true) (hm : t.mailbox = []) (ha : t.answer ≠ none ∨ t.phase = .ended)
    (hz : t.phase = .ended → t.config.periodMs = 0)

/-- A quiet task is settled. -/
theorem Quiet.settled (h : t.Quiet) : t.Settled where
  answer := h.answer
  ended := h.ended
  mailbox := by
    cases hh : t.held with
    | true => exact .inl (h.held hh)
    | false => exact (h.told hh).imp h.ended id

/-- A task that has just been spawned is quiet. -/
theorem quiet_new (name : String) (config : CheckConfig) (services : IndexMap String ServiceConfig)
    (initial : CheckStatus) : (new name config services initial).Quiet :=
  ⟨rfl, fun _ => rfl, fun _ => rfl, nofun, fun _ => nofun⟩

/-- There is room for a command in an empty mailbox. -/
theorem push_of_nil (hm : t.mailbox = []) (c : Cmd) : t.push c =
    some (if t.phase = .ended then t else { t with mailbox := [c] }) := by
  unfold push
  split_ifs with he hc
  · rfl
  · rw [hm, List.nil_append]
  · rw [hm] at hc
    exact absurd (by decide) hc

/-- A quiet task that is sent a shutdown is settled and has been told. -/
theorem Quiet.push_shutdown (h : t.Quiet) (hh : t.held = true)
    (hp : t.push .shutdown = some t') : t'.Settled ∧ t'.Told := by
  rw [push_of_nil (h.held hh)] at hp
  obtain rfl := Option.some.inj hp
  split_ifs with he
  · exact ⟨h.settled, .inl he⟩
  · exact ⟨⟨h.answer, fun hc => absurd hc he, .inr rfl⟩, .inr rfl⟩

/-- A task that has been told to end, with the end of the handle. -/
theorem Settled.unheld (h : t.Settled) (ht : t.Told) : { t with held := false }.Quiet :=
  ⟨h.answer, h.ended, nofun, fun _ => ht, nofun⟩

/-- A quiet task stays quiet when it is sent a shutdown and its handle ends. -/
theorem Quiet.release (h : t.Quiet) (hh : t.held = true) : t.release.Quiet := by
  unfold CheckTask.release
  rw [push_of_nil (h.held hh), Option.getD_some]
  obtain ⟨hset, htold⟩ := h.push_shutdown hh (push_of_nil (h.held hh) _)
  exact hset.unheld htold

/-- A quiet task that is sent a question has been asked. -/
theorem Quiet.asked_push (h : t.Quiet) (hh : t.held = true)
    (hp : t.push .getStatus = some t') : t'.Asked := by
  have hm := h.held hh
  rw [push_of_nil hm] at hp
  obtain rfl := Option.some.inj hp
  split_ifs with he
  · exact .answered hh hm (.inr he) (h.panicked hh)
  · exact .waiting hh rfl h.answer he

/-- The answer of a task has been received. -/
theorem Asked.quiet (h : t.Asked) (ha : t.answer ≠ none ∨ t.phase = .ended) :
    { t with answer := none }.Quiet := by
  cases h with
  | waiting _ _ hnone hp =>
    rcases ha with ha | ha
    · exact absurd hnone ha
    · exact absurd ha hp
  | answered hh hm _ hz =>
    exact ⟨rfl, fun _ => hm, fun _ => hm, fun hc => absurd (hh.symm.trans hc) nofun, fun _ => hz⟩

/-- After a probe and after a report a task goes on. -/
theorem afterProbe_ne_ended (statuses : List CheckStatus) : afterProbe statuses ≠ .ended := by
  cases statuses <;> simp [afterProbe]

/-- A settled task stays settled in every step. -/
theorem Settled.step (h : t.Settled) (hs : TaskStep now t eff t') : t'.Settled := by
  cases hs with
  | status hp hm => rcases h.mailbox with hnil | hnil <;> rw [hm] at hnil <;> cases hnil
  | shutdown | closed | panicked => exact ⟨h.answer, fun _ => rfl, .inl rfl⟩
  | elapsed hp hm hh hperiod => exact ⟨h.answer, nofun, .inl hm⟩
  | ticked hp hm hh => exact ⟨h.answer, nofun, .inl hm⟩
  | probed ok hp => exact ⟨h.answer, fun hc => absurd hc (afterProbe_ne_ended _), h.mailbox⟩
  | reported hp => exact ⟨h.answer, fun hc => absurd hc (afterProbe_ne_ended _), h.mailbox⟩

/-- A task that has been told to end goes on. -/
theorem Told.step (h : t.Told) (hs : TaskStep now t eff t') : t'.Told := by
  rcases h with h | h
  · cases hs with
    | status hp | shutdown hp | closed hp => rw [h] at hp; simp at hp
    | elapsed hp | panicked hp | ticked hp | probed _ hp | reported hp => rw [h] at hp; cases hp
  · cases hs with
    | status _ hm | elapsed _ hm | ticked _ hm => rw [h] at hm; cases hm
    | shutdown | closed | panicked => exact .inl rfl
    | probed | reported => exact .inr h

/-- A quiet task stays quiet in every step. -/
theorem Quiet.step (h : t.Quiet) (hs : TaskStep now t eff t') : t'.Quiet := by
  obtain ⟨ha, he, -⟩ := h.settled.step hs
  refine ⟨ha, he, fun hh => ?_, fun hh => ?_, fun hh hend => ?_⟩ <;> rw [hs.keeps.2.1] at hh
  · -- What is in the mailbox now was there before.
    have hm := h.held hh
    cases hs with
    | status _ hm' | shutdown _ hm' => rw [hm] at hm'; cases hm'
    | closed | panicked => rfl
    | elapsed | ticked | probed | reported => exact hm
  · exact (h.told hh).step hs
  · have hm := h.held hh
    cases hs with
    | status => exact h.panicked hh hend
    | elapsed | ticked => cases hend
    | shutdown _ hm' => rw [hm] at hm'; cases hm'
    | closed _ _ hh' => rw [hh] at hh'; cases hh'
    | panicked _ _ _ hperiod => exact hperiod
    | probed | reported => exact absurd hend (afterProbe_ne_ended _)

/-- A task that has been asked goes on. -/
theorem Asked.step (h : t.Asked) (hs : TaskStep now t eff t') : t'.Asked := by
  cases h with
  | waiting hh hm ha hp =>
    cases hs with
    | status _ hm' =>
      rw [hm] at hm'
      obtain ⟨-, rfl⟩ := List.cons.inj hm'
      exact .answered hh rfl (.inl (Option.some_ne_none _)) fun hend => absurd hend hp
    | shutdown _ hm' => rw [hm] at hm'; cases hm'
    | closed _ hm' | elapsed _ hm' | panicked _ hm' | ticked _ hm' => rw [hm] at hm'; cases hm'
    | probed ok _ => exact .waiting hh hm ha (afterProbe_ne_ended _)
    | reported _ => exact .waiting hh hm ha (afterProbe_ne_ended _)
  | answered hh hm ha hz =>
    cases hs with
    | status _ hm' | shutdown _ hm' => rw [hm] at hm'; cases hm'
    | closed _ _ hh' => rw [hh] at hh'; cases hh'
    | panicked _ _ _ hperiod => exact .answered hh rfl (.inr rfl) fun _ => hperiod
    | elapsed hp | ticked hp =>
      exact .answered hh hm (.inl (ha.resolve_right (by rw [hp]; simp))) nofun
    | probed _ hp | reported hp =>
      exact .answered hh hm (.inl (ha.resolve_right (by rw [hp]; simp))) fun hend =>
        absurd hend (afterProbe_ne_ended _)

/-- At most one command is in the mailbox. -/
theorem Settled.length_le (h : t.Settled) : t.mailbox.length ≤ 1 := by
  rcases h.mailbox with hm | hm <;> rw [hm] <;> simp

/-- At most one command is in the mailbox. -/
theorem Asked.length_le (h : t.Asked) : t.mailbox.length ≤ 1 := by
  cases h with
  | waiting _ hm | answered _ hm => rw [hm]; simp

/-- The overlord has the handle of a task that it has asked. -/
theorem Asked.held (h : t.Asked) : t.held = true := by
  cases h with
  | waiting hh | answered hh => exact hh

end CheckTask

/-! ### Lists of tasks -/

/-- A lookup among the tasks after one has been replaced. -/
theorem getElem?_set_cases {tasks : List CheckTask} {i j : ℕ} {t u : CheckTask}
    (h : (tasks.set i t)[j]? = some u) : j = i ∧ u = t ∨ j ≠ i ∧ tasks[j]? = some u := by
  rw [List.getElem?_set] at h
  split_ifs at h with h₁ h₂
  · exact .inl ⟨h₁.symm, (Option.some.inj h).symm⟩
  · exact .inr ⟨fun hj => h₁ hj.symm, h⟩

/-- What holds of all tasks holds of them after one has been replaced by a task of which it
holds. -/
theorem forall_set {P : ℕ → CheckTask → Prop} {tasks : List CheckTask} {i : ℕ} {t : CheckTask}
    (h : ∀ (j : ℕ) (u : CheckTask), tasks[j]? = some u → P j u) (ht : P i t) :
    ∀ j u, (tasks.set i t)[j]? = some u → P j u := by
  intro j u hu
  rcases getElem?_set_cases hu with ⟨rfl, rfl⟩ | ⟨-, hu⟩
  · exact ht
  · exact h j u hu

/-- Something holds of every task. -/
def Every (P : CheckTask → Prop) (tasks : List CheckTask) : Prop :=
  ∀ (i : ℕ) (t : CheckTask), tasks[i]? = some t → P t

/-- Something holds of every task after one has been replaced. -/
theorem Every.set {P : CheckTask → Prop} {tasks : List CheckTask} (h : Every P tasks) {i : ℕ}
    {t : CheckTask} (ht : P t) : Every P (tasks.set i t) := forall_set h ht

/-! ## The overlord's handlers -/

/-- The questions of a query. -/
def asks (es : List (String × CheckEntry)) : List BoardInstr :=
  es.flatMap fun e => [.ask e.2.id, .receive e.2.id]

/-- The actors of entries. -/
def ids (es : List (String × CheckEntry)) : List ℕ := es.map fun e => e.2.id

/-- The shutdowns of `stop_all`. -/
def tells (es : List (String × CheckEntry)) : List BoardInstr := es.map fun e => .tell e.2.id

/-- An action between which the overlord neither waits for an answer nor ends. -/
def BoardInstr.IsFree : BoardInstr → Prop
  | .services | .sync _ | .drop _ => True
  | _ => False

/-- What the overlord's handler may have left to do, and what that says about the tasks. -/
inductive Handling (checks : IndexMap String CheckEntry) (tasks : List CheckTask) :
    List BoardInstr → Bool → Prop
  | free {todo} (h : ∀ i ∈ todo, i.IsFree) (hq : Every CheckTask.Quiet tasks) :
    Handling checks tasks todo false
  | querying {es names} (hes : ∀ e ∈ es, checks.get? e.1 = some e.2)
    (hq : Every CheckTask.Quiet tasks) : Handling checks tasks (asks es ++ [.reply names]) false
  | awaiting {e es names} (hes : ∀ f ∈ e :: es, checks.get? f.1 = some f.2)
    (hq : ∀ (i : ℕ) (t : CheckTask), tasks[i]? = some t → i ≠ e.2.id → t.Quiet)
    (ha : ∀ t : CheckTask, tasks[e.2.id]? = some t → t.Asked) :
    Handling checks tasks (.receive e.2.id :: (asks es ++ [.reply names])) false
  | stopping {es} (hes : ∀ e ∈ es, checks.get? e.1 = some e.2) (hids : (ids es).Nodup)
    (hs : Every CheckTask.Settled tasks)
    (ht : ∀ (i : ℕ) (t : CheckTask), tasks[i]? = some t →
      (i ∈ ids es → t.Quiet) ∧ (i ∉ ids es → t.Told)) :
    Handling checks tasks (tells es ++ [.finish]) false
  | stopAll {es} (hes : ∀ e ∈ es, checks.get? e.1 = some e.2) (hids : (ids es).Nodup)
    (hq : Every CheckTask.Quiet tasks)
    (ht : ∀ (i : ℕ) (t : CheckTask), tasks[i]? = some t → i ∉ ids es → t.Told) :
    Handling checks tasks (.services :: (tells es ++ [.finish])) false
  | ended (hs : Every CheckTask.Settled tasks) (ht : Every CheckTask.Told tasks) :
    Handling checks tasks [] true

namespace Handling

variable {checks : IndexMap String CheckEntry} {tasks : List CheckTask}
  {todo rest : List BoardInstr} {ended : Bool}

/-- A free handler goes on with the rest, and so does the end of the daemon. -/
theorem tail (hh : Handling checks tasks todo ended) {i : BoardInstr} (h : todo = i :: rest)
    (hi : i.IsFree) : ended = false ∧ Every CheckTask.Quiet tasks ∧
      ((∀ j ∈ rest, j.IsFree) ∨ i = .services ∧ ∃ es, rest = tells es ++ [.finish] ∧
        (∀ e ∈ es, checks.get? e.1 = some e.2) ∧ (ids es).Nodup ∧
          ∀ (j : ℕ) (t : CheckTask), tasks[j]? = some t → j ∉ ids es → t.Told) := by
  cases hh with
  | free hfree hq =>
    refine ⟨rfl, hq, .inl fun j hj => hfree j ?_⟩
    rw [h]
    exact List.mem_cons_of_mem _ hj
  | @querying es _ hes hq => cases es <;> cases h <;> cases hi
  | awaiting => cases h; cases hi
  | @stopping es => cases es <;> cases h <;> cases hi
  | @stopAll es hes hids hq ht =>
    obtain ⟨rfl, rfl⟩ := List.cons.inj h
    exact ⟨rfl, hq, .inr ⟨rfl, es, rfl, hes, hids, ht⟩⟩
  | ended => cases h

/-- Before a question the rest of the query is to receive its answer, to ask the other entries and
to reply, and all tasks are quiet. -/
theorem ask (hh : Handling checks tasks todo ended) {i : ℕ} (h : todo = .ask i :: rest) :
    ended = false ∧ ∃ e es names, i = e.2.id ∧
      rest = .receive e.2.id :: (asks es ++ [.reply names]) ∧
        (∀ f ∈ e :: es, checks.get? f.1 = some f.2) ∧ Every CheckTask.Quiet tasks := by
  cases hh with
  | free hfree => exact (hfree (.ask i) (h ▸ List.mem_cons_self)).elim
  | @querying es names hes hq =>
    cases es with
    | nil => cases h
    | cons e es =>
      cases h
      exact ⟨rfl, e, es, names, rfl, rfl, hes, hq⟩
  | awaiting | stopAll | ended => cases h
  | @stopping es => cases es <;> cases h

/-- Before an answer the rest of the query is to ask the other entries and to reply, the task in
question has been asked, and the others are quiet. -/
theorem receive (hh : Handling checks tasks todo ended) {i : ℕ} (h : todo = .receive i :: rest) :
    ended = false ∧ ∃ e es names, i = e.2.id ∧ rest = asks es ++ [.reply names] ∧
      (∀ f ∈ e :: es, checks.get? f.1 = some f.2) ∧
        (∀ (j : ℕ) (t : CheckTask), tasks[j]? = some t → j ≠ e.2.id → t.Quiet) ∧
          ∀ t : CheckTask, tasks[e.2.id]? = some t → t.Asked := by
  cases hh with
  | free hfree => exact (hfree (.receive i) (h ▸ List.mem_cons_self)).elim
  | @querying es => cases es <;> cases h
  | @awaiting e es names hes hq ha =>
    cases h
    exact ⟨rfl, e, es, names, rfl, rfl, hes, hq, ha⟩
  | stopAll | ended => cases h
  | @stopping es => cases es <;> cases h

/-- Before the reply to a query nothing else is left to do, and all tasks are quiet. -/
theorem reply (hh : Handling checks tasks todo ended) {names : List String}
    (h : todo = .reply names :: rest) : ended = false ∧ rest = [] ∧
      Every CheckTask.Quiet tasks := by
  cases hh with
  | free hfree => exact (hfree (.reply names) (h ▸ List.mem_cons_self)).elim
  | @querying es _ hes hq =>
    cases es with
    | nil =>
      cases h
      exact ⟨rfl, rfl, hq⟩
    | cons => cases h
  | awaiting | stopAll | ended => cases h
  | @stopping es => cases es <;> cases h

/-- Before a shutdown of `stop_all` the rest is to tell the other entries and to end; the tasks of
these are quiet, and those of the others have been told. -/
theorem tell (hh : Handling checks tasks todo ended) {i : ℕ} (h : todo = .tell i :: rest) :
    ended = false ∧ ∃ e es, i = e.2.id ∧ rest = tells es ++ [.finish] ∧
      (∀ f ∈ e :: es, checks.get? f.1 = some f.2) ∧ (ids (e :: es)).Nodup ∧
        Every CheckTask.Settled tasks ∧ ∀ (j : ℕ) (t : CheckTask), tasks[j]? = some t →
          (j ∈ ids (e :: es) → t.Quiet) ∧ (j ∉ ids (e :: es) → t.Told) := by
  cases hh with
  | free hfree => exact (hfree (.tell i) (h ▸ List.mem_cons_self)).elim
  | @querying es => cases es <;> cases h
  | awaiting | stopAll | ended => cases h
  | @stopping es hes hids hs ht =>
    cases es with
    | nil => cases h
    | cons e es =>
      cases h
      exact ⟨rfl, e, es, rfl, rfl, hes, hids, hs, ht⟩

/-- Before the end all tasks are settled and have been told. -/
theorem finish (hh : Handling checks tasks todo ended) (h : todo = .finish :: rest) :
    ended = false ∧ Every CheckTask.Settled tasks ∧ Every CheckTask.Told tasks := by
  cases hh with
  | free hfree => exact (hfree .finish (h ▸ List.mem_cons_self)).elim
  | @querying es => cases es <;> cases h
  | awaiting | stopAll | ended => cases h
  | @stopping es hes hids hs ht =>
    cases es with
    | nil => exact ⟨rfl, hs, fun j t hj => (ht j t hj).2 List.not_mem_nil⟩
    | cons => cases h

/-- When nothing is left to do and the overlord has not ended, all tasks are quiet. -/
theorem head (hh : Handling checks tasks todo ended) (h : todo = []) (he : ended = false) :
    Every CheckTask.Quiet tasks := by
  cases hh with
  | free _ hq => exact hq
  | @querying es => cases es <;> cases h
  | awaiting | stopAll => cases h
  | @stopping es => cases es <;> cases h
  | ended => cases he

/-- Every task is settled, but the one that has been asked. -/
theorem settled_or_asked (hh : Handling checks tasks todo ended) {j : ℕ} {t : CheckTask}
    (ht : tasks[j]? = some t) : t.Settled ∨ t.Asked ∧ todo.head? = some (.receive j) := by
  cases hh with
  | free _ hq | querying _ hq | stopAll _ _ hq _ => exact .inl (hq j t ht).settled
  | @awaiting e es names hes hq ha =>
    by_cases hj : j = e.2.id
    · subst hj
      exact .inr ⟨ha t ht, rfl⟩
    · exact .inl (hq j t ht hj).settled
  | stopping _ _ hs _ | ended hs => exact .inl (hs j t ht)

/-- A task whose handle is gone has been told to end. -/
theorem told (hh : Handling checks tasks todo ended) {j : ℕ} {t : CheckTask}
    (ht : tasks[j]? = some t) (hheld : t.held = false) : t.Told := by
  cases hh with
  | free _ hq | querying _ hq | stopAll _ _ hq _ => exact (hq j t ht).told hheld
  | @awaiting e es names hes hq ha =>
    by_cases hj : j = e.2.id
    · subst hj
      exact absurd ((ha t ht).held.symm.trans hheld) nofun
    · exact (hq j t ht hj).told hheld
  | @stopping es _ _ _ htold =>
    by_cases hj : j ∈ ids es
    · exact ((htold j t ht).1 hj).told hheld
    · exact (htold j t ht).2 hj
  | ended _ htold => exact htold j t ht

/-- A step of a task does nothing to what the overlord's handler may have left to do. -/
theorem task (hh : Handling checks tasks todo ended) {i now : ℕ} {t t' : CheckTask}
    {eff : CheckTask.Effect} (ht : tasks[i]? = some t) (hs : TaskStep now t eff t') :
    Handling checks (tasks.set i t') todo ended := by
  cases hh with
  | free hfree hq => exact .free hfree (hq.set ((hq i t ht).step hs))
  | querying hes hq => exact .querying hes (hq.set ((hq i t ht).step hs))
  | @awaiting e es names hes hq ha =>
    refine .awaiting hes (forall_set (P := fun j u => j ≠ e.2.id → u.Quiet) hq
      fun hne => (hq i t ht hne).step hs) fun u hu => ?_
    rcases getElem?_set_cases hu with ⟨rfl, rfl⟩ | ⟨-, hu⟩
    · exact (ha t ht).step hs
    · exact ha u hu
  | @stopping es hes hids hset htold =>
    exact .stopping hes hids (hset.set ((hset i t ht).step hs)) (forall_set htold
      ⟨fun hi => ((htold i t ht).1 hi).step hs, fun hi => ((htold i t ht).2 hi).step hs⟩)
  | @stopAll es hes hids hq htold =>
    exact .stopAll hes hids (hq.set ((hq i t ht).step hs))
      (forall_set (P := fun j u => j ∉ ids es → u.Told) htold fun hi => (htold i t ht hi).step hs)
  | ended hset htold =>
    exact .ended (hset.set ((hset i t ht).step hs)) (htold.set ((htold i t ht).step hs))

end Handling

namespace Board

variable {s s' : Board}

/-- What every state of a run satisfies. -/
structure Inv (s : Board) : Prop where
  handling : Handling s.checks s.tasks s.todo s.ended
  /-- The entries are those of the actors whose handles the overlord has. -/
  coherent : s.ended = false → s.registry.Coherent
  events : s.events.length ≤ eventCapacity

/-! ### Tasks of a board -/

/-- An entry is that of a task which is held and has its name and configuration. -/
theorem exists_task (hc : s.registry.Coherent) {name : String} {e : CheckEntry}
    (he : s.checks.get? name = some e) : ∃ t, s.tasks[e.id]? = some t ∧ t.held = true ∧
      t.actor.name = name ∧ t.config = e.config := by
  obtain ⟨a, ⟨ha, htold⟩, hname, hconfig⟩ := hc.entry name e he
  have hmap : (s.tasks.map CheckTask.toActor)[e.id]? = some a := ha
  rw [List.getElem?_map] at hmap
  obtain ⟨t, ht, rfl⟩ := Option.map_eq_some_iff.mp hmap
  exact ⟨t, ht, by simpa [CheckTask.toActor] using htold, hname, hconfig⟩

/-- Entries with one actor are the same entry. -/
theorem name_eq_of_id (hc : s.registry.Coherent) {m n : String} {e f : CheckEntry}
    (he : s.checks.get? m = some e) (hf : s.checks.get? n = some f) (hid : e.id = f.id) :
    m = n := by
  obtain ⟨t, ht, -, hname, -⟩ := exists_task hc he
  obtain ⟨u, hu, -, hname', -⟩ := exists_task hc hf
  rw [hid, hu] at ht
  obtain rfl := Option.some.inj ht
  exact hname.symm.trans hname'

/-- The actors of the entries are distinct. -/
theorem nodup_ids (hc : s.registry.Coherent) : (ids s.checks.entries).Nodup := by
  refine List.Nodup.map_on (fun e he f hf hid => ?_) (List.Nodup.of_map _ s.checks.nodup)
  have hname := name_eq_of_id hc (IndexMap.get?_eq_some_iff.mpr he)
    (IndexMap.get?_eq_some_iff.mpr hf) hid
  obtain ⟨m, e⟩ := e
  obtain ⟨n, f⟩ := f
  obtain rfl : m = n := hname
  rw [IndexMap.eq_of_mem_entries he hf]

/-- A task without an entry has no handle. -/
theorem held_eq_false (hc : s.registry.Coherent) {i : ℕ} {t : CheckTask}
    (ht : s.tasks[i]? = some t) (hi : i ∉ ids s.checks.entries) : t.held = false := by
  by_contra hheld
  have hlive : s.registry.Live i t.toActor := by
    refine ⟨?_, by simpa [CheckTask.toActor] using hheld⟩
    show (s.tasks.map CheckTask.toActor)[i]? = _
    rw [List.getElem?_map, ht, Option.map_some]
  obtain ⟨e, he, hid⟩ := hc.live i _ hlive
  exact hi (List.mem_map.mpr ⟨_, IndexMap.get?_eq_some_iff.mp he, hid⟩)

/-! ### The reload -/

/-- The tasks are quiet, and the entries theirs. -/
structure AllQuiet (s : Board) : Prop where
  coherent : s.registry.Coherent
  quiet : Every CheckTask.Quiet s.tasks

/-- If all tasks are quiet, they are after an actor has been spawned. -/
theorem AllQuiet.spawn (h : s.AllQuiet) {name : String} (config : CheckConfig)
    (hn : s.checks.get? name = none) : (s.spawn name config).AllQuiet where
  coherent := by
    rw [registry_spawn]
    exact (h.coherent.spawn config hn).1
  quiet i t ht := by
    rcases List.mem_append.mp (List.mem_of_getElem? ht) with hmem | hmem
    · obtain ⟨j, hj⟩ := List.mem_iff_getElem?.mp hmem
      exact h.quiet j t hj
    · rw [List.mem_singleton.mp hmem]
      exact CheckTask.quiet_new _ _ _ _

/-- If all tasks are quiet, they are after the actor of an entry has been retired. -/
theorem AllQuiet.retire (h : s.AllQuiet) {name : String} {e : CheckEntry}
    (he : s.checks.get? name = some e) : (s.retire name e).AllQuiet where
  coherent := by
    rw [registry_retire]
    exact (h.coherent.retire he).1
  quiet i t ht := by
    obtain ⟨u, hu, hheld, -, -⟩ := exists_task h.coherent he
    simp only [Board.retire, List.getElem?_modify] at ht
    by_cases hid : e.id = i
    · subst hid
      rw [hu] at ht
      obtain rfl : u.release = t := by simpa using ht
      exact (h.quiet _ u hu).release hheld
    · refine h.quiet i t ?_
      cases hti : s.tasks[i]? <;> simp_all

/-- If all tasks are quiet, they are after a check's turn in `sync_actors`. -/
theorem AllQuiet.syncCheck (h : s.AllQuiet) (e : String × CheckConfig) :
    (s.syncCheck e).AllQuiet := by
  unfold Board.syncCheck
  split_ifs with hdis
  · exact h
  · cases hget : s.checks.get? e.1 with
    | none => exact h.spawn e.2 hget
    | some entry =>
      simp only
      split_ifs with hconfig
      · exact h
      · refine (h.retire hget).spawn e.2 ?_
        exact (s.checks.get?_shiftRemove e.1 e.1).trans (if_pos rfl)

/-- If all tasks are quiet, they are after `sync_actors`. -/
theorem AllQuiet.syncActors (h : s.AllQuiet) : s.syncActors.AllQuiet := by
  unfold Board.syncActors
  induction s.plan.checks.entries generalizing s with
  | nil => exact h
  | cons e es ih => exact ih (h.syncCheck e)

/-- A check's turn in `sync_actors` changes nothing but the entries and the tasks. -/
theorem syncCheck_keeps (e : String × CheckConfig) :
    (s.syncCheck e).events = s.events ∧ (s.syncCheck e).ended = s.ended ∧
      (s.syncCheck e).todo = s.todo ∧ (s.syncCheck e).lastStatus = s.lastStatus ∧
        (s.syncCheck e).metrics = s.metrics ∧ (s.syncCheck e).answers = s.answers ∧
          (s.syncCheck e).infos = s.infos ∧ (s.syncCheck e).plan = s.plan := by
  unfold syncCheck
  split_ifs
  · exact ⟨rfl, rfl, rfl, rfl, rfl, rfl, rfl, rfl⟩
  · cases s.checks.get? e.1 with
    | none => exact ⟨rfl, rfl, rfl, rfl, rfl, rfl, rfl, rfl⟩
    | some entry =>
      simp only
      split_ifs <;> exact ⟨rfl, rfl, rfl, rfl, rfl, rfl, rfl, rfl⟩

/-- `sync_actors` changes nothing but the entries and the tasks. -/
theorem syncActors_keeps : s.syncActors.events = s.events ∧ s.syncActors.ended = s.ended ∧
    s.syncActors.todo = s.todo ∧ s.syncActors.lastStatus = s.lastStatus ∧
      s.syncActors.metrics = s.metrics ∧ s.syncActors.answers = s.answers ∧
        s.syncActors.infos = s.infos ∧ s.syncActors.plan = s.plan := by
  unfold syncActors
  induction s.plan.checks.entries generalizing s with
  | nil => exact ⟨rfl, rfl, rfl, rfl, rfl, rfl, rfl, rfl⟩
  | cons e es ih =>
    obtain ⟨h₁, h₂, h₃, h₄, h₅, h₆, h₇, h₈⟩ := ih (s := s.syncCheck e)
    obtain ⟨k₁, k₂, k₃, k₄, k₅, k₆, k₇, k₈⟩ := s.syncCheck_keeps e
    exact ⟨h₁.trans k₁, h₂.trans k₂, h₃.trans k₃, h₄.trans k₄, h₅.trans k₅, h₆.trans k₆,
      h₇.trans k₇, h₈.trans k₈⟩

/-! ### Steps -/

/-- A task with the same parameters in place of another does nothing to the registry. -/
theorem registry_setTask {i : ℕ} {t t' : CheckTask} (ht : s.tasks[i]? = some t)
    (h : t'.toActor = t.toActor) : (s.setTask i t').registry = s.registry := by
  have hmap : (s.tasks.set i t').map CheckTask.toActor = s.tasks.map CheckTask.toActor := by
    refine List.ext_getElem? fun j => ?_
    rw [List.getElem?_map, List.getElem?_map, List.getElem?_set]
    split_ifs with hij hlt
    · rw [← hij, ht, Option.map_some, Option.map_some, h]
    · rw [← hij, List.getElem?_eq_none (Nat.le_of_not_lt hlt)]
    · rfl
  simp only [registry, setTask, hmap]

/-- A check that the plan no longer has is retired. -/
theorem registry_dropped {name : String} {e : CheckEntry} {t t' : CheckTask}
    (ht : s.tasks[e.id]? = some t) (hp : t.push .shutdown = some t') (rest : List BoardInstr) :
    ({ s.setTask e.id { t' with held := false } with
        checks := s.checks.shiftRemove name, todo := rest } : Board).registry =
      s.registry.retire name e := by
  have htold : CheckTask.toActor { t' with held := false } = { t.toActor with told := true } := by
    have hkeeps := (CheckTask.push_keeps hp).1
    simp only [CheckTask.toActor, CheckActor.mk.injEq] at hkeeps ⊢
    exact ⟨hkeeps.1, hkeeps.2.1, hkeeps.2.2.1, rfl⟩
  have hmap : (s.tasks.set e.id { t' with held := false }).map CheckTask.toActor =
      (s.tasks.map CheckTask.toActor).modify e.id fun a => { a with told := true } := by
    refine List.ext_getElem? fun j => ?_
    rw [List.getElem?_map, List.getElem?_set, List.getElem?_modify, List.getElem?_map]
    split_ifs with hij hlt
    · rw [← hij, ht, Option.map_some, htold]
      rfl
    · exact absurd (List.getElem?_eq_some_iff.mp ht).1 (by omega)
    · cases s.tasks[j]? <;> rfl
  simp only [registry, setTask, CheckRegistry.retire, hmap]

/-- An effect changes nothing but the channel of check events and the metrics. -/
theorem afterEffect_keeps (t : CheckTask) (eff : CheckTask.Effect) :
    (s.afterEffect t eff).checks = s.checks ∧ (s.afterEffect t eff).tasks = s.tasks ∧
      (s.afterEffect t eff).todo = s.todo ∧ (s.afterEffect t eff).ended = s.ended ∧
        (s.afterEffect t eff).plan = s.plan ∧ (s.afterEffect t eff).lastStatus = s.lastStatus ∧
          (s.afterEffect t eff).infos = s.infos ∧ (s.afterEffect t eff).answers = s.answers := by
  cases eff with
  | sent status =>
    unfold afterEffect
    simp only
    split_ifs <;> exact ⟨rfl, rfl, rfl, rfl, rfl, rfl, rfl, rfl⟩
  | _ => exact ⟨rfl, rfl, rfl, rfl, rfl, rfl, rfl, rfl⟩

/-- A report that there is room for does not overflow the channel of check events. -/
theorem length_events_afterEffect (h : s.events.length ≤ eventCapacity) (t : CheckTask)
    {eff : CheckTask.Effect} (hroom : s.HasRoom eff) :
    (s.afterEffect t eff).events.length ≤ eventCapacity := by
  cases eff with
  | sent status =>
    unfold afterEffect
    simp only
    split_ifs with he
    · exact h
    · rw [List.length_append, List.length_singleton]
      exact hroom.resolve_left he
  | _ => exact h

/-- The invariant is kept by a step of one task, with what it has on the channel. -/
theorem Inv.task (h : s.Inv) {i : ℕ} {t t' : CheckTask} {eff : CheckTask.Effect}
    (ht : s.tasks[i]? = some t) (hs : TaskStep s.now t eff t') (hroom : s.HasRoom eff) :
    ((s.setTask i t').afterEffect t eff).Inv := by
  obtain ⟨hchecks, htasks, htodo, hended, hplan, -⟩ := (s.setTask i t').afterEffect_keeps t eff
  have hreg : ((s.setTask i t').afterEffect t eff).registry = (s.setTask i t').registry := by
    simp only [registry, hplan, hchecks, htasks]
  have hevents : (s.setTask i t').events.length ≤ eventCapacity := h.events
  refine ⟨?_, fun he => ?_, length_events_afterEffect hevents t (by cases eff <;> exact hroom)⟩
  · rw [hchecks, htasks, htodo, hended]
    exact h.handling.task ht hs
  · rw [hreg, registry_setTask ht hs.keeps.1]
    exact h.coherent (hended ▸ he)

/-- At the loop head every task is quiet. -/
theorem Inv.quiet (h : s.Inv) (hhead : s.atHead = true) :
    s.ended = false ∧ Every CheckTask.Quiet s.tasks := by
  simp only [atHead, Bool.and_eq_true, Bool.not_eq_true', List.isEmpty_iff] at hhead
  exact ⟨hhead.2, h.handling.head hhead.1 hhead.2⟩

/-- If all tasks are quiet, `stop_all` is to tell each of them once and then to end. -/
theorem Inv.handling_stopAll (h : s.Inv) (he : s.ended = false)
    (hq : Every CheckTask.Quiet s.tasks) : Handling s.checks s.tasks s.stopAll false :=
  .stopAll (fun _ hmem => IndexMap.get?_eq_some_iff.mpr hmem) (nodup_ids (h.coherent he)) hq
    fun i t ht hi => (hq i t ht).told (held_eq_false (h.coherent he) ht hi)

/-- The invariant is kept by the next action of the overlord's handler. -/
theorem Inv.overlord (h : s.Inv) {i : BoardInstr} {rest : List BoardInstr}
    (htodo : s.todo = i :: rest) (hs : OverlordStep s i rest s') : s'.Inv := by
  cases hs with
  | services =>
    obtain ⟨he, hq, hrest⟩ := h.handling.tail htodo trivial
    refine ⟨?_, h.coherent, h.events⟩
    rw [he]
    rcases hrest with hrest | ⟨-, es, rfl, hes, hids, htold⟩
    · exact .free hrest hq
    · exact .stopping hes hids (fun i t ht => (hq i t ht).settled) fun i t ht =>
        ⟨fun _ => hq i t ht, htold i t ht⟩
  | @ask i rest t t' ht hp =>
    obtain ⟨he, e, es, names, rfl, rfl, hes, hq⟩ := h.handling.ask htodo
    obtain ⟨u, hu, hheld, -, -⟩ := exists_task (h.coherent he) (hes e List.mem_cons_self)
    obtain rfl : u = t := Option.some.inj (hu.symm.trans ht)
    have hreg := registry_setTask ht (CheckTask.push_keeps hp).1
    refine ⟨?_, fun he => hreg ▸ h.coherent he, h.events⟩
    show Handling s.checks (s.tasks.set e.2.id t') _ s.ended
    rw [he]
    refine .awaiting hes (fun j v hv hne => ?_) fun v hv => ?_
    · rcases getElem?_set_cases hv with ⟨hj, -⟩ | ⟨-, hv⟩
      · exact (hne hj).elim
      · exact hq j v hv
    · rcases getElem?_set_cases hv with ⟨-, rfl⟩ | ⟨hne, -⟩
      · exact (hq _ u hu).asked_push hheld hp
      · exact (hne rfl).elim
  | @receive i rest t ht ha =>
    obtain ⟨he, e, es, names, rfl, rfl, hes, hq, hasked⟩ := h.handling.receive htodo
    have hreg : (s.setTask e.2.id { t with answer := none }).registry = s.registry :=
      registry_setTask ht rfl
    refine ⟨?_, fun he => hreg ▸ h.coherent he, h.events⟩
    show Handling s.checks (s.tasks.set e.2.id { t with answer := none }) _ s.ended
    rw [he]
    refine .querying (fun f hf => hes f (List.mem_cons_of_mem _ hf)) fun j v hv => ?_
    rcases getElem?_set_cases hv with ⟨-, rfl⟩ | ⟨hne, hv⟩
    · exact (hasked t ht).quiet ha
    · exact hq j v hv hne
  | @reply names rest =>
    obtain ⟨he, rfl, hq⟩ := h.handling.reply htodo
    exact ⟨he ▸ .free (List.forall_mem_nil _) hq, h.coherent, h.events⟩
  | @sync plan rest =>
    obtain ⟨he, hq, hrest⟩ := h.handling.tail htodo trivial
    have hrest : ∀ j ∈ rest, j.IsFree := hrest.resolve_right fun hc => nomatch hc.1
    have hall : ({ s with plan } : Board).AllQuiet :=
      ⟨⟨(h.coherent he).entry, (h.coherent he).live⟩, hq⟩
    obtain ⟨hevents, hended, -⟩ := ({ s with plan } : Board).syncActors_keeps
    refine ⟨?_, fun _ => hall.syncActors.coherent, ?_⟩
    · show Handling (s.sync plan).checks (s.sync plan).tasks _ (s.sync plan).ended
      rw [show (s.sync plan).ended = false from hended.trans he]
      refine .free (fun j hj => ?_) hall.syncActors.quiet
      rcases List.mem_append.mp hj with hj | hj
      · rcases List.mem_cons.mp hj with rfl | hj
        · trivial
        · obtain ⟨name, -, rfl⟩ := List.mem_map.mp hj
          trivial
      · rcases List.mem_cons.mp hj with rfl | hj
        · trivial
        · exact hrest j hj
    · show (s.sync plan).events.length ≤ eventCapacity
      rw [show (s.sync plan).events = s.events from hevents]
      exact h.events
  | @dropped name rest hn =>
    obtain ⟨he, hq, hrest⟩ := h.handling.tail htodo trivial
    refine ⟨?_, h.coherent, h.events⟩
    rw [he]
    exact .free (hrest.resolve_right fun hc => nomatch hc.1) hq
  | @drop name rest e t t' hn ht hp =>
    obtain ⟨he, hq, hrest⟩ := h.handling.tail htodo trivial
    obtain ⟨u, hu, hheld, -, -⟩ := exists_task (h.coherent he) hn
    obtain rfl : u = t := Option.some.inj (hu.symm.trans ht)
    refine ⟨?_, fun _ => ?_, h.events⟩
    · obtain ⟨hset, htold⟩ := (hq _ u hu).push_shutdown hheld hp
      show Handling (s.checks.shiftRemove name) (s.tasks.set e.id _) _ s.ended
      rw [he]
      exact .free (hrest.resolve_right fun hc => nomatch hc.1) (hq.set (hset.unheld htold))
    · exact registry_dropped ht hp rest ▸ ((h.coherent he).retire hn).1
  | @tell i rest t t' ht hp =>
    obtain ⟨he, e, es, rfl, rfl, hes, hids, hset, htold⟩ := h.handling.tell htodo
    obtain ⟨u, hu, hheld, -, -⟩ := exists_task (h.coherent he) (hes e List.mem_cons_self)
    obtain rfl : u = t := Option.some.inj (hu.symm.trans ht)
    have hquiet : u.Quiet := (htold _ u hu).1 (List.mem_cons_self (a := e.2.id) (l := ids es))
    obtain ⟨hset', htold'⟩ := hquiet.push_shutdown hheld hp
    have hreg := registry_setTask ht (CheckTask.push_keeps hp).1
    refine ⟨?_, fun he => hreg ▸ h.coherent he, h.events⟩
    show Handling s.checks (s.tasks.set e.2.id t') _ s.ended
    rw [he]
    obtain ⟨hnot, hids⟩ := List.nodup_cons.mp hids
    refine .stopping (fun f hf => hes f (List.mem_cons_of_mem _ hf)) hids (hset.set hset')
      fun j v hv => ?_
    rcases getElem?_set_cases hv with ⟨rfl, rfl⟩ | ⟨hne, hv⟩
    · exact ⟨fun hj => (hnot hj).elim, fun _ => htold'⟩
    · refine ⟨fun hj => (htold j v hv).1 (List.mem_cons_of_mem _ hj), fun hj => ?_⟩
      exact (htold j v hv).2 fun hmem => (List.mem_cons.mp hmem).elim hne hj
  | finish =>
    obtain ⟨he, hset, htold⟩ := h.handling.finish htodo
    refine ⟨.ended (fun j v hv => ?_) fun j v hv => ?_, nofun, h.events⟩ <;>
      rw [List.getElem?_map] at hv <;> obtain ⟨u, hu, rfl⟩ := Option.map_eq_some_iff.mp hv
    · exact ⟨(hset j u hu).answer, (hset j u hu).ended, (hset j u hu).mailbox⟩
    · exact htold j u hu

/-- The invariant is kept by every step of the board. -/
theorem Inv.step (h : s.Inv) {l : BoardLabel} (hs : s.step l = some s') : s'.Inv := by
  cases step_cases hs with
  | pass d => exact ⟨h.handling, h.coherent, h.events⟩
  | task ht hstep hroom => exact h.task ht hstep hroom
  | overlord _ htodo hstep => exact h.overlord htodo hstep
  | query hhead names =>
    obtain ⟨he, hq⟩ := h.quiet hhead
    refine ⟨?_, h.coherent, h.events⟩
    rw [show s.ended = false from he]
    refine .querying (fun e hmem => IndexMap.get?_eq_some_iff.mpr ?_) hq
    exact (List.mem_filter.mp hmem).1
  | command hhead plans =>
    obtain ⟨he, hq⟩ := h.quiet hhead
    refine ⟨?_, h.coherent, h.events⟩
    rw [show s.ended = false from he]
    refine .free (fun j hj => ?_) hq
    rcases List.mem_append.mp hj with hj | hj
    · obtain ⟨p, -, hj⟩ := List.mem_flatMap.mp hj
      simp only [List.mem_cons, List.not_mem_nil, or_false] at hj
      rcases hj with rfl | rfl <;> trivial
    · rw [List.mem_singleton.mp hj]
      trivial
  | shutdown hhead =>
    obtain ⟨he, hq⟩ := h.quiet hhead
    refine ⟨?_, h.coherent, h.events⟩
    rw [show s.ended = false from he]
    exact h.handling_stopAll he hq
  | @event ev rest exits _ hhead hev =>
    obtain ⟨he, hq⟩ := h.quiet hhead
    have hlen : rest.length ≤ eventCapacity := by
      have := h.events
      rw [hev, List.length_cons] at this
      omega
    refine ⟨?_, h.coherent, hlen⟩
    show Handling s.checks s.tasks (if exits then s.stopAll else [.services]) s.ended
    rw [he]
    split_ifs
    · exact h.handling_stopAll he hq
    · refine .free (fun j hj => ?_) hq
      rw [List.mem_singleton.mp hj]
      trivial

/-- The invariant holds when the overlord's task starts. -/
theorem inv_start (plan : MergedPlan) : (start plan).Inv := by
  have hall : ({ plan } : Board).AllQuiet :=
    { coherent := CheckRegistry.coherent_empty plan
      quiet := fun i t h => by cases h }
  obtain ⟨hevents, hended, -⟩ := ({ plan } : Board).syncActors_keeps
  refine ⟨?_, fun _ => hall.syncActors.coherent, ?_⟩
  · show Handling _ _ [.services] ({ plan } : Board).syncActors.ended
    rw [hended]
    refine .free (fun j hj => ?_) hall.syncActors.quiet
    rw [List.mem_singleton.mp hj]
    trivial
  · show ({ plan } : Board).syncActors.events.length ≤ eventCapacity
    rw [hevents]
    exact Nat.zero_le _

/-- Every state of a run satisfies the invariant. -/
theorem inv_of_reaches {plan : MergedPlan} (h : Reaches Board.step Always (start plan) s) :
    s.Inv :=
  h.invariant (inv_start plan) fun _ _ _ _ hs _ hl => hs.step hl

/-- A command for a task whose mailbox is empty. -/
theorem isSome_push {t : CheckTask} (hm : t.mailbox = []) (c : Cmd) : (t.push c).isSome = true := by
  rw [CheckTask.push_of_nil hm]
  rfl

/-- The overlord's handler goes on, or waits for the answer of an actor that has its question. -/
theorem Inv.overlord_goes_on (h : s.Inv) (htodo : s.todo ≠ []) :
    (s.step .overlord).isSome = true ∨ ∃ i t, s.todo.head? = some (.receive i) ∧
      s.tasks[i]? = some t ∧ t.mailbox = [.getStatus] ∧ t.phase ≠ .ended := by
  obtain ⟨i, rest, htodo⟩ := List.exists_cons_of_ne_nil htodo
  cases i with
  | services | reply | sync | finish =>
    refine .inl ?_
    simp only [Board.step, overlordStep, htodo]
    rfl
  | ask i =>
    obtain ⟨he, e, es, names, rfl, -, hes, hq⟩ := h.handling.ask htodo
    obtain ⟨t, ht, hheld, -, -⟩ := exists_task (h.coherent he) (hes e List.mem_cons_self)
    refine .inl ?_
    simp only [Board.step, overlordStep, htodo, ht, Option.bind_some, Option.isSome_map]
    exact isSome_push ((hq _ t ht).held hheld) _
  | receive i =>
    obtain ⟨he, e, es, names, rfl, -, hes, -, hasked⟩ := h.handling.receive htodo
    obtain ⟨t, ht, -, -, -⟩ := exists_task (h.coherent he) (hes e List.mem_cons_self)
    cases hasked t ht with
    | waiting _ hm ha hp => exact .inr ⟨e.2.id, t, by rw [htodo]; rfl, ht, hm, hp⟩
    | answered _ _ ha =>
      refine .inl ?_
      simp only [Board.step, overlordStep, htodo, ht, Option.bind_some, Option.isSome_map]
      rw [CheckTask.takeAnswer, if_pos (by simpa [Option.ne_none_iff_isSome] using ha)]
      rfl
  | drop name =>
    refine .inl ?_
    obtain ⟨he, hq, -⟩ := h.handling.tail htodo trivial
    cases hget : s.checks.get? name with
    | none =>
      simp only [Board.step, overlordStep, htodo, hget]
      rfl
    | some e =>
      obtain ⟨t, ht, hheld, -, -⟩ := exists_task (h.coherent he) hget
      simp only [Board.step, overlordStep, htodo, hget, ht, Option.bind_some, Option.isSome_map]
      exact isSome_push ((hq _ t ht).held hheld) _
  | tell i =>
    obtain ⟨he, e, es, rfl, -, hes, -, -, htold⟩ := h.handling.tell htodo
    obtain ⟨t, ht, hheld, -, -⟩ := exists_task (h.coherent he) (hes e List.mem_cons_self)
    have hquiet : t.Quiet := (htold _ t ht).1 (List.mem_cons_self (a := e.2.id) (l := ids es))
    refine .inl ?_
    simp only [Board.step, overlordStep, htodo, ht, Option.bind_some, Option.isSome_map]
    exact isSome_push (hquiet.held hheld) _

/-- In every state of a run an actor's mailbox has at most one command, and an actor whose handle is
gone has returned or has a shutdown in its mailbox: none of those that are sent without waiting is
lost. The overlord's handler can go on, unless it waits for the answer of an actor that has yet to
take the question. -/
theorem prompt_of_reaches {plan : MergedPlan} (h : Reaches Board.step Always (start plan) s) :
    (∀ t ∈ s.tasks, t.mailbox.length ≤ 1 ∧
      (t.held = false → t.phase = .ended ∨ t.mailbox = [.shutdown])) ∧
      (s.todo ≠ [] → (s.step .overlord).isSome = true ∨ ∃ i t, s.todo.head? = some (.receive i) ∧
        s.tasks[i]? = some t ∧ t.mailbox = [.getStatus] ∧ t.phase ≠ .ended) := by
  have hinv := inv_of_reaches h
  refine ⟨fun t ht => ?_, hinv.overlord_goes_on⟩
  obtain ⟨j, hj⟩ := List.mem_iff_getElem?.mp ht
  refine ⟨?_, hinv.handling.told hj⟩
  rcases hinv.handling.settled_or_asked hj with hset | ⟨hasked, -⟩
  · exact hset.length_le
  · exact hasked.length_le

/-- While the overlord waits for the answer of the only check. -/
theorem prompt_of_query : ∃ s,
    Reaches Board.step Always (start (CheckRegistry.checkPlan { startup := .enabled })) s ∧
      s.todo.length = 2 ∧ s.tasks.length = 1 ∧
        (∀ t ∈ s.tasks, t.mailbox.length ≤ 1 ∧
          (t.held = false → t.phase = .ended ∨ t.mailbox = [.shutdown])) ∧
        ((s.step .overlord).isSome = true ∨ ∃ i t, s.todo.head? = some (.receive i) ∧
          s.tasks[i]? = some t ∧ t.mailbox = [.getStatus] ∧ t.phase ≠ .ended) := by
  have hrun : (runIf Board.step Always (start (CheckRegistry.checkPlan { startup := .enabled }))
      [.overlord, .query [], .overlord]).any
        (fun s => s.todo.length == 2 && s.tasks.length == 1) = true := by decide
  obtain ⟨s, hr, hs⟩ := Reaches.exists_of_runIf _ hrun
  simp only [Bool.and_eq_true, beq_iff_eq] at hs
  obtain ⟨hmailboxes, hgoes⟩ := prompt_of_reaches hr
  exact ⟨s, hr, hs.1, hs.2, hmailboxes, hgoes (List.ne_nil_of_length_eq_add_one hs.1)⟩

end Board

end Vigil.Check
