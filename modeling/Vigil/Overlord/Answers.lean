import Vigil.Overlord.Wiring

/-!
# Commands and their answers

What the overlord's handler may have left to do in a state of a run (`Overlord.Handling`), and from
that, that every answer has one command behind it and one task that waits for it: of the commands in
an actor's mailbox that are answered, the answer that is left in its turn, and the answer that has
not been received, there are together as many as tasks wait for it, and that is one at most
(`Daemon.Answered`). So nobody takes an answer for another's, and a start in a mailbox has the
overlord waiting for it.
-/

namespace Vigil

open Actor (Input)

/-- A command that an actor answers. -/
def Cmd.isAnswered : Cmd → Bool
  | .start | .stop | .restart => true
  | .status | .forwardSignal _ | .shutdown => false

/-- An action that answers a command. -/
def Instr.isReply : Instr → Bool
  | .reply _ => true
  | _ => false

/-- An input that is answered. -/
def Actor.Input.isAnswered : Input → Bool
  | .cmd c _ => c.isAnswered
  | _ => false

/-- A turn answers its command once, if it is one that is answered. -/
theorem Actor.countP_isReply_script (a : Actor) (inp : Input) :
    (a.script inp).countP Instr.isReply = inp.isAnswered.toNat := by
  have hstart : ∀ ok, (a.handleStart ok).countP Instr.isReply = 1 := by
    intro ok
    unfold handleStart doStart
    split_ifs <;> rfl
  cases inp with
  | cmd c ok =>
    cases c with
    | start => exact hstart ok
    | stop =>
      simp only [script]
      unfold handleStop
      cases a.state <;> rfl
    | restart =>
      simp only [script]
      unfold handleRestart
      split_ifs
      · rfl
      · exact hstart ok
    | status => rfl
    | forwardSignal sig => rfl
    | shutdown =>
      simp only [script]
      unfold cleanup
      split_ifs <;> rfl
  | childExit success ok =>
    simp only [script]
    unfold handleChildExit applyExitPolicy doStart
    repeat' split
    all_goals rfl
  | killDeadline =>
    simp only [script]
    unfold handleKillDeadline
    split_ifs <;> rfl
  | backoffExpired ok =>
    simp only [script]
    unfold handleBackoffExpired doStart
    split_ifs <;> rfl

/-! ## Handlers -/

namespace Overlord

/-- An action that a handler may begin with, less the end of the daemon. A request is for a command
that is answered, and a command that is sent without a wait is one that is not. -/
def Instr.isCall : Instr → Bool
  | .request _ c _ => c.isAnswered
  | .sendTo _ _ c _ => !c.isAnswered
  | .enable _ | .reload => true
  | _ => false

/-- A handler before its first action, and between two calls. -/
inductive Handler : List Instr → Prop
  | nil : Handler []
  | call {i : Instr} {rest : List Instr} (hi : i.isCall = true) (h : Handler rest) :
    Handler (i :: rest)
  | shutdown (code : Option ℤ) : Handler [.stopAll, .join, .finish code]

/-- What is left of a handler at any time. -/
inductive Handling : List Instr → Prop
  | handler {todo : List Instr} (h : Handler todo) : Handling todo
  /-- A command is about to be sent. -/
  | asking {name : String} {id : ℕ} {c : Vigil.Cmd} {why : Reason} {rest : List Instr}
    (hc : c.isAnswered = true) (h : Handler rest) :
    Handling (.sendTo name id c why :: .await id :: rest)
  /-- The answer is waited for. -/
  | waiting {id : ℕ} {rest : List Instr} (h : Handler rest) : Handling (.await id :: rest)
  /-- The tasks of `stop_all` are waited for. -/
  | joining (code : Option ℤ) : Handling [.join, .finish code]
  | finishing (code : Option ℤ) : Handling [.finish code]

/-- Calls before a handler are a handler. -/
theorem Handler.append {is rest : List Instr} (hi : ∀ i ∈ is, i.isCall = true)
    (h : Handler rest) : Handler (is ++ rest) := by
  induction is with
  | nil => exact h
  | cons i is ih =>
    exact .call (hi i List.mem_cons_self) (ih fun j hj => hi j (List.mem_cons_of_mem _ hj))

/-- A list of calls is a handler. -/
theorem Handler.of_calls {is : List Instr} (hi : ∀ i ∈ is, i.isCall = true) : Handler is := by
  rw [← List.append_nil is]
  exact .append hi .nil

variable (o : Overlord)

/-- What `handle_svc_event` is to do is a handler. -/
theorem handler_handleSvcEvent (ev : Event) : Handler (o.handleSvcEvent ev).2 := by
  unfold handleSvcEvent
  split
  · simp only
    split_ifs
    · refine .of_calls fun i hi => ?_
      obtain ⟨name, -, rfl⟩ := List.mem_map.mp hi
      rfl
    · refine .of_calls fun i hi => ?_
      obtain ⟨name, -, rfl⟩ := List.mem_map.mp hi
      rfl
    · exact .nil
  · exact .nil
  · exact .shutdown _

/-- The actions on a failed check are a handler. -/
theorem handler_checkActions (check : String) (es : List (String × OnExit)) :
    Handler (checkActions check es) := by
  induction es with
  | nil => exact .nil
  | cons e es ih =>
    obtain ⟨name, action⟩ := e
    cases action with
    | restart => exact .call rfl ih
    | ignore => exact ih
    | shutdown => exact .shutdown _
    | successShutdown => exact .shutdown _
    | failureShutdown => exact .shutdown _

/-- What `handle_check_event` is to do is a handler. -/
theorem handler_handleCheckEvent (check : String) (status : CheckStatus) :
    Handler (o.handleCheckEvent check status) := by
  unfold handleCheckEvent
  split_ifs
  · exact handler_checkActions _ _
  · exact .nil

/-- What `handle_cmd` is to do is a handler. -/
theorem handler_handleCmd (c : Cmd) : Handler (o.handleCmd c) := by
  cases c with
  | services action names =>
    refine .of_calls fun i hi => ?_
    obtain ⟨name, -, hi⟩ := List.mem_flatMap.mp hi
    cases action <;> simp only [serviceAction, List.mem_cons, List.not_mem_nil, or_false] at hi
    case autostart => rcases hi with rfl | rfl <;> rfl
    all_goals rw [hi]; rfl
  | reloadLayers => exact .call rfl .nil
  | forwardSignal signal =>
    refine .of_calls fun i hi => ?_
    obtain ⟨e, -, rfl⟩ := List.mem_map.mp hi
    rfl
  | shutdown => exact .shutdown _
  | query => exact .nil

/-- What a reload is to do before a handler is a handler with it. -/
theorem handler_reloadLayers (plan : Plan) (next : ℕ) {rest : List Instr} (h : Handler rest) :
    Handler ((o.reloadLayers plan next).2.2 ++ rest) := by
  refine .append (fun i hi => ?_) h
  rcases List.mem_append.mp hi with hi | hi
  · obtain ⟨e, -, rfl⟩ := List.mem_map.mp hi
    rfl
  · obtain ⟨name, -, rfl⟩ := List.mem_map.mp hi
    rfl

/-- A handler does not begin with a wait. -/
theorem Handler.head? {todo : List Instr} (h : Handler todo) (id : ℕ) :
    todo.head? ≠ some (.await id) := by
  cases h with
  | nil => nofun
  | @call i rest hi h => rintro hh; obtain rfl := Option.some.inj hh; cases hi
  | shutdown code => nofun

/-- A handler does not begin in the middle of the end of the daemon. -/
theorem Handler.ne_joining {todo : List Instr} (h : Handler todo) (code : Option ℤ) :
    todo ≠ [.join, .finish code] := by
  rintro rfl
  cases h with
  | call hi h => cases hi

/-- A handler is not what is left before the end of the daemon. -/
theorem Handler.ne_finishing {todo : List Instr} (h : Handler todo) (code : Option ℤ) :
    todo ≠ [.finish code] := by
  rintro rfl
  cases h with
  | call hi h => cases hi

/-- What follows a call is a handler. -/
theorem Handler.tail {i : Instr} {rest : List Instr} (h : Handler (i :: rest)) (hi : i ≠ .stopAll) :
    Handler rest := by
  cases h with
  | call _ h => exact h
  | shutdown code => exact (hi rfl).elim

end Overlord

/-! ## Answers -/

/-- A count over a list in which one element is replaced. -/
theorem countP_set_add {α : Type*} (p : α → Bool) (l : List α) (i : ℕ) {x : α} (y : α)
    (h : l[i]? = some x) : (l.set i y).countP p + (p x).toNat = l.countP p + (p y).toNat := by
  induction l generalizing i with
  | nil => cases h
  | cons a l ih =>
    cases i with
    | zero =>
      obtain rfl : a = x := Option.some.inj h
      simp only [List.set_cons_zero, List.countP_cons]
      cases p a <;> cases p y <;> rfl
    | succ i =>
      simp only [List.set_cons_succ, List.countP_cons]
      have := ih i h
      omega

/-- The answers that an actor owes: for the commands in its mailbox, in its turn, and the one that
has not been received. -/
def Slot.owed (slot : Slot) : ℕ :=
  slot.mailbox.countP Cmd.isAnswered + slot.task.todo.countP Instr.isReply +
    slot.answer.toList.length

namespace Slot

variable {slot slot' : Slot} {t : Task} {now : ℕ}

/-- A command is owed an answer if it is one that is answered. -/
theorem owed_push {c : Cmd} (h : slot.push c = some slot') (he : slot'.task.ended = false) :
    slot'.owed = slot.owed + c.isAnswered.toNat := by
  rcases push_cases h with ⟨he', rfl⟩ | ⟨-, -, rfl⟩
  · rw [he'] at he; cases he
  · have hone : [c].countP Cmd.isAnswered = c.isAnswered.toNat := by cases c <;> rfl
    simp only [owed, List.countP_append, hone]
    omega

/-- An answer that is received is owed no more. -/
theorem owed_takeAnswer (h : slot.takeAnswer = some slot') (he : slot'.task.ended = false) :
    slot.owed = slot'.owed + 1 := by
  obtain ⟨ha, rfl⟩ := takeAnswer_cases h
  have ha : slot.answer.isSome := ha.resolve_right (by rw [he]; simp)
  obtain ⟨ok, hok⟩ := Option.isSome_iff_exists.mp ha
  simp [owed, hok]

/-- An answer that is given is owed until it is received. -/
theorem owed_act (h : slot.task.act now = some t) (hle : slot.owed ≤ 1) :
    ({ slot with task := t, answer := slot.nextAnswer } : Slot).owed = slot.owed := by
  obtain ⟨-, i, rest, htodo, -, rfl⟩ := Task.act_eq_some_iff.mp h
  simp only [owed, nextAnswer, htodo] at hle ⊢
  cases i with
  | reply ok =>
    -- There is no other answer, which this one would replace.
    have hone : List.countP Instr.isReply (.reply ok :: rest) =
        List.countP Instr.isReply rest + 1 :=
      List.countP_cons_of_pos rfl
    rw [hone] at hle ⊢
    simp only [Task.perform, Option.toList_some, List.length_singleton]
    omega
  | _ => rfl

/-- The command that is taken is owed its answer until it is given. -/
theorem owed_take {inp : Input} (h : slot.task.take now inp = some t)
    (hm : ∀ c ok, inp = .cmd c ok → slot.mailbox.head? = some c) :
    ({ slot with task := t, mailbox := slot.nextMailbox inp } : Slot).owed = slot.owed := by
  obtain ⟨hi, -, rfl⟩ := Task.take_eq_some_iff.mp h
  have htodo : slot.task.todo = [] := by
    simp only [Task.idle, Bool.and_eq_true, List.isEmpty_iff] at hi; exact hi.1.1
  simp only [owed, htodo, List.countP_nil, Actor.countP_isReply_script]
  cases inp with
  | cmd c ok =>
    obtain ⟨rest, hbox⟩ := List.head?_eq_some_iff.mp (hm c ok rfl)
    simp only [nextMailbox, hbox, List.tail_cons, List.countP_cons, Actor.Input.isAnswered]
    cases c.isAnswered <;> simp
  | _ => rfl

end Slot

namespace Daemon

open Runs

variable {s s' : Daemon} {l : Label}

/-- The tasks that wait for an answer of the actor: the overlord's, and those of `stop_all`. -/
def awaited (s : Daemon) (id : ℕ) : ℕ :=
  (if s.todo.head? = some (.await id) then 1 else 0) +
    s.stopTasks.countP fun t => decide (t.id = id ∧ t.phase = .await)

/-- As many answers are owed as are waited for. -/
structure Answered (s : Daemon) : Prop where
  handling : Overlord.Handling s.todo
  /-- No two tasks of `stop_all` are for the same actor. -/
  nodup : (s.stopTasks.map StopTask.id).Nodup
  /-- The tasks of `stop_all` are done, or waited for. -/
  joining : ∀ t ∈ s.stopTasks, t.phase = .done ∨ ∃ code, s.todo = [.join, .finish code]
  owed : ∀ id slot, s.slots[id]? = some slot → slot.task.ended = false → slot.owed = s.awaited id

/-- No answer of an actor is waited for if neither the handler nor a task of `stop_all` waits. -/
theorem awaited_eq_zero {id : ℕ} (hh : s.todo.head? ≠ some (.await id))
    (hd : ∀ t ∈ s.stopTasks, t.id = id → t.phase ≠ .await) : s.awaited id = 0 := by
  rw [awaited, if_neg hh, Nat.zero_add, List.countP_eq_zero]
  intro t ht
  simp only [decide_eq_true_eq, not_and]
  exact hd t ht

/-- Where the tasks of `stop_all` are done and the overlord does not wait, nobody is waited for. -/
theorem awaited_of_done {id : ℕ} (hd : ∀ t ∈ s.stopTasks, t.phase = .done)
    (hh : s.todo.head? ≠ some (.await id)) : s.awaited id = 0 :=
  awaited_eq_zero hh fun t ht _ => by simp [hd t ht]

/-- One answer of an actor is waited for if the handler waits and the tasks of `stop_all` are
done. -/
theorem awaited_of_await {id : ℕ} (hd : ∀ t ∈ s.stopTasks, t.phase = .done)
    (hh : s.todo.head? = some (.await id)) : s.awaited id = 1 := by
  rw [awaited, if_pos hh, List.countP_eq_zero.mpr fun t ht => by simp [hd t ht]]

/-- At its loop head, the overlord has no handler. -/
theorem handler_of_atHead (h : s.atHead = true) : Overlord.Handler s.todo := by
  simp only [atHead, Bool.and_eq_true, List.isEmpty_iff] at h
  rw [h.1]
  exact .nil

namespace Answered

/-- The tasks of `stop_all` are done, unless the overlord waits for them. -/
theorem done (H : s.Answered) (hj : ∀ code, s.todo ≠ [.join, .finish code]) :
    ∀ t ∈ s.stopTasks, t.phase = .done := by
  intro t ht
  rcases H.joining t ht with hd | ⟨code, hc⟩
  · exact hd
  · exact (hj code hc).elim

/-- At most one task waits for an actor. -/
theorem awaited_le_one (H : s.Answered) (id : ℕ) : s.awaited id ≤ 1 := by
  by_cases hh : s.todo.head? = some (.await id)
  · exact (awaited_of_await (H.done fun code hc => by rw [hc] at hh; cases hh) hh).le
  · rw [awaited, if_neg hh, Nat.zero_add]
    calc s.stopTasks.countP (fun t => decide (t.id = id ∧ t.phase = .await))
        ≤ s.stopTasks.countP fun t => decide (t.id = id) :=
          List.countP_mono_left fun t _ h => by simp_all
      _ = (s.stopTasks.map StopTask.id).count id := by
          rw [List.count, List.countP_map]
          exact List.countP_congr fun t _ => by simp
      _ ≤ 1 := List.nodup_iff_count_le_one.mp H.nodup id

/-- Between two calls of the overlord, nobody waits. -/
theorem awaited_of_handler (H : s.Answered) (h : Overlord.Handler s.todo) (id : ℕ) :
    s.awaited id = 0 :=
  awaited_of_done (H.done h.ne_joining) (h.head? id)

/-- A step of one actor that leaves what it owes. -/
theorem of_setSlot (H : s.Answered) {id : ℕ} {slot : Slot} (slot' : Slot)
    (hs : s.slots[id]? = some slot)
    (he : slot'.task.ended = false → slot.task.ended = false)
    (ho : slot'.task.ended = false → slot'.owed = slot.owed)
    (hslots : s'.slots = (s.setSlot id slot').slots) (htodo : s'.todo = s.todo)
    (hstop : s'.stopTasks = s.stopTasks) : s'.Answered where
  handling := htodo ▸ H.handling
  nodup := hstop ▸ H.nodup
  joining := by rw [hstop, htodo]; exact H.joining
  owed j slot₁ hs₁ he₁ := by
    have haw : s'.awaited j = s.awaited j := by rw [awaited, awaited, htodo, hstop]
    rw [hslots] at hs₁
    rw [haw]
    rcases getElem?_setSlot hs₁ with ⟨rfl, rfl⟩ | ⟨-, hs₁⟩
    · rw [ho he₁]
      exact H.owed _ _ hs (he he₁)
    · exact H.owed _ _ hs₁ he₁

/-- Where nothing is owed and nobody is waited for, the answers are in order. -/
theorem of_done (H : s.Answered) (hd : ∀ t ∈ s.stopTasks, t.phase = .done)
    (h : Overlord.Handling s'.todo) (hh : ∀ id, s'.todo.head? ≠ some (.await id))
    (hstop : s'.stopTasks = s.stopTasks) (hslots : ∀ (id : ℕ) (slot : Slot),
      s'.slots[id]? = some slot → slot.task.ended = false → slot.owed = 0) : s'.Answered where
  handling := h
  nodup := hstop ▸ H.nodup
  joining := by rw [hstop]; exact fun t ht => .inl (hd t ht)
  owed j slot hs he := by
    rw [hslots _ _ hs he]
    exact (awaited_of_done (hstop ▸ hd) (hh j)).symm

/-- The overlord begins a handler, or goes on between two calls, with what changes no actor. -/
theorem of_handler (H : s.Answered) (h : Overlord.Handler s.todo) (h' : Overlord.Handler s'.todo)
    (hslots : s'.slots = s.slots) (hstop : s'.stopTasks = s.stopTasks) : s'.Answered :=
  H.of_done (H.done h.ne_joining) (.handler h') h'.head? hstop fun j slot hs he => by
    rw [hslots] at hs
    rw [H.owed _ _ hs he, H.awaited_of_handler h]

/-- The account of the answers is kept by the next action of a task of `stop_all`. -/
theorem step_stopTask (H : s.Answered) {i : ℕ} {t : StopTask} {slot slot' : Slot}
    {phase : StopPhase} (hi : s.stopTasks[i]? = some t) (hs : s.slots[t.id]? = some slot)
    (hp : StopStep slot t.phase slot' phase) :
    Answered { s.setSlot t.id slot' with stopTasks := s.stopTasks.set i { t with phase } } := by
  have hmem : t ∈ s.stopTasks := List.mem_of_getElem? hi
  have hnot : t.phase ≠ .done := fun hd => by rw [hd] at hp; cases hp
  obtain ⟨code, hcode⟩ := (H.joining t hmem).resolve_left hnot
  refine ⟨H.handling, ?_, fun u hu => .inr ⟨code, hcode⟩, fun j slot₁ hs₁ he₁ => ?_⟩
  · obtain ⟨hlt, hget⟩ := List.getElem?_eq_some_iff.mp hi
    have hsame : (s.stopTasks.set i { t with phase }).map StopTask.id =
        s.stopTasks.map StopTask.id := by
      rw [List.map_set, ← hget, ← List.getElem_map StopTask.id (h := by simpa using hlt),
        List.set_getElem_self]
    exact hsame ▸ H.nodup
  · have haw : awaited { s.setSlot t.id slot' with
          stopTasks := s.stopTasks.set i { t with phase } } j +
          (decide (t.id = j ∧ t.phase = .await)).toNat =
        s.awaited j + (decide (t.id = j ∧ phase = .await)).toNat := by
      have := countP_set_add
        (fun t : StopTask => decide (t.id = j ∧ t.phase = .await)) s.stopTasks i
        { t with phase } hi
      rw [awaited, awaited, Nat.add_assoc, Nat.add_assoc]
      exact congrArg _ this
    generalize awaited { s.setSlot t.id slot' with
      stopTasks := s.stopTasks.set i { t with phase } } j = n at haw ⊢
    rcases getElem?_setSlot (s := s) hs₁ with ⟨rfl, rfl⟩ | ⟨hne, hs₁⟩
    · have howed := H.owed _ _ hs (by rw [← hp.task]; exact he₁)
      obtain ⟨name, id, phase₀⟩ := t
      dsimp only at howed
      cases hp with
      | stop hp =>
        have hpush := Slot.owed_push hp he₁
        simp [Cmd.isAnswered] at haw hpush
        omega
      | await ha =>
        have htake := Slot.owed_takeAnswer ha he₁
        simp at haw
        omega
      | shutdown hp =>
        have hpush := Slot.owed_push hp he₁
        simp [Cmd.isAnswered] at haw hpush
        omega
    · rw [H.owed _ _ hs₁ he₁]
      simp only [Ne.symm hne, false_and, decide_false, Bool.toNat_false, Nat.add_zero] at haw
      exact haw.symm

/-- Before a handler, and between two of its calls, no running actor owes an answer. -/
theorem owed_of_handler (H : s.Answered) (hh : Overlord.Handler s.todo) {j : ℕ} {slot : Slot}
    (hs : s.slots[j]? = some slot) (he : slot.task.ended = false) : slot.owed = 0 := by
  rw [H.owed _ _ hs he, H.awaited_of_handler hh]

/-- A handler goes on with the rest, with what changes no actor. -/
theorem tail (H : s.Answered) {i : Overlord.Instr} {rest : List Overlord.Instr}
    (htodo : s.todo = i :: rest) (hh : Overlord.Handler (i :: rest)) (hi : i ≠ .stopAll)
    (ht : s'.todo = rest) (hslots : s'.slots = s.slots) (hstop : s'.stopTasks = s.stopTasks) :
    s'.Answered :=
  H.of_handler (htodo ▸ hh) (ht ▸ hh.tail hi) hslots hstop

/-- The account of the answers is kept when the overlord sends a command. -/
theorem step_sendTo (H : s.Answered) {name : String} {id : ℕ} {c : Cmd} {why : Reason}
    {rest : List Overlord.Instr} {slot slot' : Slot}
    (htodo : s.todo = .sendTo name id c why :: rest) (hs : s.slots[id]? = some slot)
    (hp : slot.push c = some slot') :
    Answered { s.setSlot id slot' with todo := rest, log := .sent name id c why :: s.log } := by
  have hhand := H.handling
  rw [htodo] at hhand
  cases hhand with
  | handler hh =>
    cases hh with
    | call hi h =>
      have hh : Overlord.Handler s.todo := htodo ▸ .call hi h
      refine H.of_done (H.done hh.ne_joining) (.handler h) h.head? rfl fun j slot₁ hs₁ he₁ => ?_
      rcases getElem?_setSlot (s := s) hs₁ with ⟨rfl, rfl⟩ | ⟨-, hs₁⟩
      · have hc : c.isAnswered = false := by simpa [Overlord.Instr.isCall] using hi
        rw [Slot.owed_push hp he₁, hc, H.owed_of_handler hh hs (Slot.task_push hp ▸ he₁)]
        rfl
      · exact H.owed_of_handler hh hs₁ he₁
  | asking hc h =>
    have hd := H.done fun code hcode => by rw [hcode] at htodo; cases htodo
    refine ⟨.waiting h, H.nodup, fun t ht => .inl (hd t ht), fun j slot₁ hs₁ he₁ => ?_⟩
    have hbefore : ∀ j, s.awaited j = 0 := fun j => awaited_of_done hd (by rw [htodo]; simp)
    rcases getElem?_setSlot (s := s) hs₁ with ⟨rfl, rfl⟩ | ⟨hne, hs₁⟩
    · rw [Slot.owed_push hp he₁, hc, H.owed _ _ hs (Slot.task_push hp ▸ he₁), hbefore]
      refine (awaited_of_await ?_ rfl).symm
      exact hd
    · rw [H.owed _ _ hs₁ he₁, hbefore]
      refine (awaited_of_done ?_ fun hh => hne ?_).symm
      · exact hd
      · cases hh
        rfl

/-- The account of the answers is kept when the overlord receives one. -/
theorem step_await (H : s.Answered) {id : ℕ} {rest : List Overlord.Instr} {slot slot' : Slot}
    (htodo : s.todo = .await id :: rest) (hs : s.slots[id]? = some slot)
    (ha : slot.takeAnswer = some slot') : Answered { s.setSlot id slot' with todo := rest } := by
  have hd := H.done fun code hcode => by rw [hcode] at htodo; cases htodo
  have hhand := H.handling
  rw [htodo] at hhand
  cases hhand with
  | handler hh => cases hh with | call hi h => cases hi
  | waiting h =>
    refine H.of_done hd (.handler h) h.head? rfl fun j slot₁ hs₁ he₁ => ?_
    rcases getElem?_setSlot (s := s) hs₁ with ⟨rfl, rfl⟩ | ⟨hne, hs₁⟩
    · have htake := Slot.owed_takeAnswer ha he₁
      have hle := H.awaited_le_one j
      have howed := H.owed _ _ hs (by rw [← Slot.task_takeAnswer ha]; exact he₁)
      omega
    · rw [H.owed _ _ hs₁ he₁]
      refine awaited_of_done hd fun hh => hne ?_
      rw [htodo] at hh
      cases hh
      rfl

/-- The account of the answers is kept by the next action of the overlord's handler. -/
theorem step_overlord (H : s.Answered) (hw : s.Wired) {load : Option Plan} {i : Overlord.Instr}
    {rest : List Overlord.Instr} (htodo : s.todo = i :: rest) (h : OverlordStep s load i rest s') :
    s'.Answered := by
  have hhand := H.handling
  rw [htodo] at hhand
  cases h with
  | unknown hn =>
    cases hhand with
    | handler hh => exact H.tail htodo hh (by simp) rfl rfl rfl
  | request he =>
    cases hhand with
    | handler hh =>
      cases hh with
      | call hi h =>
        have hh : Overlord.Handler s.todo := htodo ▸ .call hi h
        exact H.of_done (H.done hh.ne_joining) (.asking hi h) (by simp) rfl
          fun _ _ => H.owed_of_handler hh
  | sendTo hs hp => exact H.step_sendTo htodo hs hp
  | await hs ha => exact H.step_await htodo hs ha
  | enable =>
    cases hhand with
    | handler hh => exact H.tail htodo hh (by simp) rfl rfl rfl
  | reloadFailed hl =>
    cases hhand with
    | handler hh => exact H.tail htodo hh (by simp) rfl rfl rfl
  | @reload rest plan hl =>
    cases hhand with
    | handler hh =>
      have hh' : Overlord.Handler s.todo := htodo ▸ hh
      have h' := s.overlord.handler_reloadLayers plan s.slots.length (hh.tail (by simp))
      refine H.of_done (H.done hh'.ne_joining) (.handler h') h'.head? rfl fun j slot₁ hs₁ he₁ => ?_
      rcases lt_or_ge j s.slots.length with hlt | hge
      · rw [List.getElem?_append_left hlt] at hs₁
        exact H.owed_of_handler hh' hs₁ he₁
      · rw [List.getElem?_append_right hge] at hs₁
        obtain ⟨e, -, rfl⟩ := List.mem_map.mp (List.mem_of_getElem? hs₁)
        rfl
  | stopAll =>
    cases hhand with
    | handler hh =>
      cases hh with
      | call hi h => cases hi
      | shutdown code =>
        have hh : Overlord.Handler s.todo := htodo ▸ .shutdown code
        refine ⟨.joining code, ?_, fun t ht => .inr ⟨code, rfl⟩, fun j slot₁ hs₁ he₁ => ?_⟩
        · rw [List.map_map]
          exact hw.nodup_ids
        · rw [H.owed_of_handler hh hs₁ he₁]
          refine (awaited_eq_zero (fun hh => by cases hh) fun t ht _ => ?_).symm
          obtain ⟨e, -, rfl⟩ := List.mem_map.mp ht
          exact StopPhase.noConfusion
  | join hd =>
    cases hhand with
    | handler hh => cases hh with | call hi h => cases hi
    | joining code =>
      refine H.of_done hd (.finishing code) (by simp) rfl fun j slot₁ hs₁ he₁ => ?_
      rw [H.owed _ _ hs₁ he₁]
      exact awaited_of_done hd (by rw [htodo]; simp)
  | finish =>
    have hd := H.done fun code hcode => by rw [hcode] at htodo; cases htodo
    refine H.of_done hd (.handler .nil) (by simp) rfl fun j slot₁ hs₁ he₁ => ?_
    rw [H.owed _ _ hs₁ he₁]
    exact awaited_of_done hd (by rw [htodo]; simp)

/-- Every step keeps the answers in order. -/
theorem step (H : s.Answered) (hw : s.Wired) (h : s.step l = some s') : s'.Answered := by
  cases l with
  | tick d => exact Option.some.inj h ▸ ⟨H.handling, H.nodup, H.joining, H.owed⟩
  | exit e =>
    obtain ⟨-, -, rfl⟩ := step_exit h
    exact ⟨H.handling, H.nodup, H.joining, H.owed⟩
  | act id =>
    obtain ⟨slot, t, hs, -, ht, rfl⟩ := step_act h
    have he := Task.ended_act ht
    refine H.of_setSlot _ hs he (fun he' => Slot.owed_act ht ?_) rfl rfl rfl
    rw [H.owed _ _ hs (he he')]
    exact H.awaited_le_one id
  | deliver id =>
    obtain ⟨slot, t, k, hs, -, -, ht, rfl⟩ := step_deliver h
    obtain ⟨-, -, ht'⟩ := Task.deliver_eq_some_iff.mp ht
    exact H.of_setSlot { slot with task := t } hs (fun he => by rw [ht'] at he; exact he)
      (fun _ => by rw [ht']; rfl) rfl rfl rfl
  | input id inp =>
    obtain ⟨slot, t, hs, hm, ht, rfl⟩ := step_input h
    obtain ⟨-, -, ht'⟩ := Task.take_eq_some_iff.mp ht
    refine H.of_setSlot _ hs (fun he => by rw [ht'] at he; exact he) (fun _ => Slot.owed_take ht ?_)
      rfl rfl rfl
    rintro c ok rfl
    exact of_decide_eq_true hm
  | command c =>
    obtain ⟨hh, rfl⟩ := step_command h
    exact H.of_handler (handler_of_atHead hh) (s.overlord.handler_handleCmd c)
      rfl rfl
  | event =>
    obtain ⟨hh, ev, rest, -, rfl⟩ := step_event h
    exact H.of_handler (handler_of_atHead hh) (s.overlord.handler_handleSvcEvent ev)
      rfl rfl
  | check name status =>
    obtain ⟨hh, rfl⟩ := step_check h
    exact H.of_handler (handler_of_atHead hh) (s.overlord.handler_handleCheckEvent name status)
      rfl rfl
  | stopTask i =>
    obtain ⟨t, slot, slot', phase, hi, hs, hp, rfl⟩ := Daemon.step_stopTask h
    exact H.step_stopTask hi hs hp
  | overlord load =>
    obtain ⟨i, rest, htodo, hstep⟩ := Daemon.step_overlord h
    exact H.step_overlord hw htodo hstep

end Answered

/-- In every state of every run, as many answers are owed as are waited for. -/
theorem answered_of_reaches {G : Daemon → Label → Prop} {plan : Plan}
    (h : Reaches step G (init plan) s) : s.Answered := by
  refine h.invariant (P := Answered) ?_ fun s l s' hr H _ hl => H.step (wired_of_reaches hr) hl
  have hh : Overlord.Handler (init plan).todo := .of_calls fun i hi => by
    obtain ⟨name, -, rfl⟩ := List.mem_map.mp hi
    rfl
  refine ⟨.handler hh, List.nodup_nil, fun _ ht => absurd ht List.not_mem_nil,
    fun j slot hs _ => ?_⟩
  obtain ⟨e, -, rfl⟩ := List.mem_map.mp (List.mem_of_getElem? hs)
  exact (awaited_eq_zero (hh.head? j) fun _ ht => absurd ht List.not_mem_nil).symm

end Daemon

end Vigil
