import Vigil.Overlord.Autostart
import Vigil.Overlord.Cascade
import Vigil.Overlord.Views
import Vigil.Service.Turn

/-!
# Hard dependencies at rest

What is left of the hard dependencies when a run without commands and failed checks has come to
rest. The cascade looks at snapshots, so a service that requires another is stopped with it if it is
running as far as the overlord knows. If it is up in truth but not in the snapshot, because it is in
backoff or because the report of its start is still in the channel, nothing ever stops it. Where
that does not happen (`Daemon.Watchful`), no service is up at rest while one that it requires is
down (`Daemon.upheld_of_reaches`).

The invariant (`Daemon.Calm`) is about snapshots: while the snapshot of a required service says that
it is down, a service that requires it is not up, or a stop is on its way to it. At rest the
snapshots are the states.
-/

namespace Vigil

open Actor (Input)

namespace ServiceState

/-- The service is up: starting, active, or in backoff waiting to be restarted. -/
def isUp : ServiceState → Bool
  | starting | active | backoff => true
  | _ => false

/-- The service is down: inactive or in error. -/
def isDown : ServiceState → Bool
  | inactive | error => true
  | _ => false

end ServiceState

/-! ## One actor -/

namespace Actor

variable {a : Actor}

/-- An actor that has never been started in its backoff, and never restarted. -/
structure Steady (a : Actor) : Prop where
  backoffSleep : a.backoffSleep.isSome = true → a.state = .backoff
  child : a.child.isSome = true → a.state = .active ∨ a.state = .stopping
  pendingRestart : a.pendingRestart = false

/-- The actor of a service that has not been started. -/
structure Unstarted (a : Actor) : Prop where
  state : a.state = .inactive
  child : a.child = none
  backoffSleep : a.backoffSleep = none

/-- A steady actor that has not been started is steady after its first start. -/
theorem Steady.handleStart (H : a.Steady) (hu : a.Unstarted) (ok : Bool) :
    (a.execAll (a.handleStart ok)).Steady := by
  rw [execAll_handleStart, if_neg (by rw [hu.state]; rintro (h | h) <;> cases h)]
  split_ifs
  · refine ⟨fun h => ?_, fun _ => .inl rfl, H.pendingRestart⟩
    have : a.backoffSleep.isSome = true := h
    rw [hu.backoffSleep] at this
    cases this
  · refine ⟨fun h => ?_, fun h => ?_, H.pendingRestart⟩
    · have : a.backoffSleep.isSome = true := h
      rw [hu.backoffSleep] at this
      cases this
    · have : a.child.isSome = true := h
      rw [hu.child] at this
      cases this

/-- A stop. After it the service is not up. -/
theorem Steady.handleStop (H : a.Steady) :
    (a.execAll a.handleStop).Steady ∧ (a.execAll a.handleStop).state.isUp = false := by
  rw [execAll_handleStop]
  cases hs : a.state with
  | inactive | error | stopping => exact ⟨H, by rw [hs]; rfl⟩
  | backoff =>
    refine ⟨⟨nofun, fun h => ?_, H.pendingRestart⟩, rfl⟩
    rcases H.child h with h | h <;> rw [hs] at h <;> cases h
  | starting | active =>
    refine ⟨⟨fun h => ?_, fun _ => .inr rfl, H.pendingRestart⟩, rfl⟩
    have := H.backoffSleep h
    rw [hs] at this
    cases this

/-- An exit. A service that is not up is not brought up by it. -/
theorem Steady.handleChildExit (H : a.Steady) (hc : a.child.isSome = true) (success ok : Bool) :
    (a.execAll (a.handleChildExit success ok)).Steady ∧
      (a.state.isUp = false → (a.execAll (a.handleChildExit success ok)).state.isUp = false) := by
  have hsleep : a.backoffSleep = none := by
    rw [← Option.not_isSome_iff_eq_none]
    intro h
    have hb := H.backoffSleep h
    rcases H.child hc with hs | hs <;> rw [hb] at hs <;> cases hs
  have hnone : ∀ {b : Actor}, b.backoffSleep = none → b.child = none → b.pendingRestart = false →
      b.Steady := fun hb hc hp => ⟨by simp [hb], by simp [hc], hp⟩
  rw [execAll_handleChildExit]
  by_cases hs : a.state = .stopping
  · rw [if_pos hs, if_neg (by rw [H.pendingRestart]; simp)]
    exact ⟨hnone hsleep rfl H.pendingRestart, fun _ => rfl⟩
  · have hactive : a.state = .active := (H.child hc).resolve_right hs
    rw [if_neg hs, execAll_applyExitPolicy, hactive]
    refine ⟨?_, by rintro ⟨⟩⟩
    split_ifs
    · exact hnone hsleep rfl H.pendingRestart
    · exact ⟨fun _ => rfl, by rintro ⟨⟩, H.pendingRestart⟩
    · exact hnone hsleep rfl H.pendingRestart

/-- A steady actor is steady after its kill timer has elapsed. -/
theorem Steady.handleKillDeadline (H : a.Steady) :
    (a.execAll a.handleKillDeadline).Steady := by
  rw [execAll_handleKillDeadline]
  exact ⟨H.backoffSleep, H.child, H.pendingRestart⟩

/-- The backoff timer, which is armed in backoff only. -/
theorem Steady.handleBackoffExpired (H : a.Steady) (hb : a.backoffSleep.isSome = true) (ok : Bool) :
    (a.execAll (a.handleBackoffExpired ok)).Steady := by
  have hs := H.backoffSleep hb
  rw [execAll_handleBackoffExpired]
  split_ifs
  · exact ⟨nofun, fun _ => .inl rfl, H.pendingRestart⟩
  · refine ⟨nofun, fun h => ?_, H.pendingRestart⟩
    rcases H.child h with h | h <;> rw [hs] at h <;> cases h

end Actor

namespace Slot

/-- The actor of a service that has been sent as many starts. -/
structure Calm (slot : Slot) (started : ℕ) : Prop where
  steady : slot.task.settled.Steady
  staying : slot.task.leaving = false
  mailbox : ∀ c ∈ slot.mailbox, c = .start ∨ c = .stop
  /-- The actor has not been started if no start has been sent. -/
  unsent : started = 0 → slot.task.settled.Unstarted ∧ .start ∉ slot.mailbox
  /-- The first start is the only one. -/
  waiting : .start ∈ slot.mailbox → slot.task.settled.Unstarted ∧ slot.mailbox.count .start = 1

/-- The service is up, once the actor has done what it has begun. -/
def isUp (slot : Slot) : Bool := slot.task.settled.state.isUp

variable {slot slot' : Slot} {t : Task} {now n : ℕ}

/-- A calm actor stays calm if its task and its mailbox stay as they are. -/
theorem Calm.congr (H : slot.Calm n) (hset : slot'.task.settled = slot.task.settled)
    (hlv : slot'.task.leaving = slot.task.leaving) (hbox : slot'.mailbox = slot.mailbox) :
    slot'.Calm n where
  steady := hset ▸ H.steady
  staying := hlv ▸ H.staying
  mailbox := hbox ▸ H.mailbox
  unsent := by rw [hset, hbox]; exact H.unsent
  waiting := by rw [hset, hbox]; exact H.waiting

/-- A stop is put into the mailbox. -/
theorem Calm.push_stop (H : slot.Calm n) (hp : slot.push .stop = some slot') : slot'.Calm n := by
  have hbox := mailbox_push hp (Task.ended_of_leaving H.staying)
  have hcount : slot'.mailbox.count .start = slot.mailbox.count .start := by
    rw [hbox, List.count_append]; rfl
  have hmem : .start ∈ slot'.mailbox ↔ .start ∈ slot.mailbox := by rw [hbox]; simp
  refine ⟨?_, ?_, fun c hc => ?_, ?_, ?_⟩
  · rw [task_push hp]; exact H.steady
  · rw [task_push hp]; exact H.staying
  · rw [hbox] at hc
    rcases List.mem_append.mp hc with hc | hc
    · exact H.mailbox c hc
    · exact .inr (List.mem_singleton.mp hc)
  · rw [task_push hp, hmem]; exact H.unsent
  · rw [task_push hp, hcount, hmem]; exact H.waiting

/-- The first start is put into the mailbox. -/
theorem Calm.push_start (H : slot.Calm 0) (hp : slot.push .start = some slot') : slot'.Calm 1 := by
  obtain ⟨hu, hnot⟩ := H.unsent rfl
  have hbox := mailbox_push hp (Task.ended_of_leaving H.staying)
  refine ⟨?_, ?_, fun c hc => ?_, nofun, fun _ => ⟨?_, ?_⟩⟩
  · rw [task_push hp]; exact H.steady
  · rw [task_push hp]; exact H.staying
  · rw [hbox] at hc
    rcases List.mem_append.mp hc with hc | hc
    · exact H.mailbox c hc
    · exact .inl (List.mem_singleton.mp hc)
  · rw [task_push hp]; exact hu
  · rw [hbox, List.count_append, List.count_eq_zero.mpr hnot]; rfl

/-- A step of the actor's own leaves it calm. Unless the start is taken, it brings no service up,
and a stop that waits goes on waiting or brings the service down. -/
structure StaysCalm (slot slot' : Slot) (n : ℕ) : Prop where
  calm : slot'.Calm n
  start : .start ∈ slot'.mailbox → .start ∈ slot.mailbox
  isUp : slot'.isUp = true → .start ∈ slot.mailbox ∨
    slot.isUp = true ∧ (.stop ∈ slot.mailbox → .stop ∈ slot'.mailbox)

/-- A calm actor stays so in a step that leaves its mailbox as it is and brings no service up. -/
theorem Calm.staysCalm (H : slot.Calm n) (hbox : slot'.mailbox = slot.mailbox)
    (hst : slot'.task.settled.Steady) (hlv : slot'.task.leaving = false)
    (hun : slot.task.settled.Unstarted → slot'.task.settled.Unstarted)
    (hup : slot.isUp = false → slot'.isUp = false) : StaysCalm slot slot' n := by
  have hsame : ∀ c, c ∈ slot'.mailbox ↔ c ∈ slot.mailbox := fun c => by rw [hbox]
  refine ⟨⟨hst, hlv, fun c hc => H.mailbox c ((hsame c).mp hc), fun hn => ?_, fun hw => ?_⟩,
    (hsame _).mp, fun h => .inr ⟨?_, (hsame _).mpr⟩⟩
  · obtain ⟨hu, hnot⟩ := H.unsent hn
    exact ⟨hun hu, fun hw => hnot ((hsame _).mp hw)⟩
  · obtain ⟨hu, hone⟩ := H.waiting ((hsame _).mp hw)
    exact ⟨hun hu, hbox ▸ hone⟩
  · by_contra hdown
    rw [Bool.not_eq_true] at hdown
    rw [hup hdown] at h
    cases h

/-- A calm actor stays calm when it takes its start. -/
theorem Calm.take_start (H : slot.Calm n) {ok : Bool} {rest : List Cmd}
    (hbox : slot.mailbox = .start :: rest) (ht : slot.task.take now (.cmd .start ok) = some t)
    (hlv : t.leaving = false) : StaysCalm slot { slot with task := t, mailbox := rest } n := by
  have hstart : .start ∈ slot.mailbox := hbox ▸ List.mem_cons_self
  obtain ⟨hu, hone⟩ := H.waiting hstart
  have hnot : .start ∉ rest := by
    rw [hbox, List.count_cons_self, Nat.succ.injEq] at hone
    exact List.count_eq_zero.mp hone
  refine ⟨⟨?_, hlv, fun c hc => H.mailbox c (hbox ▸ List.mem_cons_of_mem _ hc), fun hn => ?_,
    fun hw => (hnot hw).elim⟩, fun hw => (hnot hw).elim, fun _ => .inl hstart⟩
  · rw [Task.settled_take ht]
    exact H.steady.handleStart hu ok
  · exact ((H.unsent hn).2 hstart).elim

/-- A calm actor stays calm when it takes a stop. -/
theorem Calm.take_stop (H : slot.Calm n) {ok : Bool} {rest : List Cmd}
    (hbox : slot.mailbox = .stop :: rest) (ht : slot.task.take now (.cmd .stop ok) = some t)
    (hlv : t.leaving = false) : StaysCalm slot { slot with task := t, mailbox := rest } n := by
  have hset : t.settled = slot.task.settled.execAll slot.task.settled.handleStop :=
    Task.settled_take ht
  have hstop := H.steady.handleStop
  have hsame : slot.task.settled.Unstarted → t.settled = slot.task.settled := fun hu => by
    rw [hset, Actor.execAll_handleStop, hu.state]
  have hmem : ∀ {c}, c ∈ rest → c ∈ slot.mailbox := fun hc => hbox ▸ List.mem_cons_of_mem _ hc
  refine ⟨⟨?_, hlv, fun c hc => H.mailbox c (hmem hc), fun hn => ?_, fun hw => ?_⟩, hmem,
    fun hup => ?_⟩
  · rw [hset]
    exact hstop.1
  · obtain ⟨hu, hnot⟩ := H.unsent hn
    exact ⟨(hsame hu).symm ▸ hu, fun hw => hnot (hmem hw)⟩
  · obtain ⟨hu, hone⟩ := H.waiting (hmem hw)
    refine ⟨(hsame hu).symm ▸ hu, ?_⟩
    rw [hbox, List.count_cons_of_ne (by decide)] at hone
    exact hone
  · rw [isUp, hset, hstop.2] at hup
    cases hup

/-- A calm actor stays calm when it takes any input. -/
theorem Calm.take (H : slot.Calm n) {inp : Input} (ht : slot.task.take now inp = some t)
    (hm : ∀ c ok, inp = .cmd c ok → slot.mailbox.head? = some c) :
    StaysCalm slot { slot with task := t, mailbox := slot.nextMailbox inp } n := by
  obtain ⟨hi, hr, -⟩ := Task.take_eq_some_iff.mp ht
  have hset := Task.settled_of_idle hi
  have hset' := Task.settled_take ht
  have hplain : (∀ ok, inp ≠ .cmd .shutdown ok) → t.leaving = false := by
    refine fun hs => Bool.eq_false_iff.mpr fun hl => ?_
    obtain ⟨ok, hinp⟩ := Task.eq_shutdown_of_leaving ht hl
    exact hs ok hinp
  cases inp with
  | cmd c ok =>
    obtain ⟨rest, hbox⟩ := List.head?_eq_some_iff.mp (hm c ok rfl)
    have hrest : slot.nextMailbox (.cmd c ok) = rest := by rw [nextMailbox, hbox]; rfl
    rw [hrest]
    rcases H.mailbox c (hbox ▸ List.mem_cons_self) with rfl | rfl
    · exact H.take_start hbox ht (hplain (by simp))
    · exact H.take_stop hbox ht (hplain (by simp))
  | childExit success ok =>
    have hc : slot.task.settled.child.isSome = true := by rw [hset]; exact hr
    have hexit := H.steady.handleChildExit hc success ok
    refine H.staysCalm rfl (hset' ▸ hexit.1) (hplain (by simp)) (fun hu => ?_) fun h => ?_
    · rw [hu.child] at hc
      cases hc
    · rw [isUp, hset']
      exact hexit.2 h
  | killDeadline =>
    have hkill : t.settled = { slot.task.settled with stopDeadline := none } := by
      rw [hset']
      exact Actor.execAll_handleKillDeadline _
    refine H.staysCalm rfl ?_ (hplain (by simp)) (fun hu => ?_) fun h => ?_
    · rw [hset']
      exact H.steady.handleKillDeadline
    · rw [hkill]
      exact ⟨hu.state, hu.child, hu.backoffSleep⟩
    · rw [isUp, hkill]
      exact h
  | backoffExpired ok =>
    have hb : slot.task.settled.backoffSleep.isSome = true := by
      rw [Task.ready, Bool.and_eq_true] at hr
      rw [hset]
      exact hr.1
    refine H.staysCalm rfl ?_ (hplain (by simp)) (fun hu => ?_) fun h => ?_
    · rw [hset']
      exact H.steady.handleBackoffExpired hb ok
    · rw [hu.backoffSleep] at hb
      cases hb
    · rw [isUp, H.steady.backoffSleep hb] at h
      cases h

end Slot

namespace Overlord

/-- A stop of the service that is about to be sent. -/
def Instr.stops (name : String) : Instr → Bool
  | .request n .stop _ => decide (n = name)
  | .sendTo n _ .stop _ => decide (n = name)
  | _ => false

/-- The actions of the overlord in a run without commands and failed checks: automatic starts, and
stops of the cascade. -/
inductive Modest (o : Overlord) : Instr → Prop
  | start {name : String} : Modest o (.request name .start .autostart)
  | stop {name x : String} {r : Bool} : Modest o (.request name .stop (.cascade x r))
  | sendStart {name : String} {id : ℕ} (h : o.idOf name = some id) :
    Modest o (.sendTo name id .start .autostart)
  | sendStop {name x : String} {r : Bool} {id : ℕ} (h : o.idOf name = some id) :
    Modest o (.sendTo name id .stop (.cascade x r))
  | await {id : ℕ} : Modest o (.await id)

/-- A service requires another. -/
def Requires (o : Overlord) (name dep : String) : Prop :=
  ∃ config, o.plan.services.get? name = some config ∧ dep ∈ config.requires

/-- What is ready has the services that it requires running. -/
theorem isRunning_of_ready {o : Overlord} {name dep : String} (h : o.afterDepsRunning name = true)
    (hr : o.Requires name dep) : o.isRunning dep = true := by
  obtain ⟨config, hc, hd⟩ := hr
  rw [afterDepsRunning, hc] at h
  exact List.all_eq_true.mp h dep
    (List.mem_append_left _ (List.mem_append_right _ hd))

end Overlord

namespace Daemon

open Runs Overlord

variable {s s' : Daemon} {l : Label}

/-- A step in a run without commands and failed checks. When the overlord handles a report that a
service is down, every service that requires it and is up is running in its snapshot. -/
def Watchful (s : Daemon) : Label → Prop
  | .command _ | .check _ _ => False
  | .event => ∀ ev ∈ s.events.head?, ∀ st ∈ ev.kind.state?, st.isDown = true →
    ∀ e ∈ s.overlord.plan.services.entries, ev.service ∈ e.2.requires →
      ∀ id ∈ s.overlord.idOf e.1, ∀ slot ∈ s.slots[id]?, slot.isUp = true →
        (s.overlord.noted ev st).isRunning e.1 = true
  | _ => True

instance (l : Label) : Decidable (s.Watchful l) :=
  match l with
  | .command _ | .check _ _ => isFalse id
  | .event => by unfold Watchful; infer_instance
  | .tick _ | .exit _ | .act _ | .deliver _ | .input _ _ | .overlord _ | .stopTask _ =>
    isTrue trivial

/-- The daemon is being shut down, or has been. -/
def Closing (s : Daemon) : Prop :=
  s.ended = true ∨ ∃ code, s.todo = [.stopAll, .join, .finish code] ∨
    s.todo = [.join, .finish code] ∨ s.todo = [.finish code]

/-- The daemon in a run without commands and failed checks. -/
structure Calm (s : Daemon) : Prop where
  live : s.ended = false
  todo : ∀ i ∈ s.todo, s.overlord.Modest i
  stopTasks : s.stopTasks = []
  /-- Every actor is that of its service. -/
  idOf : ∀ (id : ℕ) (slot : Slot), s.slots[id]? = some slot →
    s.overlord.idOf slot.task.actor.name = some id
  slots : ∀ (id : ℕ) (slot : Slot), s.slots[id]? = some slot →
    slot.Calm (s.startsSent slot.task.actor.name)
  /-- What is about to be sent a start is ready. -/
  ready : ∀ i ∈ s.todo, ∀ name, i.starts name = true → s.overlord.afterDepsRunning name = true
  /-- What has been sent a start that it has not taken is ready. -/
  called : ∀ (id : ℕ) (slot : Slot), s.slots[id]? = some slot → .start ∈ slot.mailbox →
    s.overlord.afterDepsRunning slot.task.actor.name = true
  /-- While a service is down in its snapshot, what requires it is not up, or is about to be
  stopped. -/
  cascade : ∀ name dep e, s.overlord.Requires name dep → s.overlord.services.get? dep = some e →
    e.state.isDown = true → ∀ (id : ℕ) (slot : Slot), s.overlord.idOf name = some id →
      s.slots[id]? = some slot → slot.isUp = true →
        .stop ∈ slot.mailbox ∨ ∃ i ∈ s.todo, i.stops name = true

/-- A service that is down in its snapshot is not running. -/
theorem isRunning_of_isDown {o : Overlord} {name : String} {e : ServiceEntry}
    (hget : o.services.get? name = some e) (hd : e.state.isDown = true) :
    o.isRunning name = false := by
  rw [isRunning, hget, Option.any_some]
  cases hs : e.state with
  | inactive | error => rfl
  | _ => rw [hs] at hd; cases hd

namespace Calm

/-- While a service is down in its snapshot, what requires it is not up, or is about to be stopped:
by a command that waits, by the next action, or by a later one. -/
theorem cascade_cons (H : s.Calm) {i : Overlord.Instr} {rest : List Overlord.Instr}
    (htodo : s.todo = i :: rest) {name dep : String} {e : ServiceEntry}
    (hreq : s.overlord.Requires name dep) (hget : s.overlord.services.get? dep = some e)
    (hd : e.state.isDown = true) {id : ℕ} {slot : Slot} (hid : s.overlord.idOf name = some id)
    (hs : s.slots[id]? = some slot) (hup : slot.isUp = true) :
    .stop ∈ slot.mailbox ∨ i.stops name = true ∨ ∃ j ∈ rest, j.stops name = true := by
  refine (H.cascade name dep e hreq hget hd id slot hid hs hup).imp_right ?_
  rintro ⟨j, hj, hst⟩
  rw [htodo] at hj
  rcases List.mem_cons.mp hj with rfl | hj
  · exact .inl hst
  · exact .inr ⟨j, hj, hst⟩

/-- A calm daemon stays calm in a step of one actor. -/
theorem of_actor (H : s.Calm) (hw : s.Wired) (ho : s'.overlord = s.overlord)
    (htodo : s'.todo = s.todo)
    (hended : s'.ended = s.ended) (hstop : s'.stopTasks = s.stopTasks) (hlog : s'.log = s.log)
    (hslots : ∀ (id : ℕ) (slot' : Slot), s'.slots[id]? = some slot' →
      ∃ slot, s.slots[id]? = some slot ∧ slot'.task.actor.name = slot.task.actor.name ∧
        slot.StaysCalm slot' (s.startsSent slot.task.actor.name)) : s'.Calm where
  live := hended.trans H.live
  todo := by rw [htodo, ho]; exact H.todo
  stopTasks := hstop.trans H.stopTasks
  idOf id slot' hs' := by
    obtain ⟨slot, hs, hn, -⟩ := hslots id slot' hs'
    rw [ho, hn]
    exact H.idOf id slot hs
  slots id slot' hs' := by
    obtain ⟨slot, hs, hn, hc⟩ := hslots id slot' hs'
    rw [startsSent, hlog, hn]
    exact hc.calm
  ready := by rw [htodo, ho]; exact H.ready
  called id slot' hs' hm := by
    obtain ⟨slot, hs, hn, hc⟩ := hslots id slot' hs'
    rw [ho, hn]
    exact H.called id slot hs (hc.start hm)
  cascade name dep e hreq hget hd id slot' hid hs' hup := by
    rw [ho] at hreq hget hid
    rw [htodo]
    obtain ⟨slot, hs, hn, hc⟩ := hslots id slot' hs'
    rcases hc.isUp hup with hstart | ⟨hup, hstop⟩
    · -- What is sent a start is ready, and so what it requires runs.
      obtain ⟨slot₁, hs₁, hn₁⟩ := hw.slot name id hid
      obtain rfl := Option.some.inj (hs.symm.trans hs₁)
      have hrun := isRunning_of_ready (hn₁ ▸ H.called id slot hs hstart) hreq
      rw [isRunning_of_isDown hget hd] at hrun
      cases hrun
    · exact (H.cascade name dep e hreq hget hd id slot hid hs hup).imp_left hstop

/-- A step that is nothing but a step of an actor's own. -/
theorem of_slotStep (H : s.Calm) (hw : s.Wired) (h : s.step l = some s')
    (hl : ∀ load, l ≠ .overlord load) (ho : s'.overlord = s.overlord) (htodo : s'.todo = s.todo)
    (hended : s'.ended = s.ended) (hstop : s'.stopTasks = s.stopTasks) (hlog : s'.log = s.log) :
    s'.Calm := by
  refine H.of_actor hw ho htodo hended hstop hlog fun id slot' hs' => ?_
  rcases slot_step h hs' with ⟨slot, hs, hstep⟩ | ⟨-, e, -, plan, rest, hload, -⟩
  · refine ⟨slot, hs, hstep.static.1, ?_⟩
    have hc := H.slots id slot hs
    -- Nothing happens to the mailbox, and the actor settles to the same.
    have same : slot'.task.settled = slot.task.settled →
        slot'.task.leaving = slot.task.leaving → slot'.mailbox = slot.mailbox →
        slot.StaysCalm slot' (s.startsSent slot.task.actor.name) := by
      intro hset hlv hbox
      refine hc.staysCalm hbox (hset ▸ hc.steady) (hlv ▸ hc.staying) (fun hu => hset ▸ hu)
        fun hd => ?_
      rw [Slot.isUp, hset]
      exact hd
    cases hstep with
    | same => exact same rfl rfl rfl
    | act _ _ ht => exact same (Task.settled_act ht) (Task.leaving_act ht) rfl
    | deliver _ ht => exact same (Task.settled_deliver ht) (Task.leaving_deliver ht) rfl
    | @input t inp _ hm ht =>
      refine hc.take ht ?_
      rintro c ok rfl
      exact of_decide_eq_true hm
    | sent hl' => exact (hl _ hl').elim
    | answered hl' => exact (hl _ hl').elim
    | stopTask _ hi => rw [H.stopTasks] at hi; cases hi
  · exact (hl _ hload).elim

/-- At the loop head no command waits that is answered, so nothing has a start or a stop in its
mailbox. -/
theorem mailbox_of_atHead (H : s.Calm) (hA : s.Answered) (hh : s.atHead = true) {id : ℕ}
    {slot : Slot}
    (hs : s.slots[id]? = some slot) : slot.mailbox = [] := by
  have howed := hA.owed id slot hs (Task.ended_of_leaving (H.slots id slot hs).staying)
  rw [hA.awaited_of_handler (handler_of_atHead hh)] at howed
  rw [Slot.owed] at howed
  have hcount : slot.mailbox.countP Cmd.isAnswered = 0 := by omega
  refine List.eq_nil_iff_forall_not_mem.mpr fun c hc => ?_
  have hnot := List.countP_eq_zero.mp hcount c hc
  rcases (H.slots id slot hs).mailbox c hc with rfl | rfl <;> exact hnot rfl

/-- At the loop head nothing is up that requires a service that is down in its snapshot. -/
theorem isUp_of_atHead (H : s.Calm) (hA : s.Answered) (hh : s.atHead = true) {name dep : String}
    {e : ServiceEntry} (hreq : s.overlord.Requires name dep)
    (hget : s.overlord.services.get? dep = some e) (hd : e.state.isDown = true) {id : ℕ}
    {slot : Slot} (hid : s.overlord.idOf name = some id) (hs : s.slots[id]? = some slot) :
    slot.isUp ≠ true := by
  intro hup
  rcases H.cascade name dep e hreq hget hd id slot hid hs hup with hm | ⟨i, hi, -⟩
  · rw [H.mailbox_of_atHead hA hh hs] at hm
    cases hm
  · simp only [atHead, Bool.and_eq_true, List.isEmpty_iff] at hh
    rw [hh.1] at hi
    cases hi

/-- An event has been handled: what is to be done is what such a run does, it starts what is ready,
and it stops what is up and requires a service that is down in its snapshot. -/
theorem of_event (H : s.Calm) (hA : s.Answered) (hh : s.atHead = true) {o' : Overlord}
    {todo : List Overlord.Instr} {events : List Event} {ev : Event}
    (hid : ∀ name, o'.idOf name = s.overlord.idOf name) (hplan : o'.plan = s.overlord.plan)
    (hmodest : ∀ i ∈ todo, o'.Modest i)
    (hready : ∀ i ∈ todo, ∀ name, i.starts name = true → o'.afterDepsRunning name = true)
    (hcascade : ∀ name dep e, s.overlord.Requires name dep → o'.services.get? dep = some e →
      e.state.isDown = true → ∀ (id : ℕ) (slot : Slot), s.overlord.idOf name = some id →
        s.slots[id]? = some slot → slot.isUp = true → ∃ i ∈ todo, i.stops name = true) :
    Calm { s with overlord := o', todo, events, log := .handled ev :: s.log } where
  live := H.live
  todo := hmodest
  stopTasks := H.stopTasks
  idOf id slot hs := (hid _).trans (H.idOf id slot hs)
  slots := H.slots
  ready := hready
  called id slot hs hm := by
    rw [H.mailbox_of_atHead hA hh hs] at hm
    cases hm
  cascade name dep e hreq hget hd id slot hidn hs hup := by
    refine .inr (hcascade name dep e ?_ hget hd id slot ((hid name).symm.trans hidn) hs hup)
    obtain ⟨config, hc, hdep⟩ := hreq
    exact ⟨config, hplan ▸ hc, hdep⟩

/-- A report that leaves what requires the reporting service alone, or has it stopped. -/
theorem cascade_noted (H : s.Calm) (hA : s.Answered) (hh : s.atHead = true) {ev : Event}
    {st : ServiceState} {todo : List Overlord.Instr}
    (hself : st.isDown = true → ∀ name, s.overlord.Requires name ev.service → ∀ (id : ℕ)
      (slot : Slot), s.overlord.idOf name = some id → s.slots[id]? = some slot →
        slot.isUp = true → ∃ i ∈ todo, i.stops name = true) (name dep : String) (e : ServiceEntry)
    (hreq : s.overlord.Requires name dep)
    (hget : (s.overlord.noted ev st).services.get? dep = some e) (hd : e.state.isDown = true)
    (id : ℕ) (slot : Slot) (hid : s.overlord.idOf name = some id) (hs : s.slots[id]? = some slot)
    (hup : slot.isUp = true) : ∃ i ∈ todo, i.stops name = true := by
  rw [get?_noted] at hget
  split_ifs at hget with hdep
  · subst hdep
    obtain ⟨e₀, -, rfl⟩ := Option.map_eq_some_iff.mp hget
    exact hself hd name hreq id slot hid hs hup
  · -- Another service than the one that reports is as it was.
    exact absurd hup (H.isUp_of_atHead hA hh hreq hget hd hid hs)

/-- The overlord handles an event, and goes on in a run without commands and failed checks, or shuts
the daemon down. -/
theorem step_event (H : s.Calm) (hA : s.Answered) (hG : s.Watchful .event) (hh : s.atHead = true)
    {ev : Event} {events : List Event} (he : s.events = ev :: events) :
    Calm { s with
      overlord := (s.overlord.handleSvcEvent ev).1
      todo := (s.overlord.handleSvcEvent ev).2
      events
      log := .handled ev :: s.log } ∨
    ∃ code, (s.overlord.handleSvcEvent ev).2 = shutdown (some code) := by
  have hid : ∀ name, (s.overlord.handleSvcEvent ev).1.idOf name = s.overlord.idOf name :=
    s.overlord.idOf_handleSvcEvent ev
  have hplan := s.overlord.plan_handleSvcEvent ev
  have hstep := s.overlord.eventStep ev
  generalize (s.overlord.handleSvcEvent ev).1 = o', (s.overlord.handleSvcEvent ev).2 = is
    at hstep hid hplan ⊢
  cases hstep with
  | @started st hk hr =>
    refine .inl (H.of_event hA hh hid hplan (fun i hi => ?_) (fun i hi name hst => ?_) ?_)
    · obtain ⟨n, -, rfl⟩ := List.mem_map.mp hi
      exact .start
    · obtain ⟨n, hn, rfl⟩ := List.mem_map.mp hi
      obtain rfl : n = name := of_decide_eq_true hst
      rw [← (List.mem_filter.mp hn).2]
      exact afterDepsRunning_congr rfl rfl
    · refine H.cascade_noted hA hh fun hd => ?_
      cases st with
      | starting | active => cases hd
      | _ => cases hr
  | @stopped st hk hs =>
    refine .inl (H.of_event hA hh hid hplan (fun i hi => ?_) (fun i hi name hst => ?_) ?_)
    · obtain ⟨n, -, rfl⟩ := List.mem_map.mp hi
      exact .stop
    · obtain ⟨n, -, rfl⟩ := List.mem_map.mp hi
      cases hst
    · refine H.cascade_noted hA hh fun hd name hreq id slot hidn hs' hup => ?_
      -- What is up and requires the service is running in its snapshot, and it is stopped.
      obtain ⟨config, hc, hmem⟩ := hreq
      have hentry := IndexMap.get?_eq_some_iff.mp hc
      have hst : st ∈ ev.kind.state? := by rw [hk]; rfl
      have hrun := hG ev (by rw [he]; rfl) st hst hd _ hentry hmem id hidn slot hs' hup
      refine ⟨.request name .stop (.cascade ev.service ev.ofRestart), ?_, by simp [Instr.stops]⟩
      refine List.mem_map.mpr ⟨name, List.mem_map.mpr ⟨(name, config), ?_, rfl⟩, rfl⟩
      refine List.mem_filter.mpr ⟨hentry, ?_⟩
      rw [Bool.and_eq_true]
      exact ⟨List.contains_iff_mem.mpr hmem, hrun⟩
  | @passed st hk hs =>
    refine .inl (H.of_event hA hh hid hplan (List.forall_mem_nil _) (List.forall_mem_nil _) ?_)
    refine H.cascade_noted hA hh fun hd => ?_
    rcases hs with rfl | rfl <;> cases hd
  | exited hk =>
    refine .inl (H.of_event hA hh hid hplan (List.forall_mem_nil _) (List.forall_mem_nil _) ?_)
    exact fun name dep e hreq hget hd id slot hidn hs hup =>
      absurd hup (H.isUp_of_atHead hA hh hreq hget hd hidn hs)
  | @shutdown code hk => exact .inr ⟨code, rfl⟩

/-- A calm daemon stays calm when the overlord receives an answer. -/
theorem step_await (H : s.Calm) {id : ℕ} {rest : List Overlord.Instr} {slot slot' : Slot}
    (htodo : s.todo = .await id :: rest) (hs : s.slots[id]? = some slot)
    (ha : slot.takeAnswer = some slot') : Calm { s.setSlot id slot' with todo := rest } := by
  obtain ⟨-, rfl⟩ := Slot.takeAnswer_cases ha
  have hrest : ∀ {j}, j ∈ rest → j ∈ s.todo := fun hj => htodo ▸ List.mem_cons_of_mem _ hj
  have hslots : ∀ (j : ℕ) (slot₁ : Slot),
      (s.setSlot id { slot with answer := none }).slots[j]? = some slot₁ →
      ∃ slot₀, s.slots[j]? = some slot₀ ∧ slot₁.task = slot₀.task ∧
        slot₁.mailbox = slot₀.mailbox := by
    intro j slot₁ hs₁
    rcases getElem?_setSlot hs₁ with ⟨rfl, rfl⟩ | ⟨-, hs₁⟩
    · exact ⟨slot, hs, rfl, rfl⟩
    · exact ⟨slot₁, hs₁, rfl, rfl⟩
  refine ⟨H.live, fun j hj => H.todo j (hrest hj), H.stopTasks, fun j slot₁ hs₁ => ?_,
    fun j slot₁ hs₁ => ?_, fun j hj => H.ready j (hrest hj), fun j slot₁ hs₁ hm => ?_,
    fun name dep e hreq hget hd j slot₁ hidn hs₁ hup => ?_⟩
  · obtain ⟨slot₀, hs₀, ht, -⟩ := hslots j slot₁ hs₁
    rw [ht]
    exact H.idOf j slot₀ hs₀
  · obtain ⟨slot₀, hs₀, ht, hb⟩ := hslots j slot₁ hs₁
    rw [ht]
    exact (H.slots j slot₀ hs₀).congr (by rw [ht]) (by rw [ht]) hb
  · obtain ⟨slot₀, hs₀, ht, hb⟩ := hslots j slot₁ hs₁
    rw [ht]
    exact H.called j slot₀ hs₀ (hb ▸ hm)
  · obtain ⟨slot₀, hs₀, ht, hb⟩ := hslots j slot₁ hs₁
    rw [hb]
    have hup₀ : slot₀.isUp = true := by rw [Slot.isUp, ← ht]; exact hup
    refine (H.cascade_cons htodo hreq hget hd hidn hs₀ hup₀).imp_right fun h => ?_
    exact h.resolve_left Bool.false_ne_true

/-- The overlord sends a start or a stop. -/
theorem step_sendTo (H : s.Calm) (hw : s.Wired) (hC : s.Counted) {name : String} {id : ℕ} {c : Cmd}
    {why : Reason} {rest : List Overlord.Instr} {slot slot' : Slot}
    (htodo : s.todo = .sendTo name id c why :: rest) (hs : s.slots[id]? = some slot)
    (hp : slot.push c = some slot') :
    Calm { s.setSlot id slot' with todo := rest, log := .sent name id c why :: s.log } := by
  have hhead : .sendTo name id c why ∈ s.todo := htodo ▸ List.mem_cons_self
  have hrest : ∀ {j}, j ∈ rest → j ∈ s.todo := fun hj => htodo ▸ List.mem_cons_of_mem _ hj
  have hmodest := H.todo _ hhead
  have hid : s.overlord.idOf name = some id := by cases hmodest <;> assumption
  obtain ⟨slot₁, hs₁, hname⟩ := hw.slot name id hid
  obtain rfl := Option.some.inj (hs.symm.trans hs₁)
  have hc := H.slots id slot hs
  have hbox := Slot.mailbox_push hp (Task.ended_of_leaving hc.staying)
  have htask := Slot.task_push hp
  have hsent : ∀ n, startsSent { s.setSlot id slot' with
      todo := rest, log := .sent name id c why :: s.log } n =
      s.startsSent n + (Entry.starts n (.sent name id c why)).toNat := by
    intro n
    show (Entry.sent name id c why :: sinceLoad s.log).countP (Entry.starts n) = _
    rw [List.countP_cons]
    cases Entry.starts n (.sent name id c why) <;> rfl
  -- The slot of the service that is sent the command.
  have hnew : slot'.Calm (s.startsSent name + (Entry.starts name (.sent name id c why)).toNat) := by
    rw [hname] at hc
    cases hmodest with
    | sendStart h =>
      -- It has not been sent a start, because there is one at most.
      have hone := hC.count name
      have hpos : 0 < s.todo.countP (Instr.starts name) :=
        List.countP_pos_iff.mpr ⟨_, hhead, by simp [Instr.starts]⟩
      have hzero : s.startsSent name = 0 := by split_ifs at hone <;> omega
      have hstart : Entry.starts name (.sent name id .start .autostart) = true := by
        simp [Entry.starts]
      rw [hzero] at hc ⊢
      rw [hstart]
      exact hc.push_start hp
    | sendStop h => exact hc.push_stop hp
  refine ⟨H.live, fun j hj => H.todo j (hrest hj), H.stopTasks, fun j slot₁ hs₁ => ?_,
    fun j slot₁ hs₁ => ?_, fun j hj n hst => H.ready j (hrest hj) n hst, fun j slot₁ hs₁ hm => ?_,
    fun n dep e hreq hget hd j slot₁ hidn hs₁ hup => ?_⟩
  · rcases getElem?_setSlot (s := s) hs₁ with ⟨rfl, rfl⟩ | ⟨-, hs₁⟩
    · rw [htask]
      exact H.idOf _ slot hs
    · exact H.idOf j slot₁ hs₁
  · rw [hsent]
    rcases getElem?_setSlot (s := s) hs₁ with ⟨rfl, rfl⟩ | ⟨hne, hs₁⟩
    · rw [htask, hname]
      exact hnew
    · -- Another slot is that of another service, and nothing more is counted for it.
      have hother : slot₁.task.actor.name ≠ name := fun heq => hne (by
        have := H.idOf j slot₁ hs₁
        rw [heq, hid] at this
        exact (Option.some.inj this).symm)
      have hnot : Entry.starts slot₁.task.actor.name (.sent name id c why) = false := by
        cases c <;> cases why <;> simp [Entry.starts, Ne.symm hother]
      rw [hnot]
      exact H.slots j slot₁ hs₁
  · rcases getElem?_setSlot (s := s) hs₁ with ⟨rfl, rfl⟩ | ⟨-, hs₁⟩
    · rw [htask, hname]
      rw [hbox] at hm
      rcases List.mem_append.mp hm with hm | hm
      · exact hname ▸ H.called _ slot hs hm
      · obtain rfl := List.mem_singleton.mp hm
        cases hmodest with
        | sendStart h => exact H.ready _ hhead name (by simp [Instr.starts])
    · exact H.called j slot₁ hs₁ hm
  · rcases getElem?_setSlot (s := s) hs₁ with ⟨rfl, rfl⟩ | ⟨hne, hs₁⟩
    · have hup₀ : slot.isUp = true := by rw [Slot.isUp, ← htask]; exact hup
      rw [hbox]
      rcases H.cascade_cons htodo hreq hget hd hidn hs hup₀ with hm | hst | hst
      · exact .inl (List.mem_append_left _ hm)
      · -- The stop is what is sent.
        cases hmodest with
        | sendStart h => cases hst
        | sendStop h => exact .inl (List.mem_append_right _ (List.mem_singleton.mpr rfl))
      · exact .inr hst
    · refine (H.cascade_cons htodo hreq hget hd hidn hs₁ hup).imp_right fun h =>
        h.resolve_left fun hst => ?_
      -- The stop that is sent is for another service.
      cases hmodest with
      | sendStart h => cases hst
      | sendStop h =>
        obtain rfl : name = n := of_decide_eq_true hst
        exact hne (Option.some.inj (hidn.symm.trans hid))

/-- A calm daemon stays calm in the next action of the overlord's handler. -/
theorem step_overlord (H : s.Calm) (hw : s.Wired) (hC : s.Counted) {load : Option Plan}
    {i : Overlord.Instr} {rest : List Overlord.Instr} (htodo : s.todo = i :: rest)
    (h : OverlordStep s load i rest s') : s'.Calm := by
  have hmodest := H.todo i (htodo ▸ List.mem_cons_self)
  have hrest : ∀ {j}, j ∈ rest → j ∈ s.todo := fun hj => htodo ▸ List.mem_cons_of_mem _ hj
  cases h with
  | @unknown name c why rest hn =>
    refine ⟨H.live, fun j hj => H.todo j (hrest hj), H.stopTasks, H.idOf, H.slots,
      fun j hj => H.ready j (hrest hj), H.called,
      fun n dep e hreq hget hd j slot hidn hs hup => ?_⟩
    refine (H.cascade_cons htodo hreq hget hd hidn hs hup).imp_right fun h =>
      h.resolve_left fun hst => ?_
    -- The service would be known.
    have heq : name = n := by
      cases hmodest with
      | start => cases hst
      | stop => exact of_decide_eq_true hst
    rw [← heq, Overlord.idOf, hn] at hidn
    cases hidn
  | @request name c why rest e he =>
    have hid : s.overlord.idOf name = some e.id := idOf_eq_some_iff.mpr ⟨e, he, rfl⟩
    have hsame : ∀ n, Instr.starts n (.sendTo name e.id c why) =
        Instr.starts n (.request name c why) := fun n => by cases c <;> cases why <;> rfl
    have hstops : ∀ n, Instr.stops n (.sendTo name e.id c why) =
        Instr.stops n (.request name c why) := fun n => by cases c <;> rfl
    refine ⟨H.live, fun j hj => ?_, H.stopTasks, H.idOf, H.slots, fun j hj n hst => ?_, H.called,
      fun n dep e' hreq hget hd j slot hidn hs hup => ?_⟩
    · rcases List.mem_cons.mp hj with rfl | hj
      · cases hmodest with
        | start => exact .sendStart hid
        | stop => exact .sendStop hid
      · rcases List.mem_cons.mp hj with rfl | hj
        · exact .await
        · exact H.todo j (hrest hj)
    · rcases List.mem_cons.mp hj with rfl | hj
      · rw [hsame] at hst
        exact H.ready _ (htodo ▸ List.mem_cons_self) n hst
      · rcases List.mem_cons.mp hj with rfl | hj
        · cases hst
        · exact H.ready j (hrest hj) n hst
    · refine (H.cascade_cons htodo hreq hget hd hidn hs hup).imp_right fun h => ?_
      rcases h with hst | ⟨i, hi, hst⟩
      · exact ⟨_, List.mem_cons_self, (hstops n).trans hst⟩
      · exact ⟨i, List.mem_cons_of_mem _ (List.mem_cons_of_mem _ hi), hst⟩
  | sendTo hs hp => exact H.step_sendTo hw hC htodo hs hp
  | await hs ha => exact H.step_await htodo hs ha
  | enable | reloadFailed | reload | stopAll | join | finish => cases hmodest

end Calm

/-- The end of the daemon goes on. -/
theorem Closing.step (H : s.Closing) (hG : s.Watchful l) (h : s.step l = some s') : s'.Closing := by
  cases handlerStep h with
  | same _ ht _ he => rw [Closing, he, ht]; exact H
  | command | check => exact hG.elim
  | event hh =>
    simp only [atHead, Bool.and_eq_true, List.isEmpty_iff, Bool.not_eq_true'] at hh
    rcases H with he | ⟨code, ht | ht | ht⟩
    · rw [hh.2] at he; cases he
    all_goals rw [hh.1] at ht; cases ht
  | overlord htodo hstep =>
    have hended : s.ended = true → s'.Closing := fun he => by
      cases hstep <;> first | exact .inl he | exact .inl rfl
    rcases H with he | ⟨code, ht | ht | ht⟩
    · exact hended he
    all_goals
      rw [ht] at htodo
      obtain ⟨rfl, rfl⟩ := List.cons.inj htodo
      cases hstep
    · exact .inr ⟨code, .inr (.inl rfl)⟩
    · exact .inr ⟨code, .inr (.inr rfl)⟩
    · exact .inl rfl

/-- The daemon is calm when it begins. -/
theorem calm_init (plan : Plan) : (init plan).Calm where
  live := rfl
  todo i hi := by
    obtain ⟨n, -, rfl⟩ := List.mem_map.mp hi
    exact .start
  stopTasks := rfl
  idOf id slot hs := by
    obtain ⟨e, rfl, hid⟩ := getElem?_init hs
    exact hid
  slots id slot hs := by
    obtain ⟨e, rfl, -⟩ := getElem?_init hs
    exact ⟨⟨by rintro ⟨⟩, by rintro ⟨⟩, rfl⟩, rfl, by rintro _ ⟨⟩,
      fun _ => ⟨⟨rfl, rfl, rfl⟩, List.not_mem_nil⟩, by rintro ⟨⟩⟩
  ready i hi name hst := by
    obtain ⟨n, hn, rfl⟩ := List.mem_map.mp hi
    obtain rfl : n = name := of_decide_eq_true hst
    rw [← (List.mem_filter.mp hn).2]
    exact afterDepsRunning_congr rfl rfl
  called id slot hs hm := by
    obtain ⟨e, rfl, -⟩ := getElem?_init hs
    cases hm
  cascade name dep e _ _ _ id slot _ hs hup := by
    obtain ⟨e, rfl, -⟩ := getElem?_init hs
    cases hup

/-- A watchful step of a calm daemon leaves it calm, or begins the shutdown. -/
theorem Calm.step (H : s.Calm) (hw : s.Wired) (hA : s.Answered) (hC : s.Counted)
    (hG : s.Watchful l) (h : s.step l = some s') : s'.Calm ∨ s'.Closing := by
  cases l with
  | tick d =>
    have hs := Option.some.inj h
    exact .inl (H.of_slotStep hw h (by simp) (hs ▸ rfl) (hs ▸ rfl) (hs ▸ rfl) (hs ▸ rfl)
      (hs ▸ rfl))
  | exit e =>
    have hs := step_exit h
    obtain ⟨-, -, rfl⟩ := hs
    exact .inl (H.of_slotStep hw h (by simp) rfl rfl rfl rfl rfl)
  | act i =>
    have hs := step_act h
    obtain ⟨slot, t, -, -, -, rfl⟩ := hs
    exact .inl (H.of_slotStep hw h (by simp) rfl rfl rfl rfl rfl)
  | deliver i =>
    have hs := step_deliver h
    obtain ⟨slot, t, k, -, -, -, -, rfl⟩ := hs
    exact .inl (H.of_slotStep hw h (by simp) rfl rfl rfl rfl rfl)
  | input i inp =>
    have hs := step_input h
    obtain ⟨slot, t, -, -, -, rfl⟩ := hs
    exact .inl (H.of_slotStep hw h (by simp) rfl rfl rfl rfl rfl)
  | stopTask i =>
    obtain ⟨t, slot, slot', phase, hi, -⟩ := step_stopTask h
    rw [H.stopTasks] at hi
    cases hi
  | command c => exact hG.elim
  | check name status => exact hG.elim
  | event =>
    obtain ⟨hh, ev, events, he, rfl⟩ := Daemon.step_event h
    rcases H.step_event hA hG hh he with H' | ⟨code, hshut⟩
    · exact .inl H'
    · exact .inr (.inr ⟨some code, .inl hshut⟩)
  | overlord load =>
    obtain ⟨i, rest, htodo, hstep⟩ := Daemon.step_overlord h
    exact .inl (H.step_overlord hw hC htodo hstep)

/-- In every state of a run without commands and failed checks, the daemon is calm, or it is being
shut down. -/
theorem calm_of_reaches {plan : Plan} (h : Reaches Daemon.step Watchful (init plan) s) :
    s.Calm ∨ s.Closing := by
  refine h.invariant (P := fun s => s.Calm ∨ s.Closing) (.inl (calm_init plan))
    fun s l s' hr H hG hl => ?_
  rcases H with H | H
  · exact H.step (wired_of_reaches hr) (answered_of_reaches hr) (counted_of_reaches hr) hG hl
  · exact .inr (H.step hG hl)

/-! ## At rest -/

/-- The state of the actor that the overlord holds for a service. -/
def stateOf (s : Daemon) (name : String) : Option ServiceState :=
  (s.overlord.idOf name).bind fun id => s.slots[id]?.map fun slot => slot.task.actor.state

/-- A service requires another along a chain, none of whose services in the middle is still being
stopped. -/
inductive Chain (s : Daemon) : String → String → Prop
  | single {name dep : String} (h : s.overlord.Requires name dep) : Chain s name dep
  | cons {name mid dep : String} (h : s.overlord.Requires name mid)
    (hmid : s.stateOf mid ≠ some .stopping) (h' : Chain s mid dep) : Chain s name dep

/-- No service is up while one that it requires, at once or along a chain, is down. -/
def Upheld (s : Daemon) : Prop :=
  ∀ name dep st st', s.Chain name dep → s.stateOf name = some st → st.isUp = true →
    s.stateOf dep = some st' → st'.isDown = false

/-- At rest, the snapshots of a calm daemon are the states, and no stop is on its way. -/
theorem Calm.requires {plan : Plan} (H : s.Calm)
    (h : Reaches Daemon.step Watchful (init plan) s) (hq : s.Quiescent) {name dep : String}
    {st st' : ServiceState} (hreq : s.overlord.Requires name dep) (hst : s.stateOf name = some st)
    (hup : st.isUp = true) (hst' : s.stateOf dep = some st') : st'.isDown = false := by
  by_contra hdown
  rw [Bool.not_eq_false] at hdown
  have hset : ∀ slot ∈ s.slots, slot.task.settled = slot.task.actor := fun slot hs => by
    rw [Task.settled, (hq.tasks slot hs).1, Actor.execAll_nil]
  obtain ⟨id, hid, hslot⟩ := Option.bind_eq_some_iff.mp hst
  obtain ⟨slot, hs, rfl⟩ := Option.map_eq_some_iff.mp hslot
  obtain ⟨id', hid', hslot'⟩ := Option.bind_eq_some_iff.mp hst'
  obtain ⟨slot', hs', rfl⟩ := Option.map_eq_some_iff.mp hslot'
  obtain ⟨e, hget, rfl⟩ := idOf_eq_some_iff.mp hid'
  -- Every actor is that of its service, so the snapshot is of the actor that is held.
  have hattr : s.Attributed := fun n e₁ hget₁ => by
    obtain ⟨slot₁, hs₁, hn₁⟩ := (reported_of_reaches h).reporter n e₁ hget₁
    have hrep := H.idOf _ _ hs₁
    rw [hn₁, idOf_eq_some_iff.mpr ⟨e₁, hget₁, rfl⟩] at hrep
    exact (Option.some.inj hrep).symm
  obtain ⟨slot₁, hs₁, hstate⟩ := hattr.faithful h hq dep e hget
  obtain rfl := Option.some.inj (hs'.symm.trans hs₁)
  have hmem := List.mem_of_getElem? hs
  have hslotup : slot.isUp = true := by rw [Slot.isUp, hset slot hmem]; exact hup
  rcases H.cascade name dep e hreq hget (hstate ▸ hdown) id slot hid hs hslotup with hm | ⟨i, hi, -⟩
  · rcases hq.mailboxes slot hmem with he | hbox
    · rw [Task.ended_of_leaving (H.slots id slot hs).staying] at he
      cases he
    · rw [hbox] at hm
      cases hm
  · rw [hq.todo] at hi
    cases hi

/-- In every run without commands and failed checks in which, whenever the overlord handles a report
that a service is down, every service that requires it and is up is running in its snapshot: when
all queues are empty and the overlord is at its loop head, no service is up while one that it
requires, at once or along a chain, is down. -/
theorem upheld_of_reaches {plan : Plan} (h : Reaches Daemon.step Watchful (init plan) s)
    (hq : s.Quiescent) (hh : s.atHead = true) : s.Upheld := by
  have H : s.Calm := (calm_of_reaches h).resolve_right fun hc => by
    simp only [atHead, Bool.and_eq_true, List.isEmpty_iff, Bool.not_eq_true'] at hh
    rcases hc with he | ⟨code, ht | ht | ht⟩
    · rw [hh.2] at he; cases he
    all_goals rw [hh.1] at ht; cases ht
  have hw := wired_of_reaches h
  intro name dep st st' hchain hst hup hst'
  induction hchain generalizing st with
  | single hreq => exact H.requires h hq hreq hst hup hst'
  | @cons name mid dep hreq hmid h' ih =>
    -- The service in the middle is of the plan, so it has an actor, neither down nor stopping.
    have hplan : mid ∈ s.overlord.plan.services.keys := by
      cases h' with
      | single h => obtain ⟨config, hc, -⟩ := h; exact IndexMap.mem_keys_of_get? hc
      | cons h _ _ => obtain ⟨config, hc, -⟩ := h; exact IndexMap.mem_keys_of_get? hc
    obtain ⟨id, hid⟩ := Option.isSome_iff_exists.mp ((hw.keys mid).mpr hplan)
    obtain ⟨slot, hs, -⟩ := hw.slot mid id hid
    have hstate : s.stateOf mid = some slot.task.actor.state := by
      rw [stateOf, hid, Option.bind_some, hs]; rfl
    have hnot := H.requires h hq hreq hst hup hstate
    refine ih slot.task.actor.state hstate ?_ hst'
    rw [hstate] at hmid
    cases hmem : slot.task.actor.state with
    | starting | active | backoff => rfl
    | stopping => exact (hmid (congrArg some hmem)).elim
    | inactive | error => rw [hmem] at hnot; cases hnot

/-- A database that stays down when it exits successfully, and a server that requires it. -/
def endingPlan : Plan where
  services := (IndexMap.insert ∅ "db"
      { command := some "/bin/db", startup := .enabled, onSuccess := some .ignore }).insert
    "web" { command := some "/bin/web", startup := .enabled, requires := ["db"] }

/-- The database exits. When the overlord handles the report that it is inactive, the server is
running in its snapshot, and is sent a stop. It exits in its turn. -/
def endingLabels : List Label :=
  [.exit ⟨0, 0, true⟩, .input 0 (.childExit true true), .act 0, .deliver 0, .act 0, .act 0, .act 0,
    .deliver 0, .event, .event, .overlord none, .overlord none, .input 1 (.cmd .stop true), .act 1,
    .act 1, .deliver 1, .act 1, .act 1, .overlord none, .event, .exit ⟨1, 0, false⟩,
    .input 1 (.childExit false true), .act 1, .deliver 1, .act 1, .act 1, .act 1, .deliver 1,
    .event, .event]

/-- The server is not left up when the database has gone down. -/
theorem upheld_after_exit :
    ∃ s, Reaches Daemon.step Watchful (init endingPlan) s ∧ s.Quiescent ∧ s.atHead = true ∧
      s.stateOf "db" = some .inactive ∧
      .sent "web" 1 .stop (.cascade "db" false) ∈ s.log ∧ s.Upheld := by
  have h : (runIf Daemon.step Watchful (init endingPlan) (requiringLabels ++ endingLabels)).any
      (fun s : Daemon => decide s.Quiescent && s.atHead &&
        decide (s.stateOf "db" = some .inactive) &&
        decide (.sent "web" 1 .stop (.cascade "db" false) ∈ s.log)) = true := by
    decide +kernel
  obtain ⟨s, hr, h⟩ := Reaches.exists_of_runIf _ h
  simp only [Bool.and_eq_true, decide_eq_true_eq] at h
  obtain ⟨⟨⟨hq, hh⟩, hinactive⟩, hsent⟩ := h
  exact ⟨s, hr, hq, hh, hinactive, hsent, upheld_of_reaches hr hq hh⟩

/-- A run without commands and failed checks, in the order of the `biased` loops. -/
def Unattended (s : Daemon) (l : Label) : Prop :=
  s.Biased l ∧ (match l with
    | .command _ | .check _ _ => False
    | _ => True)

instance (l : Label) : Decidable (s.Unattended l) :=
  match l with
  | .command _ | .check _ _ => isFalse And.right
  | .tick _ | .exit _ | .act _ | .deliver _ | .input _ _ | .overlord _ | .event | .stopTask _ => by
    unfold Unattended; infer_instance

/-- The spawn of the database fails after the server has been sent its start. When the overlord
handles the report of that, the report that the server is starting is still behind it in the
channel, so that the server goes on without the database. -/
theorem exists_not_upheld :
    ∃ s, Reaches Daemon.step Unattended (init requiringPlan) s ∧ s.Quiescent ∧ s.atHead = true ∧
      ¬s.Upheld := by
  have h : (runIf Daemon.step Unattended (init requiringPlan)
      ([.overlord none, .overlord none, .input 0 (.cmd .start false), .act 0, .deliver 0, .act 0,
        .act 0, .deliver 0, .act 0, .overlord none, .event] ++ startLabels 1 ++
        [.event, .event, .event])).any (fun s : Daemon =>
      decide s.Quiescent && s.atHead && decide (s.stateOf "web" = some .active) &&
        decide (s.stateOf "db" = some .error) &&
        decide ((s.overlord.plan.services.get? "web").map (·.requires) = some ["db"])) = true := by
    decide +kernel
  obtain ⟨s, hr, h⟩ := Reaches.exists_of_runIf _ h
  simp only [Bool.and_eq_true, decide_eq_true_eq] at h
  obtain ⟨⟨⟨⟨hq, hh⟩, hactive⟩, herror⟩, hreq⟩ := h
  obtain ⟨config, hc, hreq⟩ := Option.map_eq_some_iff.mp hreq
  have hrequires : s.overlord.Requires "web" "db" := ⟨config, hc, by rw [hreq]; decide⟩
  refine ⟨s, hr, hq, hh, fun H => ?_⟩
  have hdown := H "web" "db" _ _ (.single hrequires) hactive rfl herror
  cases hdown

end Daemon

end Vigil
