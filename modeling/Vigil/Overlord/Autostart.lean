import Vigil.Overlord.Answers

/-!
# Automatic starts

What becomes of the services that a plan starts with the daemon. From the load on, the starts that a
service has been sent on that account, those that the handler is about to send, and its places in
`pending_autostart` are together one for each such service, and none for the others
(`Daemon.Counted`). And no service waits whose dependencies run: the list is looked through whenever
a service begins to run, and by nothing else does a service become ready.
-/

namespace Vigil

/-! ## Readiness -/

namespace Overlord

variable {o o' : Overlord} {name : String}

/-- A service that is ready stays ready where no service has stopped running. -/
theorem afterDepsRunning_mono (hp : o'.plan = o.plan)
    (hr : ∀ dep, o.isRunning dep = true → o'.isRunning dep = true)
    (h : o.afterDepsRunning name = true) : o'.afterDepsRunning name = true := by
  unfold afterDepsRunning at h ⊢
  rw [hp]
  cases hc : o.plan.services.get? name with
  | none => rfl
  | some config =>
    have hdeps : o'.deps name config = o.deps name config := by
      rw [deps, deps, befores, befores, hp]
    simp only [hc, List.all_eq_true] at h ⊢
    rw [hdeps]
    exact fun dep hd => hr dep (h dep hd)

/-- Where the plan and the snapshots are the same, the same services are ready. -/
theorem afterDepsRunning_congr (hp : o'.plan = o.plan) (hs : o'.services = o.services) :
    o'.afterDepsRunning name = o.afterDepsRunning name := by
  have hr : ∀ dep, o'.isRunning dep = o.isRunning dep := fun dep => by rw [isRunning, isRunning, hs]
  rw [Bool.eq_iff_iff]
  exact ⟨afterDepsRunning_mono hp.symm fun dep h => (hr dep).symm.trans h,
    afterDepsRunning_mono hp fun dep h => (hr dep).trans h⟩

/-- Which services start with the daemon has nothing to do with readiness. -/
theorem afterDepsRunning_enable (name' : String) :
    (o.enable name').afterDepsRunning name = o.afterDepsRunning name := by
  have hbefores : (o.enable name').befores name = o.befores name := by
    simp only [befores, enable, IndexMap.modify, List.filter_map, List.map_map]
    have hfun : ∀ e : String × ServiceConfig,
        (if e.1 = name' then (e.1, { e.2 with startup := .enabled }) else e).1 = e.1 ∧
          (if e.1 = name' then (e.1, { e.2 with startup := .enabled }) else e).2.before =
            e.2.before := fun e => by split_ifs <;> exact ⟨rfl, rfl⟩
    have hfilter : ((fun e : String × ServiceConfig =>
        decide (e.1 ≠ name) && e.2.before.contains name) ∘ fun e =>
          if e.1 = name' then (e.1, { e.2 with startup := .enabled }) else e) =
        fun e => decide (e.1 ≠ name) && e.2.before.contains name := by
      funext e
      simp only [Function.comp, (hfun e).1, (hfun e).2]
    rw [hfilter]
    exact List.map_congr_left fun e _ => (hfun e).1
  have hget : (o.enable name').plan.services.get? name = if name = name' then
      (o.plan.services.get? name).map fun c => { c with startup := .enabled }
    else o.plan.services.get? name := IndexMap.get?_modify _ _ _ _
  unfold afterDepsRunning
  rw [hget]
  cases hc : o.plan.services.get? name with
  | none => split_ifs <;> rfl
  | some config =>
    split_ifs
    all_goals
      show (config.after ++ config.requires ++ (o.enable name').befores name).all _ = _
      rw [hbefores]
      rfl

/-- After a report its service runs if it is known and the reported state is a running one, and the
others run as before. -/
theorem isRunning_noted (ev : Event) (st : ServiceState) (dep : String) :
    (o.noted ev st).isRunning dep =
      if dep = ev.service then (o.services.get? dep).isSome && st.isRunning
      else o.isRunning dep := by
  rw [isRunning, get?_noted]
  split_ifs
  · cases o.services.get? dep <;> simp
  · rfl

/-- A report of a state in which a service does not run makes no service ready. -/
theorem afterDepsRunning_noted {ev : Event} {st : ServiceState} (hst : st.isRunning = false)
    (h : o.afterDepsRunning name = false) : (o.noted ev st).afterDepsRunning name = false := by
  by_contra hr
  rw [Bool.not_eq_false] at hr
  have hmono : ∀ dep, (o.noted ev st).isRunning dep = true → o.isRunning dep = true := by
    intro dep hd
    rw [isRunning_noted, hst, Bool.and_false] at hd
    split_ifs at hd
    exact hd
  have hplan : o.plan = (o.noted ev st).plan := rfl
  have hready := afterDepsRunning_mono hplan hmono hr
  rw [h] at hready
  cases hready

/-! ## The list of pending services -/

/-- Dropping some services one by one leaves the other pending ones. -/
theorem foldl_dropPending (ready pending : List String) :
    ready.foldl dropPending pending = pending.filter fun n => decide (n ∉ ready) := by
  induction ready generalizing pending with
  | nil => simp
  | cons name ready ih =>
    rw [List.foldl_cons, ih, dropPending, List.filter_filter]
    refine List.filter_congr fun n _ => ?_
    simp only [List.mem_cons, not_or, decide_not, Bool.decide_and]
    rw [Bool.and_comm]

/-- What stays pending is what is not ready. -/
theorem pendingAutostart_tryStartPending (o : Overlord) :
    o.tryStartPending.1.pendingAutostart =
      o.pendingAutostart.filter fun n => !o.afterDepsRunning n := by
  show (o.pendingAutostart.filter o.afterDepsRunning).foldl dropPending o.pendingAutostart = _
  rw [foldl_dropPending]
  refine List.filter_congr fun n hn => ?_
  simp [List.mem_filter, hn]

/-- Adding new services one by one puts them behind the pending ones. -/
theorem foldl_pushPending {pending deferred : List String} (h : (pending ++ deferred).Nodup) :
    deferred.foldl pushPending pending = pending ++ deferred := by
  induction deferred generalizing pending with
  | nil => simp
  | cons name deferred ih =>
    have hname : name ∉ pending := fun hm =>
      (List.nodup_append.mp h).2.2 _ hm _ List.mem_cons_self rfl
    rw [List.foldl_cons, pushPending, if_neg hname, ih (by simpa using h), List.append_assoc]
    rfl

/-- The services that a plan starts with the daemon are distinct. -/
theorem nodup_enabledNames (o : Overlord) : o.enabledNames.Nodup :=
  o.plan.services.nodup.sublist (List.filter_sublist.map _)

/-- The services that are started with the daemon are of the plan. -/
theorem mem_keys_of_mem_enabledNames (h : name ∈ o.enabledNames) :
    name ∈ o.plan.services.keys :=
  (List.filter_sublist.map _).subset h

/-- `autostart` leaves those services pending whose dependencies do not run yet. -/
theorem pendingAutostart_autostart (h : o.pendingAutostart = []) :
    o.autostart.1.pendingAutostart = o.enabledNames.filter fun n => !o.afterDepsRunning n := by
  show (o.enabledNames.filter _).foldl pushPending o.pendingAutostart = _
  rw [h, foldl_pushPending (o.nodup_enabledNames.sublist List.filter_sublist)]
  rfl

/-- A list is what passes a test and what does not. -/
theorem count_filter_add (p : String → Bool) (l : List String) (name : String) :
    (l.filter p).count name + (l.filter fun n => !p n).count name = l.count name := by
  cases hp : p name with
  | true =>
    have hnone : (l.filter fun n => !p n).count name = 0 :=
      List.count_eq_zero.mpr fun hm => by simp [hp] at hm
    rw [List.count_filter hp, hnone, Nat.add_zero]
  | false =>
    have hnone : (l.filter p).count name = 0 := List.count_eq_zero.mpr fun hm => by simp [hp] at hm
    rw [hnone, List.count_filter (p := fun n => !p n) (by simp [hp]), Nat.zero_add]

end Overlord

/-! ## Counting starts -/

namespace Overlord

/-- An automatic start of the service that is about to be sent. -/
def Instr.starts (name : String) : Instr → Bool
  | .request n .start .autostart => decide (n = name)
  | .sendTo n _ .start .autostart => decide (n = name)
  | _ => false

/-- An automatic start that is about to be sent. -/
def Instr.isAutostart : Instr → Bool
  | .request _ .start .autostart => true
  | .sendTo _ _ .start .autostart => true
  | _ => false

/-- An automatic start of a service is one. -/
theorem Instr.isAutostart_of_starts {i : Instr} {name : String} (h : i.starts name = true) :
    i.isAutostart = true := by
  unfold starts at h
  split at h
  · rfl
  · rfl
  · cases h

/-- Without automatic starts, none is of the service. -/
theorem countP_starts_eq_zero {is : List Instr} (h : ∀ i ∈ is, i.isAutostart = false)
    (name : String) : is.countP (Instr.starts name) = 0 :=
  List.countP_eq_zero.mpr fun i hi hs => by
    have := Instr.isAutostart_of_starts hs
    rw [h i hi] at this
    cases this

/-- The starts of a list of services. -/
theorem countP_starts_startRequest (names : List String) (name : String) :
    (names.map startRequest).countP (Instr.starts name) = names.count name := by
  rw [List.countP_map, List.count]
  refine List.countP_congr fun n _ => ?_
  simp [startRequest, Instr.starts]

/-- No action of a command starts a service automatically. -/
theorem isAutostart_handleCmd (o : Overlord) (c : Cmd) :
    ∀ i ∈ o.handleCmd c, i.isAutostart = false := by
  intro i hi
  cases cmdInstr_of_mem hi with
  | @request name c => cases c <;> rfl
  | _ => rfl

/-- The end of the daemon starts no service. -/
theorem isAutostart_shutdown (code : Option ℤ) : ∀ i ∈ shutdown code, i.isAutostart = false := by
  exact forall_mem_shutdown.mpr ⟨rfl, rfl, rfl⟩

/-- A failed check starts no service automatically. -/
theorem isAutostart_handleCheckEvent (o : Overlord) (check : String) (status : CheckStatus) :
    ∀ i ∈ o.handleCheckEvent check status, i.isAutostart = false := by
  intro i hi
  cases checkInstr_of_mem hi <;> rfl

end Overlord

namespace Entry

/-- An automatic start of the service that was sent. -/
def starts (name : String) : Entry → Bool
  | .sent n _ .start .autostart => decide (n = name)
  | _ => false

/-- The load of a plan. -/
def isLoad : Entry → Bool
  | .loaded _ => true
  | _ => false

end Entry

/-- The part of a log since the last load, the newest first. -/
def sinceLoad (log : List Entry) : List Entry := log.takeWhile fun e => !e.isLoad

/-- The services that the plan of the last load starts with the daemon. -/
def lastLoaded : List Entry → List String
  | [] => []
  | .loaded names :: _ => names
  | _ :: log => lastLoaded log

namespace Daemon

open Runs Overlord

variable {s s' : Daemon} {l : Label}

/-- The automatic starts that the service has been sent since the last load. -/
def startsSent (s : Daemon) (name : String) : ℕ := (sinceLoad s.log).countP (Entry.starts name)

/-- The starts of the services that the plan starts with the daemon. -/
structure Counted (s : Daemon) : Prop where
  /-- Each service that the last load starts has its start sent, about to be sent, or pending. -/
  count : ∀ name, s.startsSent name + s.todo.countP (Instr.starts name) +
    s.overlord.pendingAutostart.count name = if name ∈ lastLoaded s.log then 1 else 0
  /-- All of them are of the plan. -/
  known : ∀ name, (∃ i ∈ s.todo, i.starts name = true) ∨ name ∈ s.overlord.pendingAutostart →
    name ∈ s.overlord.plan.services.keys
  /-- No start is left of the plan before a reload. -/
  ordered : s.todo.Pairwise fun i j => i = .reload → j.isAutostart = false
  /-- No service is pending that is ready. -/
  waiting : ∀ name ∈ s.overlord.pendingAutostart, s.overlord.afterDepsRunning name = false

namespace Counted

/-- No service is pending twice. -/
theorem nodup (H : s.Counted) : s.overlord.pendingAutostart.Nodup := by
  refine List.nodup_iff_count_le_one.mpr fun name => ?_
  have := H.count name
  split_ifs at this <;> omega

/-- A step that loads no plan and makes no service ready. A start that is sent is one less to
send. -/
theorem of_same (H : s.Counted) (hload : lastLoaded s'.log = lastLoaded s.log)
    (hpend : s'.overlord.pendingAutostart = s.overlord.pendingAutostart)
    (hkeys : s'.overlord.plan.services.keys = s.overlord.plan.services.keys)
    (hready : ∀ name, s.overlord.afterDepsRunning name = false →
      s'.overlord.afterDepsRunning name = false)
    (hcount : ∀ name, s'.startsSent name + s'.todo.countP (Instr.starts name) =
      s.startsSent name + s.todo.countP (Instr.starts name))
    (hle : ∀ name, s'.todo.countP (Instr.starts name) ≤ s.todo.countP (Instr.starts name))
    (hord : s'.todo.Pairwise fun i j => i = .reload → j.isAutostart = false) : s'.Counted where
  count name := by rw [hcount, hpend, hload]; exact H.count name
  known name h := by
    rw [hkeys]
    rw [hpend] at h
    refine H.known name (h.imp_left fun h => ?_)
    have hpos : 0 < s'.todo.countP (Instr.starts name) := List.countP_pos_iff.mpr h
    exact List.countP_pos_iff.mp (hpos.trans_le (hle name))
  ordered := hord
  waiting name h := hready name (H.waiting name (hpend ▸ h))

/-- The overlord begins a handler that starts nothing automatically. -/
theorem of_begin (H : s.Counted) (hh : s.todo = []) (hload : lastLoaded s'.log = lastLoaded s.log)
    (hsent : ∀ name, s'.startsSent name = s.startsSent name)
    (hpend : s'.overlord.pendingAutostart = s.overlord.pendingAutostart)
    (hplan : s'.overlord.plan = s.overlord.plan)
    (hready : ∀ name, s.overlord.afterDepsRunning name = false →
      s'.overlord.afterDepsRunning name = false)
    (hn : ∀ i ∈ s'.todo, i.isAutostart = false) : s'.Counted := by
  have hzero : ∀ name, s'.todo.countP (Instr.starts name) = 0 := countP_starts_eq_zero hn
  refine H.of_same hload hpend (by rw [hplan]) hready (fun name => ?_) (fun name => ?_) ?_
  · rw [hzero, hsent, hh, List.countP_nil]
  · rw [hzero]; exact Nat.zero_le _
  · exact List.pairwise_of_forall_mem_list fun _ _ j hj _ => hn j hj

/-- The overlord handles a report that a service runs: what was pending is started, or is pending
still. -/
theorem step_started (H : s.Counted) (hh : s.todo = []) {ev : Event} {events : List Event}
    {st : ServiceState} : Counted { s with
      overlord := (s.overlord.noted ev st).tryStartPending.1
      todo := (s.overlord.noted ev st).tryStartPending.2
      events
      log := .handled ev :: s.log } := by
  have hpend := pendingAutostart_tryStartPending (s.overlord.noted ev st)
  refine ⟨fun name => ?_, fun name h => ?_, ?_, fun name h => ?_⟩
  · have hcount := H.count name
    have hsum := count_filter_add (s.overlord.noted ev st).afterDepsRunning
      s.overlord.pendingAutostart name
    rw [hh, List.countP_nil] at hcount
    have htodo : ((s.overlord.noted ev st).tryStartPending).2.countP (Instr.starts name) =
        (s.overlord.pendingAutostart.filter (s.overlord.noted ev st).afterDepsRunning).count
          name := countP_starts_startRequest _ name
    simp only [hpend, htodo]
    have hlog : startsSent { s with
        overlord := (s.overlord.noted ev st).tryStartPending.1
        todo := (s.overlord.noted ev st).tryStartPending.2
        events
        log := .handled ev :: s.log } name = s.startsSent name := rfl
    rw [hlog]
    show _ + _ + (s.overlord.pendingAutostart.filter _).count name =
      if name ∈ lastLoaded s.log then 1 else 0
    omega
  · show name ∈ s.overlord.plan.services.keys
    refine H.known name (.inr ?_)
    rcases h with ⟨i, hi, hs⟩ | h
    · obtain ⟨n, hn, rfl⟩ := List.mem_map.mp hi
      obtain rfl : n = name := of_decide_eq_true hs
      exact (List.mem_filter.mp hn).1
    · simp only [hpend] at h
      exact (List.mem_filter.mp h).1
  · refine List.pairwise_of_forall_mem_list fun i hi j _ hreload => ?_
    obtain ⟨n, -, rfl⟩ := List.mem_map.mp hi
    cases hreload
  · simp only [hpend] at h
    have hready := (List.mem_filter.mp h).2
    rw [Bool.not_eq_true'] at hready
    rw [← hready]
    exact afterDepsRunning_congr rfl rfl

/-- The account of the starts is kept when the overlord takes an event. -/
theorem step_event (H : s.Counted) (hh : s.todo = []) {ev : Event} {events : List Event} :
    Counted { s with
      overlord := (s.overlord.handleSvcEvent ev).1
      todo := (s.overlord.handleSvcEvent ev).2
      events
      log := .handled ev :: s.log } := by
  have hstep := s.overlord.eventStep ev
  generalize (s.overlord.handleSvcEvent ev).1 = o', (s.overlord.handleSvcEvent ev).2 = is at hstep ⊢
  -- An event that starts nothing and leaves no service ready.
  have quiet : o'.pendingAutostart = s.overlord.pendingAutostart → o'.plan = s.overlord.plan →
      (∀ name, s.overlord.afterDepsRunning name = false → o'.afterDepsRunning name = false) →
      (∀ i ∈ is, i.isAutostart = false) →
      Counted { s with overlord := o', todo := is, events, log := .handled ev :: s.log } :=
    fun hpend hplan hready hn => H.of_begin hh rfl (fun _ => rfl) hpend hplan hready hn
  have stops : ∀ names : List String, ∀ i ∈ names.map fun name => (Instr.request name .stop
      (.cascade ev.service ev.ofRestart)), i.isAutostart = false := by
    intro names i hi
    obtain ⟨name, -, rfl⟩ := List.mem_map.mp hi
    rfl
  cases hstep with
  | started hk hr => exact H.step_started hh
  | stopped hk hs =>
    refine quiet rfl rfl (fun name => afterDepsRunning_noted ?_) (stops _)
    rcases hs with rfl | rfl <;> rfl
  | passed hk hs =>
    refine quiet rfl rfl (fun name => afterDepsRunning_noted ?_) fun i hi =>
      absurd hi List.not_mem_nil
    rcases hs with rfl | rfl <;> rfl
  | exited hk => exact quiet rfl rfl (fun _ h => h) fun i hi => absurd hi List.not_mem_nil
  | shutdown hk => exact quiet rfl rfl (fun _ h => h) (isAutostart_shutdown _)

/-- What `autostart` starts and what it leaves pending are the services that start with the
daemon. -/
theorem count_autostart {o : Overlord} (h : o.pendingAutostart = []) (name : String) :
    o.autostart.2.countP (Instr.starts name) + o.autostart.1.pendingAutostart.count name =
      if name ∈ o.enabledNames then 1 else 0 := by
  have htodo : o.autostart.2.countP (Instr.starts name) =
      (o.enabledNames.filter o.afterDepsRunning).count name := countP_starts_startRequest _ name
  rw [htodo, pendingAutostart_autostart h, count_filter_add, o.nodup_enabledNames.count]

/-- The account of the starts holds when a plan is loaded. -/
theorem of_load (kept : Overlord) (before rest : List Overlord.Instr) {log : List Entry}
    (hk : kept.pendingAutostart = []) (ho : s.overlord = kept.autostart.1)
    (htodo : s.todo = before ++ kept.autostart.2 ++ rest)
    (hlog : s.log = .loaded kept.enabledNames :: log)
    (hb : ∀ i ∈ before, i ≠ .reload ∧ i.isAutostart = false)
    (hr : ∀ i ∈ rest, i.isAutostart = false) : s.Counted where
  count name := by
    have hsum := count_autostart hk name
    have hsent : s.startsSent name = 0 := by rw [startsSent, hlog]; rfl
    have hlast : lastLoaded s.log = kept.enabledNames := by rw [hlog]; rfl
    rw [hsent, htodo, List.countP_append, List.countP_append,
      countP_starts_eq_zero fun i hi => (hb i hi).2, countP_starts_eq_zero hr, ho, hlast]
    omega
  known name h := by
    have hplan : s.overlord.plan = kept.plan := by rw [ho]; rfl
    rw [hplan]
    refine mem_keys_of_mem_enabledNames ?_
    rcases h with ⟨i, hi, hs⟩ | h
    · rw [htodo] at hi
      have hauto := Instr.isAutostart_of_starts hs
      rcases List.mem_append.mp hi with hi | hi
      · rcases List.mem_append.mp hi with hi | hi
        · rw [(hb i hi).2] at hauto; cases hauto
        · obtain ⟨n, hn, rfl⟩ := List.mem_map.mp hi
          obtain rfl : n = name := of_decide_eq_true hs
          exact (List.mem_filter.mp hn).1
      · rw [hr i hi] at hauto; cases hauto
    · rw [ho, pendingAutostart_autostart hk] at h
      exact (List.mem_filter.mp h).1
  ordered := by
    -- The reloads are in the rest, and the starts before it.
    rw [htodo, List.pairwise_append]
    refine ⟨List.pairwise_of_forall_mem_list fun i hi j _ hreload => ?_,
      List.pairwise_of_forall_mem_list fun i _ j hj _ => hr j hj, fun i _ j hj _ => hr j hj⟩
    rcases List.mem_append.mp hi with hi | hi
    · exact ((hb i hi).1 hreload).elim
    · obtain ⟨n, -, rfl⟩ := List.mem_map.mp hi
      cases hreload
  waiting name h := by
    rw [ho, pendingAutostart_autostart hk] at h
    have hready := (List.mem_filter.mp h).2
    rw [Bool.not_eq_true'] at hready
    rw [← hready, ho]
    exact afterDepsRunning_congr rfl rfl

/-- The starts that are left to send, and the next action. -/
theorem countP_starts_todo {i : Overlord.Instr} {rest : List Overlord.Instr}
    (htodo : s.todo = i :: rest) (name : String) : s.todo.countP (Instr.starts name) =
      rest.countP (Instr.starts name) + (i.starts name).toNat := by
  rw [htodo, List.countP_cons]
  cases i.starts name <;> rfl

/-- The account of the starts is kept by an action that starts nothing automatically. -/
theorem of_rest (H : s.Counted) {i : Overlord.Instr} {rest : List Overlord.Instr}
    (htodo : s.todo = i :: rest) (hi : ∀ name, i.starts name = false)
    (hload : lastLoaded s'.log = lastLoaded s.log)
    (hsent : ∀ name, s'.startsSent name = s.startsSent name)
    (hpend : s'.overlord.pendingAutostart = s.overlord.pendingAutostart)
    (hkeys : s'.overlord.plan.services.keys = s.overlord.plan.services.keys)
    (hready : ∀ name, s'.overlord.afterDepsRunning name = s.overlord.afterDepsRunning name)
    (ht : s'.todo = rest) : s'.Counted := by
  have hord := H.ordered
  rw [htodo, List.pairwise_cons] at hord
  have hcount : ∀ name, s'.todo.countP (Instr.starts name) =
      s.todo.countP (Instr.starts name) := fun name => by
    rw [countP_starts_todo htodo, ht, hi]
    rfl
  refine H.of_same hload hpend hkeys (fun name h => (hready name).trans h) (fun name => ?_)
    (fun name => (hcount name).le) (ht ▸ hord.2)
  rw [hcount, hsent]

/-- An action that starts nothing automatically, and leaves the overlord as it is. -/
theorem tail (H : s.Counted) {i : Overlord.Instr} {rest : List Overlord.Instr}
    (htodo : s.todo = i :: rest) (hi : ∀ name, i.starts name = false)
    (ho : s'.overlord = s.overlord) (hlog : s'.log = s.log) (ht : s'.todo = rest) : s'.Counted :=
  H.of_rest htodo hi (by rw [hlog]) (fun _ => by rw [startsSent, startsSent, hlog]) (by rw [ho])
    (by rw [ho]) (fun _ => by rw [ho]) ht

/-- What is about to be started automatically is known to the overlord. -/
theorem starts_of_unknown (H : s.Counted) (hw : s.Wired) {name : String} {c : Cmd} {why : Reason}
    {rest : List Overlord.Instr} (htodo : s.todo = .request name c why :: rest)
    (hn : s.overlord.services.get? name = none) (name' : String) :
    Instr.starts name' (.request name c why) = false := by
  by_contra hs
  rw [Bool.not_eq_false] at hs
  have hname : name = name' := by
    unfold Instr.starts at hs
    split at hs
    · next heq => cases heq; exact of_decide_eq_true hs
    · next heq => cases heq
    · cases hs
  -- The services that are started automatically are of the plan.
  have hk := H.known name' (.inl ⟨_, htodo ▸ List.mem_cons_self, hs⟩)
  rw [← hname, ← hw.keys, idOf, hn] at hk
  cases hk

/-- The overlord looks a service up to which it sends a command. -/
theorem step_request (H : s.Counted) {name : String} {id : ℕ} {c : Cmd} {why : Reason}
    {rest : List Overlord.Instr} (htodo : s.todo = .request name c why :: rest) :
    Counted { s with todo := .sendTo name id c why :: .await id :: rest } := by
  have hord := H.ordered
  rw [htodo, List.pairwise_cons] at hord
  have hsame : ∀ name', Instr.starts name' (.sendTo name id c why) =
      Instr.starts name' (.request name c why) := fun name' => by
    cases c <;> cases why <;> rfl
  have hcount : ∀ name', List.countP (Instr.starts name')
      (.sendTo name id c why :: .await id :: rest) = s.todo.countP (Instr.starts name') :=
    fun name' => by
      rw [countP_starts_todo htodo, List.countP_cons, List.countP_cons, hsame]
      cases Instr.starts name' (.request name c why) <;> rfl
  refine H.of_same rfl rfl rfl (fun _ h => h) (fun name' => ?_)
    (fun name' => (hcount name').le) ?_
  · exact congrArg _ (hcount name')
  · rw [List.pairwise_cons, List.pairwise_cons]
    -- Neither of the two is a reload.
    exact ⟨fun _ _ h => (by cases h), fun _ _ h => (by cases h), hord.2⟩

/-- The account of the starts is kept when the overlord sends a command. -/
theorem step_sendTo (H : s.Counted) {name : String} {id : ℕ} {c : Cmd} {why : Reason}
    {rest : List Overlord.Instr} {slot : Slot} (htodo : s.todo = .sendTo name id c why :: rest) :
    Counted { s.setSlot id slot with todo := rest, log := .sent name id c why :: s.log } := by
  have hord := H.ordered
  rw [htodo, List.pairwise_cons] at hord
  have hsent : sinceLoad (.sent name id c why :: s.log) =
      .sent name id c why :: sinceLoad s.log := rfl
  have hsame : ∀ name', Entry.starts name' (.sent name id c why) =
      Instr.starts name' (.sendTo name id c why) := fun name' => by
    cases c <;> cases why <;> rfl
  refine H.of_same rfl rfl rfl (fun _ h => h) (fun name' => ?_) (fun name' => ?_) hord.2
  · rw [countP_starts_todo htodo, startsSent, startsSent, hsent, List.countP_cons, hsame]
    show _ + _ + rest.countP _ = _
    cases Instr.starts name' (.sendTo name id c why) with
    | true => simp only [if_true, Bool.toNat_true]; omega
    | false => simp
  · rw [countP_starts_todo htodo]
    exact Nat.le_add_right _ _

/-- The account of the starts is kept by the next action of the overlord's handler. -/
theorem step_overlord (H : s.Counted) (hA : s.Answered) (hw : s.Wired) {load : Option Plan}
    {i : Overlord.Instr} {rest : List Overlord.Instr} (htodo : s.todo = i :: rest)
    (h : OverlordStep s load i rest s') : s'.Counted := by
  have hord := H.ordered
  rw [htodo, List.pairwise_cons] at hord
  cases h with
  | unknown hn => exact H.tail htodo (H.starts_of_unknown hw htodo hn) rfl rfl rfl
  | request he => exact H.step_request htodo
  | sendTo hs hp => exact H.step_sendTo htodo
  | await hs ha => exact H.tail htodo (fun _ => rfl) rfl rfl rfl
  | @enable name rest =>
    exact H.of_rest htodo (fun _ => rfl) rfl (fun _ => rfl) rfl (IndexMap.keys_modify _ _ _)
      (fun _ => afterDepsRunning_enable name) rfl
  | reloadFailed hl => exact H.tail htodo (fun _ => rfl) rfl rfl rfl
  | @reload rest plan hl =>
    refine of_load _ _ rest rfl rfl rfl rfl (fun i hi => ?_) fun j hj => hord.1 j hj rfl
    obtain ⟨e, -, rfl⟩ := List.mem_map.mp hi
    exact ⟨by rintro ⟨⟩, rfl⟩
  | stopAll => exact H.tail htodo (fun _ => rfl) rfl rfl rfl
  | join hd => exact H.tail htodo (fun _ => rfl) rfl rfl rfl
  | @finish code rest =>
    have hrest : rest = [] := by
      have hhand := hA.handling
      rw [htodo] at hhand
      cases hhand with
      | handler hh => cases hh with | call hi _ => cases hi
      | finishing => rfl
    exact H.of_rest htodo (fun _ => rfl) rfl (fun _ => rfl) rfl rfl (fun _ => rfl) hrest.symm

/-- Every step keeps the starts in order. -/
theorem step (H : s.Counted) (hA : s.Answered) (hw : s.Wired) (h : s.step l = some s') :
    s'.Counted := by
  have same : s'.overlord = s.overlord → s'.log = s.log → s'.todo = s.todo → s'.Counted :=
    fun ho hlog ht => H.of_same (by rw [hlog]) (by rw [ho]) (by rw [ho])
      (fun _ h => by rw [ho]; exact h)
      (fun _ => by rw [startsSent, startsSent, hlog, ht]) (fun _ => by rw [ht]) (ht ▸ H.ordered)
  have head : s.atHead = true → s.todo = [] := fun hh => by
    simp only [atHead, Bool.and_eq_true, List.isEmpty_iff] at hh
    exact hh.1
  cases handlerStep h with
  | same ho ht hlog => exact same ho hlog ht
  | @command c hh =>
    exact H.of_begin (head hh) rfl (fun _ => rfl) rfl rfl (fun _ h => h)
      (s.overlord.isAutostart_handleCmd c)
  | @check name status hh =>
    exact H.of_begin (head hh) rfl (fun _ => rfl) rfl rfl (fun _ h => h)
      (s.overlord.isAutostart_handleCheckEvent name status)
  | event hh => exact H.step_event (head hh)
  | overlord htodo hstep =>
    exact H.step_overlord hA hw htodo hstep

end Counted

/-- In every state of every run, the starts of the services that start with the daemon are in
order. -/
theorem counted_of_reaches {G : Daemon → Label → Prop} {plan : Plan}
    (h : Reaches step G (init plan) s) : s.Counted := by
  refine h.invariant (P := Counted) ?_ fun s l s' hr H _ hl =>
    H.step (answered_of_reaches hr) (wired_of_reaches hr) hl
  exact .of_load (Overlord.syncActors { plan } 0).1 [] [] rfl rfl
    (by simp [init]) rfl (List.forall_mem_nil _) (List.forall_mem_nil _)

end Daemon

end Vigil
