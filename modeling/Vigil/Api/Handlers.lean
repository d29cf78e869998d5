import Vigil.Api.Auth
import Vigil.Lib.Channel
import Vigil.Lib.Runs
import Vigil.Overlord.State

/-!
# The handlers of the API

The requests that the daemon serves (`api/mod.rs` and `api/handlers/`), in any number at once and
one action at a time. A handler is the level that it requires of its caller and the effects that it
has then; those that only read are sent to the overlord as queries. The caller's level is settled
before the body is looked at, and each lookup reads the identity store as it is at that moment.

`Authorised` says which identity has let a request through. `authorised_of_advance` states that a
request of a mutating endpoint changes something only with such an identity, unless the store was
empty when the request came, and that a request that is refused changes nothing.
-/

namespace Vigil.Api

open Runs

/-- The actions of `POST /v1/vigild`. -/
inductive DaemonAction
  | stop
  | restart
  deriving DecidableEq, Repr

/-- What a handler does to the daemon. -/
inductive Effect
  /-- `identity_store.add`. -/
  | addIdentity (name : String) (spec : IdentitySpec)
  /-- `identity_store.remove`. -/
  | removeIdentities (names : List String)
  /-- `overlord.tx.send`. -/
  | overlord (c : Overlord.Cmd)
  /-- `shutdown_tx.send`. -/
  | shutdown (action : DaemonAction)

/-- The effect is more than a question to the overlord. -/
def Effect.Mutates (e : Effect) : Prop := e ≠ .overlord .query

/-- A handler. -/
structure Handler where
  /-- The level that it requires, if it takes the caller. -/
  required : Option IdentityAccess
  effects : List Effect := []

namespace Handler

/-- `GET /v1/system-info`. -/
def systemInfo : Handler := ⟨none, [.overlord .query]⟩

/-- `GET /v1/metrics`. -/
def getMetrics : Handler := ⟨some .metrics, []⟩

/-- `GET /v1/services`. -/
def listServices : Handler := ⟨some .read, [.overlord .query]⟩

/-- `POST /v1/services`. -/
def servicesAction (action : ServiceAction) (names : List String) : Handler :=
  ⟨some .write, [.overlord (.services action names)]⟩

/-- `GET /v1/changes/{id}`. -/
def getChange : Handler := ⟨some .read, [.overlord .query]⟩

/-- `GET /v1/checks`. -/
def listChecks : Handler := ⟨some .read, [.overlord .query]⟩

/-- `GET /v1/alerts`. -/
def listAlerts : Handler := ⟨some .read, [.overlord .query]⟩

/-- `GET /v1/logs`. -/
def getLogs : Handler := ⟨some .read, []⟩

/-- `GET /v1/logs/follow`. -/
def followLogs : Handler := ⟨some .read, []⟩

/-- `POST /v1/replan`. -/
def replan : Handler := ⟨some .write, [.overlord .reloadLayers]⟩

/-- `POST /v1/vigild`. -/
def daemonAction (action : DaemonAction) : Handler := ⟨some .admin, [.shutdown action]⟩

/-- `GET /v1/identities`. -/
def listIdentities : Handler := ⟨some .admin, []⟩

/-- `POST /v1/identities`. -/
def addIdentities (identities : IndexMap String IdentitySpec) : Handler :=
  ⟨some .admin, identities.entries.map fun e => .addIdentity e.1 e.2⟩

/-- `DELETE /v1/identities`. -/
def removeIdentities (identities : List String) : Handler :=
  ⟨some .admin, [.removeIdentities identities]⟩

end Handler

/-- The endpoints, with what their handlers read of the body. -/
inductive Endpoint
  | systemInfo
  | getMetrics
  | listServices
  | servicesAction (action : ServiceAction) (names : List String)
  | getChange
  | listChecks
  | listAlerts
  | getLogs
  | followLogs
  | replan
  | daemonAction (action : DaemonAction)
  | listIdentities
  | addIdentities (identities : IndexMap String IdentitySpec)
  | removeIdentities (identities : List String)

/-- The handler of an endpoint in the `router`. -/
def Endpoint.handler : Endpoint → Handler
  | .systemInfo => .systemInfo
  | .getMetrics => .getMetrics
  | .listServices => .listServices
  | .servicesAction action names => .servicesAction action names
  | .getChange => .getChange
  | .listChecks => .listChecks
  | .listAlerts => .listAlerts
  | .getLogs => .getLogs
  | .followLogs => .followLogs
  | .replan => .replan
  | .daemonAction action => .daemonAction action
  | .listIdentities => .listIdentities
  | .addIdentities identities => .addIdentities identities
  | .removeIdentities identities => .removeIdentities identities

/-- A handler that does more than ask the overlord requires `write` at least. -/
theorem Endpoint.write_le_required (ep : Endpoint) {e : Effect} (he : e ∈ ep.handler.effects)
    (hm : e.Mutates) : ∃ level, ep.handler.required = some level ∧ .write ≤ level := by
  cases ep with
  | servicesAction | replan => exact ⟨.write, rfl, le_rfl⟩
  | daemonAction | addIdentities | removeIdentities => exact ⟨.admin, rfl, by decide⟩
  | getMetrics | getLogs | followLogs | listIdentities => exact absurd he List.not_mem_nil
  | systemInfo | listServices | getChange | listChecks | listAlerts =>
    exact absurd (List.mem_singleton.mp he) hm

/-- A request. -/
structure Request where
  parts : Parts
  endpoint : Endpoint
  /-- The query, the path, and the body can be read. -/
  extracted : Bool := true

/-- How a request ends. -/
inductive Outcome
  /-- An answer, after the handler's effects. -/
  | answered
  /-- `403 Forbidden`. -/
  | forbidden
  /-- An extractor's error. -/
  | rejected
  /-- The overlord is gone. -/
  | internal
  /-- The connection is closed before there is an answer. -/
  | dropped
  deriving DecidableEq, Repr

/-- How far a request is. -/
inductive Phase
  /-- `Caller::from_request_parts`, before it looks at the store. -/
  | caller
  /-- `resolve_access`, before the lookup. -/
  | resolving (lookup : Lookup)
  /-- The caller is settled. -/
  | called (access : IdentityAccess)
  /-- The handler's effects that are still to come. -/
  | acting (todo : List Effect)
  | finished (outcome : Outcome)

/-- A request that is served. -/
structure Handling where
  request : Request
  phase : Phase
  /-- The store was empty when the request was looked at. The daemon does not keep this. -/
  bootstrap : Bool := false
  /-- The store in which a lookup has found the caller, and when. The daemon does not keep this. -/
  resolved : Option (ℕ × IdentityStore) := none

/-- The daemon as far as the API changes it. -/
structure Server where
  now : ℕ := 0
  store : IdentityStore := {}
  overlord : Channel Overlord.Cmd := { capacity := 128 }
  shutdown : Channel DaemonAction := { capacity := 1 }
  /-- The requests, in the order of their arrival. -/
  handlings : List Handling := []

/-- What happens. -/
inductive ServerLabel
  | arrive (r : Request)
  /-- The next action of a request. -/
  | advance (i : ℕ)
  /-- The connection of a request is closed. -/
  | drop (i : ℕ)
  | tick
  /-- The rest of the daemon takes commands from the queues, and puts some there. -/
  | rest (overlord : Channel Overlord.Cmd) (shutdown : Channel DaemonAction)

/-- A request that has arrived. A handler without a caller acts at once. -/
def Request.start (r : Request) : Handling where
  request := r
  phase :=
    if r.endpoint.handler.required.isSome then .caller
    else .acting r.endpoint.handler.effects

/-- Perform an effect: the state after it, and whether the handler goes on. It waits while the queue
is full. -/
def Effect.perform (s : Server) : Effect → Option (Server × Bool)
  | .addIdentity name spec => some ({ s with store := s.store.add name spec }, true)
  | .removeIdentities names => some ({ s with store := (s.store.remove names).1 }, true)
  | .overlord c =>
    match s.overlord.trySend c with
    | .ok q => some ({ s with overlord := q }, true)
    | .error .closed => some (s, false)
    | .error .full => none
  | .shutdown action =>
    match s.shutdown.trySend action with
    | .ok q => some ({ s with shutdown := q }, true)
    -- `let _ =` drops the error.
    | .error .closed => some (s, true)
    | .error .full => none

/-- `Caller::require` and what the handler does after it. -/
def Handling.enter (h : Handling) (access : IdentityAccess) : Handling :=
  if h.request.extracted then
    match h.request.endpoint.handler.required with
    | some needed =>
      if needed ≤ access then { h with phase := .acting h.request.endpoint.handler.effects }
      else { h with phase := .finished .forbidden }
    | none => { h with phase := .acting h.request.endpoint.handler.effects }
  else { h with phase := .finished .rejected }

/-- The next action of a request, and the state after it. -/
def Handling.advance (orc : Oracles) (s : Server) (h : Handling) : Option (Server × Handling) :=
  match h.phase with
  | .caller =>
    if s.store.isEmpty then some (s, { h with phase := .called .admin, bootstrap := true })
    else some (s, { h with phase := .resolving .basic })
  | .resolving lookup =>
    match lookup.attempt orc s.now s.store h.request.parts, lookup.next with
    | some level, _ =>
      some (s, { h with phase := .called level, resolved := some (s.now, s.store) })
    | none, some next => some (s, { h with phase := .resolving next })
    | none, none => some (s, { h with phase := .called .open })
  | .called access => some (s, h.enter access)
  | .acting [] => some (s, { h with phase := .finished .answered })
  | .acting (e :: todo) =>
    (e.perform s).map fun r =>
      (r.1, { h with phase := if r.2 then .acting todo else .finished .internal })
  | .finished _ => none

namespace Server

/-- One step of the daemon. -/
def step (orc : Oracles) (s : Server) : ServerLabel → Option Server
  | .arrive r => some { s with handlings := s.handlings ++ [r.start] }
  | .advance i => do
    let h ← s.handlings[i]?
    let (s', h') ← h.advance orc s
    return { s' with handlings := s.handlings.set i h' }
  | .drop i => do
    let h ← s.handlings[i]?
    return { s with handlings := s.handlings.set i { h with phase := .finished .dropped } }
  | .tick => some { s with now := s.now + 1 }
  | .rest overlord shutdown => some { s with overlord, shutdown }

end Server

/-- An identity has let the request through to the level: it was in the store, and it matched the
request, when the lookup that settled the caller read the store. -/
def Handling.Authorised (orc : Oracles) (h : Handling) (level : IdentityAccess) : Prop :=
  ∃ now store, h.resolved = some (now, store) ∧
    ∃ id ∈ store.values, level ≤ id.access ∧ id.Matches orc now h.request.parts

/-- The request was refused. -/
def Handling.Refused (h : Handling) : Prop :=
  h.phase = .finished .forbidden ∨ h.phase = .finished .rejected

/-- What the mutating endpoints change: the identities, the commands to the overlord that are more
than questions, and the daemon actions. -/
def Server.mutable (s : Server) : IdentityStore × List Overlord.Cmd × List DaemonAction :=
  (s.store, s.overlord.items.filter fun c => decide (c ≠ .query), s.shutdown.items)

/-- The level that the caller may act on has been justified. -/
def Handling.Justified (orc : Oracles) (h : Handling) (level : IdentityAccess) : Prop :=
  h.bootstrap = true ∨ level ≤ .open ∨ h.Authorised orc level

/-- A request is as far as its caller's level lets it be. -/
def Handling.Sound (orc : Oracles) (h : Handling) : Prop :=
  match h.phase with
  | .called access => h.Justified orc access
  | .acting todo => todo ⊆ h.request.endpoint.handler.effects ∧
      ∀ level, h.request.endpoint.handler.required = some level → h.Justified orc level
  | _ => True

namespace Handling

variable {orc : Oracles} {s s' : Server} {h h' : Handling}

/-- A level is justified by a higher one. -/
theorem Justified.mono {level level' : IdentityAccess} (hl : h.Justified orc level)
    (hle : level' ≤ level) : h.Justified orc level' := by
  refine hl.imp_right (Or.imp hle.trans ?_)
  rintro ⟨now, store, hr, id, hid, hlevel, hm⟩
  exact ⟨now, store, hr, id, hid, hle.trans hlevel, hm⟩

/-- A request that has just arrived is sound: it has neither an access level nor an answer. -/
theorem sound_start (r : Request) : r.start.Sound orc := by
  unfold Sound Request.start
  cases hreq : r.endpoint.handler.required with
  | none =>
    refine ⟨List.Subset.refl _, fun level hl => ?_⟩
    cases hl
  | some level => trivial

/-- A caller that the handler lets in acts on a level that is justified. -/
theorem sound_enter {access : IdentityAccess} (hj : h.Justified orc access) :
    (h.enter access).Sound orc := by
  unfold enter
  split_ifs
  · split
    · next needed hreq =>
      split_ifs with hle
      · refine ⟨List.Subset.refl _, fun level hl => ?_⟩
        obtain rfl : needed = level := Option.some.inj (hreq.symm.trans hl)
        exact hj.mono hle
      · trivial
    · next hreq =>
      refine ⟨List.Subset.refl _, fun level hl => ?_⟩
      rw [show h.request.endpoint.handler.required = some level from hl] at hreq
      cases hreq
  · trivial

/-- A request stays sound when it advances. -/
theorem Sound.advance (hs : h.Sound orc) (hadv : h.advance orc s = some (s', h')) :
    h'.Sound orc := by
  unfold Handling.advance at hadv
  split at hadv
  · split_ifs at hadv <;> cases hadv
    · exact Or.inl rfl
    · trivial
  · next lookup hphase =>
    split at hadv <;> cases hadv
    · next level hlevel =>
      obtain ⟨id, hid, rfl, hm⟩ := Lookup.exists_of_attempt hlevel
      exact Or.inr (Or.inr ⟨s.now, s.store, rfl, id, hid, le_rfl, hm⟩)
    · trivial
    · exact Or.inr (Or.inl le_rfl)
  · next access hphase =>
    cases hadv
    rw [Sound, hphase] at hs
    exact sound_enter hs
  · cases hadv
    trivial
  · next e todo hphase =>
    obtain ⟨⟨s₁, ok⟩, -, hadv⟩ := Option.map_eq_some_iff.mp hadv
    cases hadv
    rw [Sound, hphase] at hs
    cases ok
    · trivial
    · exact ⟨fun e' he => hs.1 (List.mem_cons_of_mem _ he), hs.2⟩
  · cases hadv

/-- The handler's effects have begun, or the request has ended without being refused. -/
def Admitted (h : Handling) : Prop :=
  match h.phase with
  | .acting _ => True
  | .finished outcome => outcome ≠ .forbidden ∧ outcome ≠ .rejected
  | _ => False

/-- A request that is admitted is not refused. -/
theorem Admitted.not_refused (ha : h.Admitted) : ¬h.Refused := by
  rintro (hp | hp) <;> rw [Admitted, hp] at ha <;> simp at ha

/-- A request stays admitted when it advances. -/
theorem Admitted.advance (ha : h.Admitted) (hadv : h.advance orc s = some (s', h')) :
    h'.Admitted := by
  unfold Handling.advance at hadv
  unfold Admitted at ha
  split at hadv <;> rename_i hphase <;> rw [hphase] at ha
  · exact ha.elim
  · exact ha.elim
  · exact ha.elim
  · cases hadv
    simp [Admitted]
  · obtain ⟨⟨s₁, ok⟩, -, hadv⟩ := Option.map_eq_some_iff.mp hadv
    cases hadv
    cases ok <;> simp [Admitted]
  · cases hadv

/-- Only an effect of the handler changes the state. -/
theorem eq_or_performs (hadv : h.advance orc s = some (s', h')) :
    s' = s ∨ ∃ e todo, h.phase = .acting (e :: todo) ∧ ∃ ok, e.perform s = some (s', ok) := by
  unfold Handling.advance at hadv
  split at hadv
  · split_ifs at hadv <;> cases hadv <;> exact .inl rfl
  · split at hadv <;> cases hadv <;> exact .inl rfl
  · cases hadv
    exact .inl rfl
  · cases hadv
    exact .inl rfl
  · next e todo hphase =>
    obtain ⟨⟨s₁, ok⟩, hperf, hadv⟩ := Option.map_eq_some_iff.mp hadv
    cases hadv
    exact .inr ⟨e, todo, hphase, ok, hperf⟩
  · cases hadv

/-- What one step makes of a request. -/
inductive Next (orc : Oracles) (s : Server) (h : Handling) : Handling → Prop
  | kept : Next orc s h h
  | advanced {s' : Server} {h' : Handling} (hadv : h.advance orc s = some (s', h')) :
    Next orc s h h'
  | dropped : Next orc s h { h with phase := .finished .dropped }

end Handling

/-- A question to the overlord changes nothing that the mutating endpoints change. -/
theorem Effect.mutates_of_mutable_ne {s s' : Server} {e : Effect} {ok : Bool}
    (hp : e.perform s = some (s', ok)) (hne : s'.mutable ≠ s.mutable) : e.Mutates := by
  rintro rfl
  apply hne
  simp only [Effect.perform] at hp
  split at hp
  · next q hq =>
    cases hp
    obtain ⟨-, rfl⟩ := Channel.trySend_eq_ok_iff.mp hq
    simp [Server.mutable]
  · cases hp
    rfl
  · cases hp

namespace Server

variable {orc : Oracles} {s s' : Server} {l : ServerLabel}

/-- The request at a place before a step is there after it, as far as the step has brought it, and
a request that is there for the first time has just arrived. -/
def Evolves (orc : Oracles) (s s' : Server) (i : ℕ) : Prop :=
  (∀ h, s.handlings[i]? = some h → ∃ h', s'.handlings[i]? = some h' ∧ h.Next orc s h') ∧
    ∀ h', s'.handlings[i]? = some h' →
      (∃ h, s.handlings[i]? = some h ∧ h.Next orc s h') ∨ ∃ r : Request, h' = r.start

/-- A step that does not touch the requests. -/
theorem Evolves.of_eq (heq : s'.handlings = s.handlings) (i : ℕ) : Evolves orc s s' i := by
  rw [Evolves, heq]
  exact ⟨fun h hh => ⟨h, hh, .kept⟩, fun h hh => .inl ⟨h, hh, .kept⟩⟩

/-- A step that replaces one request by what follows it lets every request evolve. -/
theorem Evolves.of_set {j : ℕ} {g g' : Handling} (hg : s.handlings[j]? = some g)
    (hnext : g.Next orc s g') (heq : s'.handlings = s.handlings.set j g') (i : ℕ) :
    Evolves orc s s' i := by
  obtain ⟨hlt, -⟩ := List.getElem?_eq_some_iff.mp hg
  rw [Evolves, heq, List.getElem?_set]
  split_ifs with hij
  · subst hij
    exact ⟨fun h hh => ⟨g', rfl, Option.some.inj (hg.symm.trans hh) ▸ hnext⟩,
      fun h' hh => .inl ⟨g, hg, Option.some.inj hh ▸ hnext⟩⟩
  · exact ⟨fun h hh => ⟨h, hh, .kept⟩, fun h hh => .inl ⟨h, hh, .kept⟩⟩

/-- A step lets every request evolve. -/
theorem evolves_of_step (hs : step orc s l = some s') (i : ℕ) : Evolves orc s s' i := by
  cases l with
  | arrive r =>
    obtain rfl := Option.some.inj hs
    refine ⟨fun h hh => ⟨h, ?_, .kept⟩, fun h' hh => ?_⟩
    · rw [List.getElem?_append_left (List.getElem?_eq_some_iff.mp hh).1, hh]
    · rcases Nat.lt_or_ge i s.handlings.length with hlt | hge
      · rw [List.getElem?_append_left hlt] at hh
        exact .inl ⟨h', hh, .kept⟩
      · rw [List.getElem?_append_right hge, List.getElem?_singleton] at hh
        split_ifs at hh
        exact .inr ⟨r, (Option.some.inj hh).symm⟩
  | advance j =>
    obtain ⟨g, hg, hs⟩ := Option.bind_eq_some_iff.mp hs
    obtain ⟨⟨s₁, g'⟩, hadv, hs⟩ := Option.bind_eq_some_iff.mp hs
    obtain rfl := Option.some.inj hs
    exact .of_set hg (.advanced hadv) rfl i
  | drop j =>
    obtain ⟨g, hg, hs⟩ := Option.bind_eq_some_iff.mp hs
    obtain rfl := Option.some.inj hs
    exact .of_set hg .dropped rfl i
  | tick =>
    obtain rfl := Option.some.inj hs
    exact .of_eq rfl i
  | rest overlord shutdown =>
    obtain rfl := Option.some.inj hs
    exact .of_eq rfl i

/-- Every request that is served is sound, in every state that is reached. -/
theorem sound_of_reaches {s₀ : Server} (h₀ : s₀.handlings = [])
    (hr : Reaches (step orc) Always s₀ s) (i : ℕ) (h : Handling) (hh : s.handlings[i]? = some h) :
    h.Sound orc := by
  refine hr.invariant (P := fun s => ∀ i h, s.handlings[i]? = some h → h.Sound orc) ?_ ?_ i h hh
  · intro i h hh
    simp [h₀] at hh
  · intro s l s' _ hinv _ hs i h' hh'
    obtain ⟨h, hh, hnext⟩ | ⟨r, rfl⟩ := (evolves_of_step hs i).2 h' hh'
    · cases hnext with
      | kept => exact hinv i _ hh
      | advanced hadv => exact (hinv i _ hh).advance hadv
      | dropped => trivial
    · exact Handling.sound_start r

/-- A request that is admitted stays so. -/
theorem admitted_of_reaches {i : ℕ} (hr : Reaches (step orc) Always s s')
    (ha : ∃ h, s.handlings[i]? = some h ∧ h.Admitted) :
    ∃ h, s'.handlings[i]? = some h ∧ h.Admitted := by
  refine hr.invariant (P := fun s => ∃ h, s.handlings[i]? = some h ∧ h.Admitted) ha ?_
  rintro s l s' - ⟨h, hh, ha⟩ - hs
  obtain ⟨h', hh', hnext⟩ := (evolves_of_step hs i).1 h hh
  refine ⟨h', hh', ?_⟩
  cases hnext with
  | kept => exact ha
  | advanced hadv => exact ha.advance hadv
  | dropped => exact ⟨by decide, by decide⟩

/-- A request changes what the mutating endpoints change only if its endpoint requires `write` at
least and, where the store was not empty when the request was looked at, an identity of the store
that matches the request has at least the level that the endpoint requires. A request that is
refused leaves the identities and both queues as they are. -/
theorem authorised_of_advance {s₀ : Server} {i : ℕ} (h₀ : s₀.handlings = [])
    (hr : Reaches (step orc) Always s₀ s) (hs : step orc s (.advance i) = some s') :
    (s'.mutable ≠ s.mutable → ∃ h level, s.handlings[i]? = some h ∧
        h.request.endpoint.handler.required = some level ∧ .write ≤ level ∧
        (h.bootstrap = false → h.Authorised orc level)) ∧
      ∀ s'', Reaches (step orc) Always s' s'' → (∃ h, s''.handlings[i]? = some h ∧ h.Refused) →
        s'.store = s.store ∧ s'.overlord = s.overlord ∧ s'.shutdown = s.shutdown := by
  obtain ⟨h, hh, hs⟩ := Option.bind_eq_some_iff.mp hs
  obtain ⟨⟨s₁, h'⟩, hadv, hs⟩ := Option.bind_eq_some_iff.mp hs
  obtain rfl := Option.some.inj hs
  have hget : (s.handlings.set i h')[i]? = some h' := by
    rw [List.getElem?_set, if_pos rfl, if_pos (List.getElem?_eq_some_iff.mp hh).1]
  obtain rfl | ⟨e, todo, hphase, ok, hperf⟩ := h.eq_or_performs hadv
  · exact ⟨fun hne => absurd rfl hne, fun _ _ _ => ⟨rfl, rfl, rfl⟩⟩
  constructor
  · intro hne
    have hsound := sound_of_reaches h₀ hr i h hh
    rw [Handling.Sound, hphase] at hsound
    obtain ⟨level, hreq, hwrite⟩ := h.request.endpoint.write_le_required
      (hsound.1 (List.mem_cons_self)) (Effect.mutates_of_mutable_ne hperf hne)
    refine ⟨h, level, hh, hreq, hwrite, fun hb => ?_⟩
    -- Neither the bootstrap nor the level of those without an identity is left.
    rcases hsound.2 level hreq with hboot | hopen | hauth
    · exact absurd (hb.symm.trans hboot) (by decide)
    · exact absurd (hwrite.trans hopen) (by decide)
    · exact hauth
  · rintro s'' hr' ⟨g, hg, hrefused⟩
    -- A request that has got as far as an effect is not refused any more.
    have ha : h.Admitted := by rw [Handling.Admitted, hphase]; trivial
    obtain ⟨g', hg', ha'⟩ := admitted_of_reaches hr' ⟨h', hget, ha.advance hadv⟩
    obtain rfl := Option.some.inj (hg.symm.trans hg')
    exact absurd hrefused ha'.not_refused

/-- No credentials can be decoded, and no certificate is verified. -/
def noOracles : Oracles where
  decode _ := none
  sha512Check _ _ := false
  certs _ := none
  addRoot _ := false
  verifyClientCert _ _ _ := false

/-- A daemon with an identity for any local user. -/
def replanStart : Server where
  store := (default : IdentityStore).add "ops" { access := .write, «local» := some {} }

/-- A local user asks for a replan, up to the send of the command. -/
def replanLabels : List ServerLabel :=
  [.arrive ⟨{ connectInfo := some (some 1000) }, .replan, true⟩, .advance 0, .advance 0, .advance 0,
    .advance 0, .advance 0]

/-- The daemon before the send. -/
def replanServer : Server :=
  (runIf (step noOracles) Always replanStart replanLabels).getD replanStart

/-- The identity has let the request through when the command is sent. -/
theorem authorised_of_advance_replan :
    ∃ h level, replanServer.handlings[0]? = some h ∧
      h.request.endpoint.handler.required = some level ∧ .write ≤ level ∧
      (h.bootstrap = false → h.Authorised noOracles level) := by
  have hr : runIf (step noOracles) Always replanStart replanLabels = some replanServer := rfl
  exact (authorised_of_advance rfl (.of_runIf hr) rfl).1 fun h =>
    absurd (congrArg (fun m => m.2.1.length) h) (by decide)

end Server

end Vigil.Api
