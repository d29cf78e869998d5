import Vigil.Api.Handlers

/-!
# Who can change the identities

The identities are changed through the API alone, by callers with the level `admin`, and the daemon
keeps them in memory until it exits. `administrable_iff` says when that is still possible: some
request changes them if and only if there are none yet or there is a request that the lookups bring
to `admin`. An operator who adds identities of lower levels first is locked out for good
(`locked_out`).
-/

namespace Vigil

/-- The level that the lookups bring a request to, from this one on, in a store that stays as it
is. -/
def Lookup.resolve (orc : Oracles) (now : ℕ) (store : IdentityStore) (parts : Parts) :
    Lookup → IdentityAccess
  | .basic => (attempt orc now store parts .basic).getD
      ((attempt orc now store parts .tls).getD ((attempt orc now store parts .peer).getD .open))
  | .tls => (attempt orc now store parts .tls).getD
      ((attempt orc now store parts .peer).getD .open)
  | .peer => (attempt orc now store parts .peer).getD .open

/-- The level of a caller: `from_request_parts` in a store that stays as it is. -/
def IdentityStore.accessOf (orc : Oracles) (now : ℕ) (store : IdentityStore) (parts : Parts) :
    IdentityAccess :=
  if store.isEmpty then .admin else Lookup.basic.resolve orc now store parts

namespace Lookup

variable {orc : Oracles} {now now' : ℕ} {store : IdentityStore} {parts : Parts} {lookup : Lookup}

/-- A lookup that finds something settles the level. -/
theorem resolve_of_some {level : IdentityAccess}
    (h : lookup.attempt orc now store parts = some level) :
    lookup.resolve orc now store parts = level := by
  cases lookup <;> rw [resolve, h, Option.getD_some]

/-- A lookup that finds nothing leaves it to the next one. -/
theorem resolve_of_next {next : Lookup} (h : lookup.attempt orc now store parts = none)
    (hnext : lookup.next = some next) :
    lookup.resolve orc now store parts = next.resolve orc now store parts := by
  cases lookup with
  | basic | tls =>
    obtain rfl := Option.some.inj hnext
    rw [resolve, h, Option.getD_none, resolve]
  | peer => cases hnext

/-- The last lookup, if it finds nothing. -/
theorem resolve_of_none (h : lookup.attempt orc now store parts = none)
    (hnext : lookup.next = none) : lookup.resolve orc now store parts = .open := by
  cases lookup with
  | basic | tls => cases hnext
  | peer => rw [resolve, h, Option.getD_none]

/-- The time matters for certificates only, so that what follows a lookup that finds nothing could
have followed at any other time. -/
theorem resolve_next {next : Lookup} (h : lookup.attempt orc now store parts = none)
    (hnext : lookup.next = some next) : next.resolve orc now' store parts =
      lookup.resolve orc now' store parts ∨
        next.resolve orc now' store parts = lookup.resolve orc now store parts := by
  cases lookup with
  | basic =>
    obtain rfl := Option.some.inj hnext
    have h' : attempt orc now' store parts .basic = none := h
    exact .inl (resolve_of_next h' rfl).symm
  | tls =>
    obtain rfl := Option.some.inj hnext
    exact .inr (resolve_of_next h rfl).symm
  | peer => cases hnext

end Lookup

/-- A caller comes to `admin` only if there are no identities, or one of them has that level. -/
theorem exists_admin_of_accessOf {orc : Oracles} {now : ℕ} {store : IdentityStore} {parts : Parts}
    (h : store.accessOf orc now parts = .admin) :
    store.isEmpty = true ∨ ∃ id ∈ store.values, id.access = .admin := by
  by_cases hempty : store.isEmpty = true
  · exact .inl hempty
  · refine .inr ?_
    rw [IdentityStore.accessOf, if_neg hempty, Lookup.resolve] at h
    have hfound {lookup : Lookup} {level : IdentityAccess}
        (hlookup : lookup.attempt orc now store parts = some level) (hlevel : level = .admin) :
        ∃ id ∈ store.values, id.access = .admin := by
      obtain ⟨id, hid, hid', -⟩ := Lookup.exists_of_attempt hlookup
      exact ⟨id, hid, hid'.trans hlevel⟩
    cases hbasic : Lookup.basic.attempt orc now store parts with
    | some level => exact hfound hbasic (by rwa [hbasic] at h)
    | none =>
      rw [hbasic, Option.getD_none] at h
      cases htls : Lookup.tls.attempt orc now store parts with
      | some level => exact hfound htls (by rwa [htls] at h)
      | none =>
        rw [htls, Option.getD_none] at h
        cases hpeer : Lookup.peer.attempt orc now store parts with
        | some level => exact hfound hpeer (by rwa [hpeer] at h)
        | none => rw [hpeer] at h; cases h

namespace Api

open Runs

/-- The effect is one on the identities. -/
def Effect.OnIdentities : Effect → Prop
  | .addIdentity _ _ | .removeIdentities _ => True
  | _ => False

/-- The other effects leave the identities as they are. -/
theorem Effect.store_of_perform {s s' : Server} {e : Effect} {ok : Bool}
    (he : ¬e.OnIdentities) (hp : e.perform s = some (s', ok)) : s'.store = s.store ∧
      s'.now = s.now := by
  cases e with
  | addIdentity | removeIdentities => exact absurd trivial he
  | overlord | shutdown =>
    simp only [perform] at hp
    split at hp <;> cases hp <;> exact ⟨rfl, rfl⟩

/-- The endpoints that change the identities require `admin`. -/
theorem Endpoint.required_of_onIdentities {ep : Endpoint} {e : Effect}
    (he : e ∈ ep.handler.effects) (hon : e.OnIdentities) : ep.handler.required = some .admin := by
  cases ep with
  | addIdentities | removeIdentities => rfl
  | getMetrics | getLogs | followLogs | listIdentities => exact absurd he List.not_mem_nil
  | _ =>
    obtain rfl := List.mem_singleton.mp he
    exact hon.elim

/-- The request does not get to change the identities, from the time on, while they stay as they
are. -/
def Handling.Powerless (orc : Oracles) (now : ℕ) (store : IdentityStore) (h : Handling) : Prop :=
  match h.phase with
  | .caller | .finished _ => True
  | .resolving lookup =>
    ∀ now', now ≤ now' → lookup.resolve orc now' store h.request.parts ≠ .admin
  | .called access => access ≠ .admin
  | .acting todo => ∀ e ∈ todo, ¬e.OnIdentities

namespace Handling

variable {orc : Oracles} {now : ℕ} {s s' : Server} {h h' : Handling}

/-- A request that arrives is powerless, whatever the store. -/
theorem powerless_start (store : IdentityStore) (r : Request) :
    r.start.Powerless orc now store := by
  unfold Powerless Request.start
  cases hreq : r.endpoint.handler.required with
  | some level => trivial
  | none =>
    intro e he hon
    exact absurd (hreq.symm.trans (Endpoint.required_of_onIdentities he hon)) (by simp)

/-- A request whose caller is below `admin` is powerless when it enters its handler. -/
theorem powerless_enter {store : IdentityStore} {access : IdentityAccess} (ha : access ≠ .admin) :
    (h.enter access).Powerless orc now store := by
  unfold enter
  split_ifs
  · split
    · next needed hreq =>
      split_ifs with hle
      · intro e he hon
        have hadmin := Endpoint.required_of_onIdentities he hon
        obtain rfl : needed = .admin := Option.some.inj (hreq.symm.trans hadmin)
        cases access <;> first | exact ha rfl | exact absurd hle (by decide)
      · trivial
    · next hreq =>
      intro e he hon
      exact absurd (hreq.symm.trans (Endpoint.required_of_onIdentities he hon)) (by simp)
  · trivial

/-- The next action of a request, where no request comes to `admin`. -/
theorem Powerless.advance (hp : h.Powerless orc now s.store) (hnow : now ≤ s.now)
    (hnone : ∀ now' parts, now ≤ now' → s.store.accessOf orc now' parts ≠ .admin)
    (hadv : h.advance orc s = some (s', h')) : h'.Powerless orc now s.store ∧
      s'.store = s.store ∧ s'.now = s.now := by
  have hstore : ¬s.store.isEmpty = true := fun hempty =>
    hnone now h.request.parts le_rfl (if_pos hempty)
  unfold Handling.advance at hadv
  unfold Powerless at hp
  split at hadv
  · rw [if_neg hstore] at hadv
    cases hadv
    refine ⟨fun now' hle => ?_, rfl, rfl⟩
    have haccess := hnone now' h.request.parts hle
    rwa [IdentityStore.accessOf, if_neg hstore] at haccess
  · next lookup hphase =>
    rw [hphase] at hp
    split at hadv
    · next level hlevel =>
      cases hadv
      refine ⟨?_, rfl, rfl⟩
      show level ≠ .admin
      exact Lookup.resolve_of_some hlevel ▸ hp s.now hnow
    · next next hlookup hnext =>
      cases hadv
      refine ⟨fun now' hle => ?_, rfl, rfl⟩
      show next.resolve orc now' s.store h.request.parts ≠ .admin
      rcases Lookup.resolve_next hlookup hnext with heq | heq
      · exact heq ▸ hp now' hle
      · exact heq ▸ hp s.now hnow
    · cases hadv
      exact ⟨show IdentityAccess.open ≠ .admin by decide, rfl, rfl⟩
  · next access hphase =>
    cases hadv
    rw [hphase] at hp
    exact ⟨powerless_enter hp, rfl, rfl⟩
  · cases hadv
    exact ⟨trivial, rfl, rfl⟩
  · next e todo hphase =>
    obtain ⟨⟨s₁, ok⟩, hperf, hadv⟩ := Option.map_eq_some_iff.mp hadv
    cases hadv
    rw [hphase] at hp
    refine ⟨?_, Effect.store_of_perform (hp e List.mem_cons_self) hperf⟩
    cases ok
    · trivial
    · exact fun e' he' => hp e' (List.mem_cons_of_mem _ he')
  · cases hadv

end Handling

namespace Server

variable {orc : Oracles} {s s' : Server}

/-- While no request comes to `admin` and none that is served is on its way to change them, the
identities stay as they are. -/
theorem store_of_powerless
    (hnone : ∀ now parts, s.now ≤ now → s.store.accessOf orc now parts ≠ .admin)
    (hpowerless : ∀ h ∈ s.handlings, h.Powerless orc s.now s.store)
    (hr : Reaches (step orc) Always s s') : s'.store = s.store := by
  refine (hr.invariant (P := fun s' => s'.store = s.store ∧ s.now ≤ s'.now ∧
    ∀ h ∈ s'.handlings, h.Powerless orc s.now s.store) ⟨rfl, le_rfl, hpowerless⟩ ?_).1
  rintro t l t' - ⟨hstore, hnow, hall⟩ - hs
  cases l with
  | arrive r =>
    obtain rfl := Option.some.inj hs
    refine ⟨hstore, hnow, fun h hh => ?_⟩
    rcases List.mem_append.mp hh with hh | hh
    · exact hall h hh
    · exact List.mem_singleton.mp hh ▸ Handling.powerless_start _ r
  | advance i =>
    obtain ⟨h, hh, hs⟩ := Option.bind_eq_some_iff.mp hs
    obtain ⟨⟨t₁, h'⟩, hadv, hs⟩ := Option.bind_eq_some_iff.mp hs
    obtain rfl := Option.some.inj hs
    obtain ⟨hp, hstore', hnow'⟩ := (hstore ▸ hall h (List.mem_of_getElem? hh)).advance hnow
      (hstore ▸ hnone) hadv
    refine ⟨hstore'.trans hstore, hnow'.symm ▸ hnow, fun g hg => ?_⟩
    rcases List.mem_or_eq_of_mem_set hg with hg | rfl
    · exact hall g hg
    · exact hstore ▸ hp
  | drop i =>
    obtain ⟨h, hh, hs⟩ := Option.bind_eq_some_iff.mp hs
    obtain rfl := Option.some.inj hs
    refine ⟨hstore, hnow, fun g hg => ?_⟩
    rcases List.mem_or_eq_of_mem_set hg with hg | rfl
    · exact hall g hg
    · trivial
  | tick =>
    obtain rfl := Option.some.inj hs
    exact ⟨hstore, hnow.trans (Nat.le_succ _), hall⟩
  | rest overlord shutdown =>
    obtain rfl := Option.some.inj hs
    exact ⟨hstore, hnow, hall⟩

/-- The state with another request in a place. -/
def put (s : Server) (i : ℕ) (h : Handling) : Server :=
  { s with handlings := s.handlings.set i h }

/-- A request takes its next action, which does nothing else. -/
theorem reaches_put {i : ℕ} {h h' : Handling} (hi : i < s.handlings.length)
    (hadv : h.advance orc (s.put i h) = some (s.put i h, h')) :
    Reaches (step orc) Always (s.put i h) (s.put i h') := by
  have hget : (s.put i h).handlings[i]? = some h := List.getElem?_set_self hi
  refine .single (l := .advance i) trivial ?_
  rw [step, hget, Option.bind_eq_bind, Option.bind_some, hadv]
  simp [put]

/-- The request gets to `admin` by itself. -/
def GetsAdmin (orc : Oracles) (s : Server) (i : ℕ) (h : Handling) : Prop :=
  ∃ h', h'.request = h.request ∧ h'.phase = .called .admin ∧
    Reaches (step orc) Always (s.put i h) (s.put i h')

/-- A request gets to `admin` if its lookup gives that and the lookups that follow get it there. -/
theorem getsAdmin_of_next {i : ℕ} (hi : i < s.handlings.length) {h : Handling} {lookup : Lookup}
    (hphase : h.phase = .resolving lookup)
    (hadmin : lookup.resolve orc s.now s.store h.request.parts = .admin)
    (hnext : ∀ next h', lookup.next = some next → h'.phase = .resolving next →
      h'.request = h.request → next.resolve orc s.now s.store h.request.parts = .admin →
        GetsAdmin orc s i h') : GetsAdmin orc s i h := by
  have hnow : (s.put i h).now = s.now := rfl
  have hstore : (s.put i h).store = s.store := rfl
  cases hlookup : lookup.attempt orc s.now s.store h.request.parts with
  | some level =>
    obtain rfl : level = .admin := (Lookup.resolve_of_some hlookup).symm.trans hadmin
    have hadv : h.advance orc (s.put i h) = some (s.put i h,
        { h with phase := .called .admin, resolved := some (s.now, s.store) }) := by
      simp only [Handling.advance, hphase, hnow, hstore, hlookup]
    exact ⟨{ h with phase := .called .admin, resolved := some (s.now, s.store) }, rfl, rfl,
      reaches_put hi hadv⟩
  | none =>
    cases hn : lookup.next with
    | none => rw [Lookup.resolve_of_none hlookup hn] at hadmin; cases hadmin
    | some next =>
      have hadv : h.advance orc (s.put i h) =
          some (s.put i h, { h with phase := .resolving next }) := by
        simp only [Handling.advance, hphase, hnow, hstore, hlookup, hn]
      obtain ⟨h', hrequest, hcalled, hr⟩ := hnext next { h with phase := .resolving next } hn rfl
        rfl ((Lookup.resolve_of_next hlookup hn).symm.trans hadmin)
      exact ⟨h', hrequest, hcalled, (reaches_put hi hadv).trans hr⟩

/-- A request that the lookups bring to `admin` gets there. -/
theorem getsAdmin_of_resolve {i : ℕ} (hi : i < s.handlings.length) {h : Handling} {lookup : Lookup}
    (hphase : h.phase = .resolving lookup)
    (hadmin : lookup.resolve orc s.now s.store h.request.parts = .admin) :
    GetsAdmin orc s i h := by
  -- From the last lookup to the first.
  have hpeer (h : Handling) (hphase : h.phase = .resolving .peer)
      (hadmin : Lookup.peer.resolve orc s.now s.store h.request.parts = .admin) :
      GetsAdmin orc s i h :=
    getsAdmin_of_next hi hphase hadmin fun next h' hn => by cases hn
  have htls (h : Handling) (hphase : h.phase = .resolving .tls)
      (hadmin : Lookup.tls.resolve orc s.now s.store h.request.parts = .admin) :
      GetsAdmin orc s i h :=
    getsAdmin_of_next hi hphase hadmin fun next h' hn hphase' hrequest hadmin' => by
      cases hn
      exact hpeer h' hphase' (hrequest.symm ▸ hadmin')
  cases lookup with
  | basic =>
    refine getsAdmin_of_next hi hphase hadmin fun next h' hn hphase' hrequest hadmin' => ?_
    cases hn
    exact htls h' hphase' (hrequest.symm ▸ hadmin')
  | tls => exact htls h hphase hadmin
  | peer => exact hpeer h hphase hadmin

/-- Each later time is reached by letting the time pass. -/
theorem reaches_now {now : ℕ} (h : s.now ≤ now) :
    Reaches (step orc) Always s { s with now } := by
  induction now, h using Nat.le_induction with
  | base => exact .refl
  | succ now _ ih => exact ih.tail (l := .tick) trivial rfl

/-- A request that comes to `admin` and adds an identity. -/
theorem reaches_add {parts : Parts} (hadmin : s.store.accessOf orc s.now parts = .admin)
    (name : String) (spec : IdentitySpec) :
    ∃ s', Reaches (step orc) Always s s' ∧ s'.store = s.store.add name spec := by
  let r : Request := ⟨parts, .addIdentities ((∅ : IndexMap String IdentitySpec).insert name spec),
    true⟩
  let i := s.handlings.length
  let s₁ : Server := { s with handlings := s.handlings ++ [r.start] }
  have hi : i < s₁.handlings.length := by simp [s₁, i]
  have harrive : Reaches (step orc) Always s (s₁.put i r.start) := by
    refine .single (l := .arrive r) trivial ?_
    simp [step, put, s₁, i]
  -- The caller is settled.
  have hcalled : GetsAdmin orc s₁ i r.start := by
    by_cases hempty : s.store.isEmpty = true
    · refine ⟨{ r.start with phase := .called .admin, bootstrap := true }, rfl, rfl,
        reaches_put hi ?_⟩
      exact if_pos hempty
    · rw [IdentityStore.accessOf, if_neg hempty] at hadmin
      have hadv : r.start.advance orc (s₁.put i r.start) =
          some (s₁.put i r.start, { r.start with phase := .resolving .basic }) := if_neg hempty
      obtain ⟨h', hrequest, hphase, hr⟩ := getsAdmin_of_resolve (s := s₁) hi
        (h := { r.start with phase := .resolving .basic }) rfl hadmin
      exact ⟨h', hrequest, hphase, (reaches_put hi hadv).trans hr⟩
  obtain ⟨⟨_, _, bootstrap, resolved⟩, rfl, rfl, hr⟩ := hcalled
  let h : Handling := ⟨r, .called .admin, bootstrap, resolved⟩
  -- The handler begins, and adds the identity.
  let h₂ : Handling := { h with phase := .acting [.addIdentity name spec] }
  have henter : h.advance orc (s₁.put i h) = some (s₁.put i h, h₂) := rfl
  have hget : (s₁.put i h₂).handlings[i]? = some h₂ := List.getElem?_set_self hi
  have hadd : step orc (s₁.put i h₂) (.advance i) = some { s₁.put i h₂ with
      store := s.store.add name spec
      handlings := (s₁.put i h₂).handlings.set i { h₂ with phase := .acting [] } } := by
    rw [step, hget]
    rfl
  exact ⟨_, ((harrive.trans hr).trans (reaches_put hi henter)).tail trivial hadd, rfl⟩

/-- From a state in which no request is served, some run changes the identities if and only if there
are none or there is a request that the lookups bring to `admin`, now or later. -/
theorem administrable_iff (hidle : ∀ h ∈ s.handlings, ∃ outcome, h.phase = .finished outcome) :
    (∃ s', Reaches (step orc) Always s s' ∧ s'.store ≠ s.store) ↔
      ∃ now parts, s.now ≤ now ∧ s.store.accessOf orc now parts = .admin := by
  constructor
  · rintro ⟨s', hr, hne⟩
    by_contra hnone
    push Not at hnone
    refine hne (store_of_powerless hnone (fun h hh => ?_) hr)
    obtain ⟨outcome, hphase⟩ := hidle h hh
    rw [Handling.Powerless, hphase]
    trivial
  · rintro ⟨now, parts, hnow, hadmin⟩
    -- Of two ways to add an identity of some name one changes the identities.
    have hchanges : ∃ spec : IdentitySpec, s.store.add "" spec ≠ s.store := by
      by_contra hsame
      push Not at hsame
      have hget (spec : IdentitySpec) : s.store.inner.get? "" = some { spec with name := "" } := by
        have hadd : (s.store.add "" spec).inner.get? "" = some { spec with name := "" } := by
          rw [IdentityStore.add, IndexMap.get?_insert, if_pos rfl]
        rwa [hsame spec] at hadd
      have hspecs := (hget { access := .read }).symm.trans (hget { access := .write })
      cases hspecs
    obtain ⟨spec, hne⟩ := hchanges
    obtain ⟨s', hr, hstore⟩ := reaches_add (s := { s with now }) hadmin "" spec
    exact ⟨s', (reaches_now hnow).trans hr, hstore ▸ hne⟩

/-- The first request adds an identity that may only read. -/
def lockoutLabels : List ServerLabel :=
  [.arrive ⟨{}, .addIdentities ((∅ : IndexMap String IdentitySpec).insert "ops"
      { access := .read, «local» := some {} }), true⟩,
    .advance 0, .advance 0, .advance 0, .advance 0]

/-- An operator who adds an identity that may only read before any other is locked out for good. -/
theorem locked_out : ∃ s, Reaches (step noOracles) Always {} s ∧
    s.store.values.map (fun id => id.access) = [.read] ∧
      ¬∃ s', Reaches (step noOracles) Always s s' ∧ s'.store ≠ s.store := by
  have hrun : (runIf (step noOracles) Always {} lockoutLabels).isSome = true := rfl
  have hr := Reaches.getD_runIf (d := {}) hrun
  refine ⟨_, hr, rfl, fun h => ?_⟩
  obtain ⟨now, parts, -, hadmin⟩ := (administrable_iff fun h hh => by
    obtain rfl := List.mem_singleton.mp hh
    exact ⟨.answered, rfl⟩).mp h
  rcases exists_admin_of_accessOf hadmin with hempty | ⟨id, hid, hid'⟩
  · cases hempty
  · obtain rfl := List.mem_singleton.mp hid
    cases hid'

end Server

end Api

end Vigil
