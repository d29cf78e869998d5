import Mathlib.Data.Nat.Basic
import Mathlib.Order.Basic
import Mathlib.Order.Defs.LinearOrder
import Mathlib.Order.MinMax
import Mathlib.Tactic.Common
import Vigil.Lib.IndexMap

/-!
# The identity store

`IdentityStore` of `identity/mod.rs`: the identities under their names, and the three lookups by
which a request finds its access level. Each lookup takes the most permissive of the identities that
match, and its lemma (`exists_of_localAccess`, `exists_of_tlsAccess`, `exists_of_basicAccess`) names
an identity of the store that has the level and matches by the lookup's own method.

What the daemon takes from outside is gathered in `Oracles`: base64, the password check, and the
parts of the certificate check.
-/

namespace Vigil

/-- Access levels, from the least to the most privileged. -/
inductive IdentityAccess
  | «open»
  | metrics
  | read
  | write
  | admin
  deriving DecidableEq, Repr

namespace IdentityAccess

/-- The place of a level in the order of the declaration, which the derived `Ord` follows. -/
def rank : IdentityAccess → ℕ
  | .«open» => 0
  | .metrics => 1
  | .read => 2
  | .write => 3
  | .admin => 4

/-- Two access levels of one rank are the same. -/
theorem rank_injective : Function.Injective rank := by
  intro a b h
  cases a <;> cases b <;> first | rfl | exact absurd h (by decide)

instance : LinearOrder IdentityAccess := LinearOrder.lift' rank rank_injective

instance : Std.MaxEqOr IdentityAccess := ⟨max_choice⟩

end IdentityAccess

/-- Matches a connection over the Unix socket by the caller's UID. -/
structure LocalIdentity where
  /-- Any local user, if it is omitted. -/
  userId : Option UInt32 := none
  deriving DecidableEq

/-- Authenticates via HTTP Basic Auth. -/
structure BasicIdentity where
  passwordHash : String
  deriving DecidableEq

/-- Matches a TLS connection whose client certificate the CA has signed. -/
structure TlsIdentity where
  caCert : String
  deriving DecidableEq

/-- What is given for an identity that is added. -/
structure IdentitySpec where
  access : IdentityAccess
  «local» : Option LocalIdentity := none
  basic : Option BasicIdentity := none
  tls : Option TlsIdentity := none
  deriving DecidableEq

/-- A named principal. -/
structure Identity extends IdentitySpec where
  name : String
  deriving DecidableEq

/-- A certificate in DER. -/
abbrev CertificateDer := List UInt8

/-- What the authorisation takes from other crates. -/
structure Oracles where
  /-- `base64::STANDARD.decode`. -/
  decode : String → Option (List UInt8)
  /-- `sha_crypt::sha512_check` of a password against a hash. -/
  sha512Check : String → String → Bool
  /-- `rustls_pemfile::certs`. -/
  certs : String → Option (List CertificateDer)
  /-- `RootCertStore::add` accepts the certificate. -/
  addRoot : CertificateDer → Bool
  /-- The verifier for the roots can be built, and it accepts the certificate at the time. -/
  verifyClientCert : List CertificateDer → CertificateDer → ℕ → Bool

/-- `verify_cert_against_ca`, at the time `now`. -/
def verifyCertAgainstCa (orc : Oracles) (now : ℕ) (certDer : CertificateDer) (caPem : String) :
    Bool :=
  match orc.certs caPem with
  | none => false
  | some [] => false
  | some caDers =>
    if caDers.all orc.addRoot then orc.verifyClientCert caDers certDer now else false

/-- The identities, each under its own name. The order of a `HashMap` is not specified, and nothing
below depends on the one chosen here. -/
structure IdentityStore where
  inner : IndexMap String Identity := ∅
  /-- The key of an identity is its name. -/
  named : ∀ name id, inner.get? name = some id → id.name = name := by simp

namespace IdentityStore

instance : Inhabited IdentityStore := ⟨{}⟩

variable (orc : Oracles) (store : IdentityStore)

/-- The identities. -/
def values : List Identity := store.inner.entries.map Prod.snd

/-- There are no identities. -/
def isEmpty : Bool := store.inner.entries.isEmpty

/-- An identity that is found is one of the store's. -/
theorem mem_values_of_get? {name : String} {id : Identity} (h : store.inner.get? name = some id) :
    id ∈ store.values :=
  List.mem_map.mpr ⟨_, IndexMap.get?_eq_some_iff.mp h, rfl⟩

/-- The identities with one of the names, or all of them. -/
def list (names : List String) : List Identity :=
  store.values.filter fun id => names.isEmpty || names.contains id.name

/-- `IdentityStore::add`. -/
def add (name : String) (spec : IdentitySpec) : IdentityStore where
  inner := store.inner.insert name { spec with name }
  named key id h := by
    rw [IndexMap.get?_insert] at h
    split_ifs at h with hkey
    · exact hkey ▸ (Option.some.inj h ▸ rfl)
    · exact store.named key id h

/-- Remove one identity. -/
def removeOne (name : String) : IdentityStore where
  inner := store.inner.shiftRemove name
  named key id h := by
    rw [IndexMap.get?_shiftRemove] at h
    split_ifs at h
    exact store.named key id h

/-- `IdentityStore::remove`: the store, and the names that it has removed. -/
def remove (names : List String) : IdentityStore × List String :=
  names.foldl
    (fun acc name =>
      if acc.1.inner.contains name then (acc.1.removeOne name, acc.2 ++ [name]) else acc)
    (store, [])

/-- `IdentityStore::local_access`. -/
def localAccess (uid : UInt32) : Option IdentityAccess :=
  (store.values.filterMap fun id =>
    id.local.bind fun loc =>
      if loc.userId.isNone || decide (loc.userId = some uid) then some id.access else none).max?

/-- `IdentityStore::tls_access`, at the time `now`. -/
def tlsAccess (now : ℕ) (certDer : CertificateDer) : Option IdentityAccess :=
  (store.values.filterMap fun id =>
    id.tls.bind fun tls =>
      if verifyCertAgainstCa orc now certDer tls.caCert then some id.access else none).max?

/-- `IdentityStore::basic_access`. -/
def basicAccess (username password : String) : Option IdentityAccess :=
  (store.inner.get? username).bind fun identity =>
    identity.basic.bind fun basic =>
      if orc.sha512Check password basic.passwordHash then some identity.access else none

end IdentityStore

namespace Identity

variable (orc : Oracles) (id : Identity)

/-- The identity is for the Unix peer: any local user, or the one with the UID. -/
def MatchesLocal (uid : UInt32) : Prop :=
  ∃ loc, id.local = some loc ∧ (loc.userId = none ∨ loc.userId = some uid)

/-- The identity's CA verifies the certificate. -/
def MatchesTls (now : ℕ) (certDer : CertificateDer) : Prop :=
  ∃ tls, id.tls = some tls ∧ verifyCertAgainstCa orc now certDer tls.caCert = true

/-- The identity has the user's name, and the password matches its hash. -/
def MatchesBasic (username password : String) : Prop :=
  id.name = username ∧
    ∃ basic, id.basic = some basic ∧ orc.sha512Check password basic.passwordHash = true

end Identity

namespace IdentityStore

variable {orc : Oracles} {store : IdentityStore} {level : IdentityAccess}

/-- The level that a lookup by a method finds is the level of an identity that the method matches.
The method gives the level of the identities that it matches and nothing for the others. -/
theorem exists_of_max?_filterMap {method : Identity → Option IdentityAccess}
    (h : (store.values.filterMap method).max? = some level) :
    ∃ id ∈ store.values, method id = some level :=
  List.mem_filterMap.mp (List.max?_mem h)

/-- `local_access` returns the level of an identity that is for the peer. -/
theorem exists_of_localAccess {uid : UInt32} (h : store.localAccess uid = some level) :
    ∃ id ∈ store.values, id.access = level ∧ id.MatchesLocal uid := by
  obtain ⟨id, hid, hlevel⟩ := exists_of_max?_filterMap h
  obtain ⟨loc, hloc, hlevel⟩ := Option.bind_eq_some_iff.mp hlevel
  split_ifs at hlevel with huid
  refine ⟨id, hid, Option.some.inj hlevel, loc, hloc, ?_⟩
  simpa [Option.isNone_iff_eq_none] using huid

/-- `tls_access` returns the level of an identity whose CA verifies the certificate. -/
theorem exists_of_tlsAccess {now : ℕ} {certDer : CertificateDer}
    (h : store.tlsAccess orc now certDer = some level) :
    ∃ id ∈ store.values, id.access = level ∧ id.MatchesTls orc now certDer := by
  obtain ⟨id, hid, hlevel⟩ := exists_of_max?_filterMap h
  obtain ⟨tls, htls, hlevel⟩ := Option.bind_eq_some_iff.mp hlevel
  split_ifs at hlevel with hcert
  exact ⟨id, hid, Option.some.inj hlevel, tls, htls, hcert⟩

/-- `basic_access` returns the level of the identity with the user's name, if the password matches
its hash. -/
theorem exists_of_basicAccess {username password : String}
    (h : store.basicAccess orc username password = some level) :
    ∃ id ∈ store.values, id.access = level ∧ id.MatchesBasic orc username password := by
  obtain ⟨id, hid, h⟩ := Option.bind_eq_some_iff.mp h
  obtain ⟨basic, hbasic, h⟩ := Option.bind_eq_some_iff.mp h
  split_ifs at h with hpass
  exact ⟨id, store.mem_values_of_get? hid, Option.some.inj h, store.named _ _ hid, basic, hbasic,
    hpass⟩

end IdentityStore

end Vigil
