import Vigil.Identity.Store
import Vigil.Lib.Text
import Vigil.Logs.Reader

/-!
# Access resolution

`resolve_access` of `api/auth/mod.rs`. A request is looked up by its Basic credentials, by its TLS
client certificate, and by its Unix peer, in this order, and the first lookup that finds an identity
settles its level. A header that is not of the form that `CarriesBasic` spells out gives no
credentials, and its lookup finds nothing.

`exists_of_attempt` is the soundness of all three: the level that a lookup finds is that of an
identity in the store that matches the request by its own method.
-/

namespace Vigil

/-- What the authorisation reads of a request. -/
structure Parts where
  /-- The value of the `Authorization` header. -/
  authorization : Option (List UInt8) := none
  /-- `TlsPeerCert`, which the TLS listener sets if the client presents a certificate. -/
  tlsPeerCert : Option CertificateDer := none
  /-- `ConnectInfo<UnixPeerInfo>`, which the Unix listener sets, with the UID if it can be found
  out. -/
  connectInfo : Option (Option UInt32) := none
  deriving DecidableEq

/-- `HeaderValue::to_str`: the value is text if its bytes are visible ASCII characters and tabs. -/
def toStr (value : List UInt8) : Option (List Char) :=
  if value.all fun b => (32 ≤ b && b < 127) || b = 9 then
    some (value.map fun b => Char.ofNat b.toNat)
  else none

/-- The user and the password of an `Authorization` header, if it has the form. -/
def basicCredentials (orc : Oracles) (authHdr : List UInt8) : Option (String × String) := do
  let authStr ← toStr authHdr
  let encoded ← authStr.dropPrefix? "Basic ".toList
  let decoded ← orc.decode (String.ofList (Text.trim encoded))
  let cred ← decodeUtf8 decoded
  let (user, pass) ← Text.splitOnce ':' cred.toList
  return (String.ofList user, String.ofList pass)

/-- The request carries the Basic credentials: the header is `Basic ` and the encoding of the user,
a colon, and the password, and there is no colon in the user. -/
def Parts.CarriesBasic (orc : Oracles) (parts : Parts) (user pass : String) : Prop :=
  ∃ authHdr encoded decoded, parts.authorization = some authHdr ∧
    toStr authHdr = some ("Basic ".toList ++ encoded) ∧
    orc.decode (String.ofList (Text.trim encoded)) = some decoded ∧
    decodeUtf8 decoded = some (user ++ ":" ++ pass) ∧ ':' ∉ user.toList

/-- The credentials that are read from the header are those that it carries. -/
theorem carriesBasic_of_basicCredentials {orc : Oracles} {parts : Parts} {authHdr : List UInt8}
    {user pass : String} (hparts : parts.authorization = some authHdr)
    (h : basicCredentials orc authHdr = some (user, pass)) : parts.CarriesBasic orc user pass := by
  unfold basicCredentials at h
  simp only [Option.bind_eq_bind, Option.bind_eq_some_iff, Option.pure_def, Option.some.injEq,
    Prod.exists, Prod.mk.injEq] at h
  obtain ⟨authStr, hstr, encoded, hencoded, decoded, hdecoded, cred, hcred, u, p, hsplit, hu, hp⟩ :=
    h
  obtain ⟨pre, hpre, hbasic⟩ := List.dropPrefix?_eq_some_iff.mp hencoded
  rw [eq_of_beq hbasic] at hpre
  obtain ⟨hcat, hcolon⟩ := Text.splitOnce_eq_some_iff.mp hsplit
  refine ⟨authHdr, encoded, decoded, hparts, by rw [hstr, hpre], hdecoded, ?_, ?_⟩
  · rw [hcred, ← hu, ← hp]
    congr 1
    apply String.toList_injective
    simp [hcat]
  · rw [← hu, String.toList_ofList]
    exact hcolon

/-- The identity matches the request at the time `now`, by the credentials, the certificate, or the
peer that the request has. -/
def Identity.Matches (orc : Oracles) (now : ℕ) (parts : Parts) (id : Identity) : Prop :=
  (∃ user pass, parts.CarriesBasic orc user pass ∧ id.MatchesBasic orc user pass) ∨
    (∃ cert, parts.tlsPeerCert = some cert ∧ id.MatchesTls orc now cert) ∨
    ∃ uid, parts.connectInfo = some (some uid) ∧ id.MatchesLocal uid

/-- The lookups of `resolve_access`. -/
inductive Lookup
  | basic
  | tls
  | peer
  deriving DecidableEq, Repr

namespace Lookup

/-- The lookup that follows if this one finds nothing. -/
def next : Lookup → Option Lookup
  | .basic => some .tls
  | .tls => some .peer
  | .peer => none

/-- What a lookup finds in the store. -/
def attempt (orc : Oracles) (now : ℕ) (store : IdentityStore) (parts : Parts) :
    Lookup → Option IdentityAccess
  | .basic => do
    let authHdr ← parts.authorization
    let (user, pass) ← basicCredentials orc authHdr
    store.basicAccess orc user pass
  | .tls => do
    let certDer ← parts.tlsPeerCert
    store.tlsAccess orc now certDer
  | .peer => do
    let peer ← parts.connectInfo
    let uid ← peer
    store.localAccess uid

/-- The level that a lookup finds is that of an identity in the store that matches the request. -/
theorem exists_of_attempt {orc : Oracles} {now : ℕ} {store : IdentityStore} {parts : Parts}
    {lookup : Lookup} {level : IdentityAccess}
    (h : lookup.attempt orc now store parts = some level) :
    ∃ id ∈ store.values, id.access = level ∧ id.Matches orc now parts := by
  cases lookup with
  | basic =>
    obtain ⟨authHdr, hparts, h⟩ := Option.bind_eq_some_iff.mp h
    obtain ⟨⟨user, pass⟩, hcred, h⟩ := Option.bind_eq_some_iff.mp h
    obtain ⟨id, hid, hlevel, hmatch⟩ := IdentityStore.exists_of_basicAccess h
    exact ⟨id, hid, hlevel,
      .inl ⟨user, pass, carriesBasic_of_basicCredentials hparts hcred, hmatch⟩⟩
  | tls =>
    obtain ⟨certDer, hparts, h⟩ := Option.bind_eq_some_iff.mp h
    obtain ⟨id, hid, hlevel, hmatch⟩ := IdentityStore.exists_of_tlsAccess h
    exact ⟨id, hid, hlevel, .inr (.inl ⟨certDer, hparts, hmatch⟩)⟩
  | peer =>
    obtain ⟨peer, hparts, h⟩ := Option.bind_eq_some_iff.mp h
    obtain ⟨uid, rfl, h⟩ := Option.bind_eq_some_iff.mp h
    obtain ⟨id, hid, hlevel, hmatch⟩ := IdentityStore.exists_of_localAccess h
    exact ⟨id, hid, hlevel, .inr (.inr ⟨uid, hparts, hmatch⟩)⟩

end Lookup

end Vigil
