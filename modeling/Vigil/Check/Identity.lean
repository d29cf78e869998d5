import Vigil.Overlord.Checks
import Vigil.Process.Credentials

/-!
# The identity of an exec check

`probe_exec` of `check/probe/exec.rs`: the user and the group that the command of a check runs as,
from the settings of the check and those of the service in its context.

The two are put together field by field, and the name and the id are compared only afterwards. A
check that sets one of the two then has the other one from the service, and its probe fails unless
they agree. `overrides_iff` says that this is the only way in which the service's settings get into
those of a check that has its own.
-/

namespace Vigil

open Process

/-! ## A setting over another -/

section Pair

variable {lookup : String → Except IdentityError ℕ} {mismatch : String → ℕ → ℕ → IdentityError}
  {name name' : Option String} {id id' : Option ℕ}

/-- What a name or an id takes from the setting below it, if it is set alone, belongs to it. -/
structure Compatible (lookup : String → Except IdentityError ℕ) (name : Option String)
    (id : Option ℕ) (name' : Option String) (id' : Option ℕ) : Prop where
  ofName : ∀ n i m, name = some n → id = none → id' = some i → lookup n = .ok m → m = i
  ofId : ∀ i n, id = some i → name = none → name' = some n → lookup n = .ok i

/-- An id agrees with a name if the lookup of the name finds it. -/
theorem resolveId_both_eq_id_iff {n : String} {i : ℕ} :
    resolveId lookup mismatch (some n) (some i) = .ok (some i) ↔ lookup n = .ok i := by
  rw [resolveId_eq_some_iff]
  simp

/-- A name is resolved alike with an id if its lookup fails, or finds the id. -/
theorem resolveId_both_eq_name_iff {n : String} {i : ℕ} :
    resolveId lookup mismatch (some n) (some i) = resolveId lookup mismatch (some n) none ↔
      ∀ m, lookup n = .ok m → m = i := by
  cases hlookup : lookup n with
  | error e => simp [resolveId, hlookup, Except.map]
  | ok m =>
    by_cases h : m = i
    · simp [resolveId, hlookup, Except.map, h]
    · simp [resolveId, hlookup, Except.map, h]

/-- A name or an id that is set is resolved alike over another setting, if and only if what it takes
from there belongs to it. -/
theorem resolveId_or_eq_iff (hset : name.isSome ∨ id.isSome) :
    resolveId lookup mismatch (name.or name') (id.or id') = resolveId lookup mismatch name id ↔
      Compatible lookup name id name' id' := by
  cases name with
  | none =>
    cases id with
    | none => simp at hset
    | some i =>
      cases name' with
      | none => exact ⟨fun _ => ⟨by simp, by simp⟩, fun _ => rfl⟩
      | some n =>
        refine resolveId_both_eq_id_iff.trans ⟨fun h => ⟨by simp, ?_⟩, fun h => ?_⟩
        · intro i' n' hi _ hn
          obtain rfl := Option.some.inj hi
          obtain rfl := Option.some.inj hn
          exact h
        · exact h.ofId i n rfl rfl rfl
  | some n =>
    cases id with
    | some i => exact ⟨fun _ => ⟨by simp, by simp⟩, fun _ => rfl⟩
    | none =>
      cases id' with
      | none => exact ⟨fun _ => ⟨by simp, by simp⟩, fun _ => rfl⟩
      | some i =>
        refine resolveId_both_eq_name_iff.trans ⟨fun h => ⟨?_, by simp⟩, fun h m hm => ?_⟩
        · intro n' i' m hn _ hi hm
          obtain rfl := Option.some.inj hn
          obtain rfl := Option.some.inj hi
          exact h m hm
        · exact h.ofName n i m rfl rfl rfl hm

/-- If what is taken belongs to what is set, then the pair that is resolved is the one or the other
as a whole. -/
theorem resolveId_or_eq_if (h : name.isSome ∨ id.isSome → Compatible lookup name id name' id') :
    resolveId lookup mismatch (name.or name') (id.or id') =
      resolveId lookup mismatch (if name.isSome ∨ id.isSome then name else name')
        (if name.isSome ∨ id.isSome then id else id') := by
  by_cases hset : name.isSome ∨ id.isSome
  · rw [if_pos hset, if_pos hset]
    exact (resolveId_or_eq_iff hset).mpr (h hset)
  · rw [if_neg hset, if_neg hset]
    rw [not_or, Option.not_isSome_iff_eq_none, Option.not_isSome_iff_eq_none] at hset
    rw [hset.1, hset.2, Option.none_or, Option.none_or]

end Pair

/-! ## The settings of a probe -/

/-- The settings of a service's identity. -/
def ServiceConfig.identity (service : ServiceConfig) : IdentitySettings :=
  { user := service.user, userId := service.userId
    group := service.group, groupId := service.groupId }

namespace ExecCheck

variable (db : UserDb) (exec : ExecCheck) (services : IndexMap String ServiceConfig)

/-- The settings of the check's own identity. -/
def identity : IdentitySettings :=
  { user := exec.user, userId := exec.userId, group := exec.group, groupId := exec.groupId }

/-- The settings that the check inherits: those of the service in its context, if there is one. -/
def inherited : IdentitySettings :=
  ((exec.serviceContext.bind services.get?).map ServiceConfig.identity).getD {}

/-- The settings of the identity that the probe is run with. -/
def effective : IdentitySettings :=
  let st := exec.settings services
  { user := st.user, userId := st.userId, group := st.group, groupId := st.groupId }

/-- The check sets a user. -/
def SetsUser : Prop := exec.user.isSome ∨ exec.userId.isSome

/-- The check sets a group. -/
def SetsGroup : Prop := exec.group.isSome ∨ exec.groupId.isSome

instance : Decidable exec.SetsUser := inferInstanceAs (Decidable (_ ∨ _))

instance : Decidable exec.SetsGroup := inferInstanceAs (Decidable (_ ∨ _))

/-- The check's user where it sets one, and the service's where it does not. Likewise the group. -/
def overridden : IdentitySettings :=
  let service := exec.inherited services
  { user := if exec.SetsUser then exec.user else service.user
    userId := if exec.SetsUser then exec.userId else service.userId
    group := if exec.SetsGroup then exec.group else service.group
    groupId := if exec.SetsGroup then exec.groupId else service.groupId }

/-- The check's own identity overrides its service context. -/
structure Overrides : Prop where
  /-- A check with a user of its own runs as that user. Whether this fails does not depend on the
  service. -/
  user : exec.SetsUser →
    resolveUid db (exec.effective services).user (exec.effective services).userId =
      resolveUid db exec.user exec.userId
  group : exec.SetsGroup →
    resolveGid db (exec.effective services).group (exec.effective services).groupId =
      resolveGid db exec.group exec.groupId
  /-- The service's settings are used only where the check has none, for the whole identity. -/
  credentials : ∀ euid, resolveCredentials db euid (exec.effective services) =
    resolveCredentials db euid (exec.overridden services)

/-- What the check inherits for a name or an id that it sets alone belongs to it. -/
structure Agrees : Prop where
  user : exec.SetsUser → Compatible (lookupUid db) exec.user exec.userId
    (exec.inherited services).user (exec.inherited services).userId
  group : exec.SetsGroup → Compatible (lookupGid db) exec.group exec.groupId
    (exec.inherited services).group (exec.inherited services).groupId

variable {db exec services}

/-- The settings are put together field by field. -/
theorem effective_eq : exec.effective services =
    { user := exec.user.or (exec.inherited services).user
      userId := exec.userId.or (exec.inherited services).userId
      group := exec.group.or (exec.inherited services).group
      groupId := exec.groupId.or (exec.inherited services).groupId } := by
  unfold effective settings inherited
  cases exec.serviceContext.bind services.get? <;> rfl

/-- The credentials depend on the settings by the two ids that are resolved from them. -/
theorem resolveCredentials_congr {st st' : IdentitySettings}
    (huid : resolveUid db st.user st.userId = resolveUid db st'.user st'.userId)
    (hgid : resolveGid db st.group st.groupId = resolveGid db st'.group st'.groupId) (euid : ℕ) :
    resolveCredentials db euid st = resolveCredentials db euid st' := by
  unfold resolveCredentials
  rw [huid, hgid]

/-- The probe runs as the check's own user if and only if the service's settings agree with it. -/
theorem resolveUid_effective_iff (hset : exec.SetsUser) :
    resolveUid db (exec.effective services).user (exec.effective services).userId =
        resolveUid db exec.user exec.userId ↔
      Compatible (lookupUid db) exec.user exec.userId
        (exec.inherited services).user (exec.inherited services).userId := by
  rw [effective_eq]
  exact resolveId_or_eq_iff hset

/-- If the check sets a group, the group that is resolved of the merged settings is the check's own
one if and only if the two are compatible. -/
theorem resolveGid_effective_iff (hset : exec.SetsGroup) :
    resolveGid db (exec.effective services).group (exec.effective services).groupId =
        resolveGid db exec.group exec.groupId ↔
      Compatible (lookupGid db) exec.group exec.groupId
        (exec.inherited services).group (exec.inherited services).groupId := by
  rw [effective_eq]
  exact resolveId_or_eq_iff hset

/-- A check's own identity overrides its service context if and only if the service's settings agree
with those that the check sets alone. -/
theorem overrides_iff : exec.Overrides db services ↔ exec.Agrees db services := by
  constructor
  · intro h
    exact ⟨fun hset => (resolveUid_effective_iff hset).mp (h.user hset),
      fun hset => (resolveGid_effective_iff hset).mp (h.group hset)⟩
  · intro h
    refine ⟨fun hset => (resolveUid_effective_iff hset).mpr (h.user hset),
      fun hset => (resolveGid_effective_iff hset).mpr (h.group hset), fun euid => ?_⟩
    -- Where the check sets neither a name nor an id, both have what is inherited.
    refine resolveCredentials_congr ?_ ?_ euid
    · rw [effective_eq]
      exact resolveId_or_eq_if h.user
    · rw [effective_eq]
      exact resolveId_or_eq_if h.group

/-! ## A check in the context of a service with an id -/

/-- A database with the account `postgres`. -/
def postgres : UserDb where
  getpwnam name := if name = "postgres" then .ok (some ⟨"postgres", 70, 70⟩) else .ok none
  getpwuid uid := if uid = 70 then .ok (some ⟨"postgres", 70, 70⟩) else .ok none
  getgrnam _ := .ok none
  getgrouplist _ gid := .ok [gid]
  mem_getgrouplist := mem_own_group

/-- A check with `user: postgres` in the context of a service. -/
def pgIsReady : ExecCheck :=
  { command := "pg_isready", serviceContext := some "app", user := some "postgres" }

/-- A service with a `user-id`. -/
def appService : IndexMap String ServiceConfig :=
  (∅ : IndexMap String ServiceConfig).insert "app" { userId := some 1000 }

/-- The probe fails for ever, for the service's id is not that of `postgres`. -/
theorem not_overrides_mixed :
    pgIsReady.SetsUser ∧ resolveUid postgres pgIsReady.user pgIsReady.userId = .ok (some 70) ∧
      (∀ euid, resolveCredentials postgres euid (pgIsReady.effective appService) =
        .error (.userMismatch "postgres" 70 1000)) ∧
      ¬pgIsReady.Overrides postgres appService := by
  have hfails : resolveUid postgres (pgIsReady.effective appService).user
      (pgIsReady.effective appService).userId = .error (.userMismatch "postgres" 70 1000) := rfl
  refine ⟨.inl rfl, rfl, fun euid => ?_, fun h => ?_⟩
  · unfold resolveCredentials
    rw [hfails]
    rfl
  · have huser := hfails.symm.trans (h.user (.inl rfl))
    cases huser

end ExecCheck

end Vigil
