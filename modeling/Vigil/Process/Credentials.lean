import Mathlib.Data.Nat.Notation
import Mathlib.Tactic.Common

/-!
# Credentials

`process_util/identity.rs`: the identity that a child process is to run with, resolved from the
settings of a service or a check and the user and group databases, and the hook that takes it on
between `fork` and `exec`.

The databases are what the C library reads from them, and the kernel is the three system calls of
the hook, each of which may fail at any time (`UserDb`, `Kernel`). `exec` is reached if the hook
returns without an error.

The source looks up the name of a user for its id only. It looks up the id once more for the primary
group and the group list, and the entry that it finds then may be another user's with the same id.
`complete_iff` says that a privilege drop from root is complete but for that.
-/

namespace Vigil.Process

/-! ## The databases -/

/-- An entry of the user database. -/
structure PasswdEntry where
  name : String
  uid : ℕ
  gid : ℕ
  deriving DecidableEq, Repr

/-- The user and group databases. A lookup may fail with an `errno`. -/
structure UserDb where
  getpwnam : String → Except ℕ (Option PasswdEntry)
  getpwuid : ℕ → Except ℕ (Option PasswdEntry)
  /-- The id of a group. -/
  getgrnam : String → Except ℕ (Option ℕ)
  getgrouplist : String → ℕ → Except ℕ (List ℕ)
  /-- The group that `getgrouplist` is called with is in the list. -/
  mem_getgrouplist : ∀ name gid gids, getgrouplist name gid = .ok gids → gid ∈ gids

/-- A list with no other groups has the group that it is asked for. -/
theorem mem_own_group (_ : String) (gid : ℕ) (gids : List ℕ)
    (h : (Except.ok [gid] : Except ℕ (List ℕ)) = .ok gids) : gid ∈ gids := by
  obtain rfl := Except.ok.inj h
  exact List.mem_singleton_self gid

/-- Why an identity cannot be resolved. -/
inductive IdentityError
  /-- `user {:?} has uid {} but user-id {} was specified`. -/
  | userMismatch (name : String) (uid userId : ℕ)
  /-- `group {:?} has gid {} but group-id {} was specified`. -/
  | groupMismatch (name : String) (gid groupId : ℕ)
  /-- `user {:?} not found`. -/
  | userNotFound (name : String)
  /-- `group {:?} not found`. -/
  | groupNotFound (name : String)
  /-- `user name {:?} contains NUL`. -/
  | nulInName (name : String)
  /-- `getpwnam({:?})`. -/
  | getpwnam (name : String) (errno : ℕ)
  /-- `getgrnam({:?})`. -/
  | getgrnam (name : String) (errno : ℕ)
  /-- `getpwuid({uid})`. -/
  | getpwuid (uid errno : ℕ)
  /-- `getgrouplist({:?})`. -/
  | getgrouplist (name : String) (errno : ℕ)
  deriving DecidableEq, Repr

/-- The four settings of an identity. -/
structure IdentitySettings where
  user : Option String := none
  userId : Option ℕ := none
  group : Option String := none
  groupId : Option ℕ := none
  deriving DecidableEq, Repr

/-! ## The functions of the source -/

section Resolve

variable (db : UserDb)

/-- `lookup_uid`. -/
def lookupUid (name : String) : Except IdentityError ℕ :=
  match db.getpwnam name with
  | .error errno => .error (.getpwnam name errno)
  | .ok none => .error (.userNotFound name)
  | .ok (some u) => .ok u.uid

/-- `lookup_gid`. -/
def lookupGid (name : String) : Except IdentityError ℕ :=
  match db.getgrnam name with
  | .error errno => .error (.getgrnam name errno)
  | .ok none => .error (.groupNotFound name)
  | .ok (some gid) => .ok gid

/-- An id from a name, an id, or both, which have to agree. -/
def resolveId (lookup : String → Except IdentityError ℕ)
    (mismatch : String → ℕ → ℕ → IdentityError) :
    Option String → Option ℕ → Except IdentityError (Option ℕ)
  | some name, some id =>
    match lookup name with
    | .error e => .error e
    | .ok found => if found = id then .ok (some found) else .error (mismatch name found id)
  | some name, none => (lookup name).map some
  | none, some id => .ok (some id)
  | none, none => .ok none

/-- `resolve_uid`. -/
def resolveUid (user : Option String) (userId : Option ℕ) : Except IdentityError (Option ℕ) :=
  resolveId (lookupUid db) .userMismatch user userId

/-- `resolve_gid`. -/
def resolveGid (group : Option String) (groupId : Option ℕ) : Except IdentityError (Option ℕ) :=
  resolveId (lookupGid db) .groupMismatch group groupId

/-- `Credentials`. -/
structure Credentials where
  uid : ℕ
  gid : ℕ
  groups : List ℕ
  deriving DecidableEq, Repr

/-- The primary group of a user: that of the entry, and the user's id without one. -/
def primaryGid (uid : ℕ) : Option PasswdEntry → ℕ
  | some pw => pw.gid
  | none => uid

/-- The groups of a user, before the primary one is added: those of the entry's name, and none
without an entry. -/
def groupsOf (gid : ℕ) : Option PasswdEntry → Except IdentityError (List ℕ)
  | some pw =>
    if Char.ofNat 0 ∈ pw.name.toList then .error (.nulInName pw.name)
    else
      match db.getgrouplist pw.name gid with
      | .error errno => .error (.getgrouplist pw.name errno)
      | .ok gids => .ok gids
  | none => .ok []

/-- `resolve_credentials`, in a process with the effective user id `euid`. -/
def resolveCredentials (euid : ℕ) (st : IdentitySettings) :
    Except IdentityError (Option Credentials) := do
  let uid ← resolveUid db st.user st.userId
  let gid ← resolveGid db st.group st.groupId
  if uid.isNone && gid.isNone then return none
  let uid := uid.getD euid
  let pw ← match db.getpwuid uid with
    | .error errno => .error (.getpwuid uid errno)
    | .ok pw => .ok pw
  let gid := gid.getD (primaryGid uid pw)
  let groups ← groupsOf db gid pw
  return some ⟨uid, gid, if gid ∈ groups then groups else gid :: groups⟩

end Resolve

/-! ## The kernel -/

/-- The identity of a process: its real, effective, and saved ids, its supplementary groups, and its
capabilities to change them. -/
structure Ids where
  ruid : ℕ
  euid : ℕ
  suid : ℕ
  rgid : ℕ
  egid : ℕ
  sgid : ℕ
  groups : List ℕ
  capSetuid : Bool
  capSetgid : Bool
  deriving DecidableEq, Repr

/-- The system calls of the hook. `none` is an error, after which the process is as before. -/
structure Kernel where
  setgroups : List ℕ → Ids → Option Ids
  setgid : ℕ → Ids → Option Ids
  setuid : ℕ → Ids → Option Ids
  /-- `setgroups` needs the capability. -/
  of_setgroups : ∀ gids p p', setgroups gids p = some p' →
    p.capSetgid = true ∧ p' = { p with groups := gids }
  /-- With the capability, `setgid` sets all three ids. -/
  of_setgid : ∀ gid p p', setgid gid p = some p' → p.capSetgid = true →
    p' = { p with rgid := gid, egid := gid, sgid := gid }
  /-- With the capability, `setuid` sets all three ids. Without it, it sets the effective id to the
  real or the saved one. It may change the capabilities. -/
  of_setuid : ∀ uid p p', setuid uid p = some p' →
    p'.rgid = p.rgid ∧ p'.egid = p.egid ∧ p'.sgid = p.sgid ∧ p'.groups = p.groups ∧
      p'.euid = uid ∧
      ((p'.ruid = uid ∧ p'.suid = uid) ∨
        ((uid = p.ruid ∨ uid = p.suid) ∧ p'.ruid = p.ruid ∧ p'.suid = p.suid))

variable (k : Kernel)

/-- `is_current_unprivileged`. -/
def Credentials.isCurrentUnprivileged (c : Credentials) (p : Ids) : Bool :=
  p.euid ≠ 0 && c.uid = p.euid && c.gid = p.egid

/-- The hook of `apply_credentials`. `exec` follows it if it returns without an error. -/
def takeOn (c : Credentials) (p : Ids) : Option Ids := do
  let p ← k.setgroups c.groups p
  let p ← k.setgid c.gid p
  let p ← k.setuid c.uid p
  if c.uid ≠ 0 ∧ (k.setuid 0 p).isSome then none else some p

/-- `apply_credentials`: the identity with which the child of a process reaches `exec`. -/
def applyCredentials (creds : Option Credentials) (p : Ids) : Option Ids :=
  match creds with
  | none => some p
  | some c => if c.isCurrentUnprivileged p then some p else takeOn k c p

/-! ## What is resolved -/

section Spec

variable {lookup : String → Except IdentityError ℕ} {mismatch : String → ℕ → ℕ → IdentityError}
  {name : Option String} {id : Option ℕ}

/-- An id is resolved from what is set, and everything that is set agrees with it. -/
theorem resolveId_eq_some_iff {found : ℕ} :
    resolveId lookup mismatch name id = .ok (some found) ↔
      (name.isSome ∨ id.isSome) ∧ (∀ n, name = some n → lookup n = .ok found) ∧
        ∀ i, id = some i → found = i := by
  cases name with
  | none => cases id <;> simp [resolveId, eq_comm]
  | some n =>
    cases hlookup : lookup n with
    | error e => cases id <;> simp [resolveId, hlookup, Except.map]
    | ok m =>
      cases id with
      | none => simp [resolveId, hlookup, Except.map]
      | some i =>
        simp only [resolveId, hlookup]
        split_ifs with h
        · subst h
          simp [hlookup, eq_comm]
        · simp only [Option.some.injEq, forall_eq', hlookup, Except.ok.injEq, false_iff]
          rintro ⟨-, rfl, rfl⟩
          exact h rfl

/-- Nothing is resolved where nothing is set. -/
theorem resolveId_eq_none_iff :
    resolveId lookup mismatch name id = .ok none ↔ name = none ∧ id = none := by
  cases name with
  | none => cases id <;> simp [resolveId]
  | some n =>
    cases hlookup : lookup n with
    | error e => cases id <;> simp [resolveId, hlookup, Except.map]
    | ok m =>
      cases id with
      | none => simp [resolveId, hlookup, Except.map]
      | some i =>
        simp only [resolveId, hlookup]
        split_ifs <;> simp

end Spec

/-- A user is configured. -/
def IdentitySettings.HasUser (st : IdentitySettings) : Prop := st.user.isSome ∨ st.userId.isSome

/-- The id and the entry of the user that is configured: the entry of the name, where there is
one. -/
structure IsAccount (db : UserDb) (st : IdentitySettings) (uid : ℕ) (entry : Option PasswdEntry) :
    Prop where
  named : ∀ name, st.user = some name →
    ∃ pw, entry = some pw ∧ db.getpwnam name = .ok (some pw) ∧ pw.uid = uid
  numbered : ∀ id, st.userId = some id → uid = id
  unnamed : st.user = none → db.getpwuid uid = .ok entry

/-- The group that is configured, or else the primary one. -/
structure IsGroup (db : UserDb) (st : IdentitySettings) (primary gid : ℕ) : Prop where
  named : ∀ name, st.group = some name → db.getgrnam name = .ok (some gid)
  numbered : ∀ id, st.groupId = some id → gid = id
  unset : st.group = none → st.groupId = none → gid = primary

/-- The group list of a user. Without an entry it is the primary group. -/
def UserDb.groupList (db : UserDb) (gid : ℕ) : Option PasswdEntry → Except ℕ (List ℕ)
  | some pw => db.getgrouplist pw.name gid
  | none => .ok [gid]

/-- The ids and the groups are those of the configured user. -/
def RunsAs (db : UserDb) (st : IdentitySettings) (uid gid : ℕ) (groups : List ℕ) : Prop :=
  ∃ entry, IsAccount db st uid entry ∧ IsGroup db st (primaryGid uid entry) gid ∧
    db.groupList gid entry = .ok groups ∧ gid ∈ groups

/-- A lookup of a user succeeds if there is an entry. -/
theorem lookupUid_eq_ok_iff {db : UserDb} {name : String} {uid : ℕ} :
    lookupUid db name = .ok uid ↔ ∃ pw, db.getpwnam name = .ok (some pw) ∧ pw.uid = uid := by
  unfold lookupUid
  cases db.getpwnam name with
  | error errno => simp
  | ok entry => cases entry <;> simp

/-- A lookup of a group succeeds if there is one. -/
theorem lookupGid_eq_ok_iff {db : UserDb} {name : String} {gid : ℕ} :
    lookupGid db name = .ok gid ↔ db.getgrnam name = .ok (some gid) := by
  unfold lookupGid
  cases db.getgrnam name with
  | error errno => simp
  | ok entry => cases entry <;> simp

/-- The group that is resolved, or else the primary one. -/
theorem isGroup_of_resolveGid {db : UserDb} {st : IdentitySettings} {gid : Option ℕ}
    (h : resolveGid db st.group st.groupId = .ok gid) (primary : ℕ) :
    IsGroup db st primary (gid.getD primary) := by
  cases gid with
  | none =>
    obtain ⟨hname, hid⟩ := resolveId_eq_none_iff.mp h
    exact ⟨by simp [hname], by simp [hid], fun _ _ => rfl⟩
  | some g =>
    obtain ⟨hset, hname, hid⟩ := resolveId_eq_some_iff.mp h
    refine ⟨fun n hn => lookupGid_eq_ok_iff.mp (hname n hn), hid, fun hn hi => ?_⟩
    simp [hn, hi] at hset

/-- There is at most one configured or primary group. -/
theorem IsGroup.unique {db : UserDb} {st : IdentitySettings} {primary gid gid' : ℕ}
    (h : IsGroup db st primary gid) (h' : IsGroup db st primary gid') : gid = gid' := by
  cases hname : st.group with
  | some name =>
    have heq := (h.named name hname).symm.trans (h'.named name hname)
    exact Option.some.inj (Except.ok.inj heq)
  | none =>
    cases hid : st.groupId with
    | some id => exact (h.numbered id hid).trans (h'.numbered id hid).symm
    | none => exact (h.unset hname hid).trans (h'.unset hname hid).symm

/-- The groups of the source are the user's group list, with the primary group. -/
theorem groupList_of_groupsOf {db : UserDb} {gid : ℕ} {entry : Option PasswdEntry} {gids : List ℕ}
    (h : groupsOf db gid entry = .ok gids) :
    db.groupList gid entry = .ok (if gid ∈ gids then gids else gid :: gids) := by
  cases entry with
  | none =>
    obtain rfl : gids = [] := (Except.ok.inj h).symm
    rfl
  | some pw =>
    simp only [groupsOf] at h
    split_ifs at h
    unfold UserDb.groupList
    cases hlist : db.getgrouplist pw.name gid with
    | error errno => rw [hlist] at h; cases h
    | ok list =>
      rw [hlist] at h
      obtain rfl := Except.ok.inj h
      rw [if_pos (db.mem_getgrouplist _ _ _ hlist)]
      exact hlist

/-- What `resolve_credentials` returns where a user is configured. It does not depend on the
process. -/
structure Resolved (db : UserDb) (st : IdentitySettings) (c : Credentials)
    (entry : Option PasswdEntry) : Prop where
  uid : resolveUid db st.user st.userId = .ok (some c.uid)
  found : db.getpwuid c.uid = .ok entry
  gid : IsGroup db st (primaryGid c.uid entry) c.gid
  groups : db.groupList c.gid entry = .ok c.groups

/-- Where a user is configured, `resolve_credentials` returns resolved credentials. -/
theorem exists_resolved {db : UserDb} {euid : ℕ} {st : IdentitySettings}
    {creds : Option Credentials} (huser : st.HasUser)
    (h : resolveCredentials db euid st = .ok creds) :
    ∃ c entry, creds = some c ∧ Resolved db st c entry := by
  -- Each lookup in turn has succeeded, for otherwise its error is returned.
  unfold resolveCredentials at h
  cases huid : resolveUid db st.user st.userId with
  | error e => rw [huid] at h; cases h
  | ok uid =>
    cases hgid : resolveGid db st.group st.groupId with
    | error e => rw [huid, hgid] at h; cases h
    | ok gid =>
      cases uid with
      | none =>
        obtain ⟨hname, hid⟩ := resolveId_eq_none_iff.mp huid
        simp [IdentitySettings.HasUser, hname, hid] at huser
      | some uid =>
        cases hpw : db.getpwuid uid with
        | error errno =>
          rw [huid, hgid] at h
          simp [Bind.bind, Except.bind, hpw] at h
        | ok entry =>
          cases hgroups : groupsOf db (gid.getD (primaryGid uid entry)) entry with
          | error e =>
            rw [huid, hgid] at h
            simp [Bind.bind, Except.bind, hpw, hgroups] at h
          | ok gids =>
            rw [huid, hgid] at h
            simp only [Bind.bind, Except.bind, Option.isNone_some, Bool.false_and,
              Bool.false_eq_true, if_false, Option.getD_some, hpw, hgroups, pure, Except.pure,
              Except.ok.injEq] at h
            subst h
            exact ⟨_, entry, rfl, huid, hpw, isGroup_of_resolveGid hgid _,
              groupList_of_groupsOf hgroups⟩

/-! ## The hook -/

section Hook

variable {k : Kernel} {c : Credentials} {p child : Ids}

/-- Each call of the hook has succeeded, in this order, and a child that is not root cannot become
root. -/
structure Dropped (k : Kernel) (c : Credentials) (p child : Ids) : Prop where
  calls : ∃ p₁ p₂, k.setgroups c.groups p = some p₁ ∧ k.setgid c.gid p₁ = some p₂ ∧
    k.setuid c.uid p₂ = some child
  notRoot : c.uid ≠ 0 → k.setuid 0 child = none

/-- The hook returns without an error only then. -/
theorem takeOn_eq_some (h : takeOn k c p = some child) : Dropped k c p child := by
  simp only [takeOn, Option.bind_eq_bind, Option.bind_eq_some_iff] at h
  obtain ⟨p₁, h₁, p₂, h₂, p₃, h₃, h⟩ := h
  -- The last call of the hook is to fail.
  split_ifs at h with hroot
  obtain rfl := Option.some.inj h
  refine ⟨⟨p₁, p₂, h₁, h₂, h₃⟩, fun hne => ?_⟩
  rw [not_and, Bool.not_eq_true, Option.isSome_eq_false_iff] at hroot
  exact Option.isNone_iff_eq_none.mp (hroot hne)

/-- The hook leaves nothing of the parent's groups. -/
theorem Dropped.ids (h : Dropped k c p child) :
    child.euid = c.uid ∧ child.egid = c.gid ∧ child.rgid = c.gid ∧ child.sgid = c.gid ∧
      child.groups = c.groups := by
  obtain ⟨p₁, p₂, h₁, h₂, h₃⟩ := h.calls
  obtain ⟨hcap, rfl⟩ := k.of_setgroups _ _ _ h₁
  obtain rfl := k.of_setgid _ _ _ h₂ hcap
  obtain ⟨hrgid, hegid, hsgid, hgroups, heuid, -⟩ := k.of_setuid _ _ _ h₃
  exact ⟨heuid, hegid, hrgid, hsgid, hgroups⟩

/-- A child of a process that is root by all its ids has the user's id for all its own. -/
theorem Dropped.uids (h : Dropped k c p child) (hruid : p.ruid = 0) (hsuid : p.suid = 0) :
    child.ruid = c.uid ∧ child.suid = c.uid := by
  obtain ⟨p₁, p₂, h₁, h₂, h₃⟩ := h.calls
  obtain ⟨hcap, rfl⟩ := k.of_setgroups _ _ _ h₁
  obtain rfl := k.of_setgid _ _ _ h₂ hcap
  obtain ⟨-, -, -, -, -, hall | ⟨hback, hr, hs⟩⟩ := k.of_setuid _ _ _ h₃
  · exact hall
  · -- Without the capability, the call goes back to an id that the process has, which is root.
    simp only [hruid, hsuid, or_self] at hback hr hs
    rw [hr, hs, hback]
    exact ⟨rfl, rfl⟩

/-- A process that is root always goes through the hook. -/
theorem applyCredentials_of_root (hroot : p.euid = 0) :
    applyCredentials k (some c) p = takeOn k c p := by
  simp [applyCredentials, Credentials.isCurrentUnprivileged, hroot]

end Hook

/-- A kernel whose calls fail for want of a capability only. The capabilities are lost with root. -/
def linux : Kernel where
  setgroups gids p := if p.capSetgid then some { p with groups := gids } else none
  setgid gid p :=
    if p.capSetgid then some { p with rgid := gid, egid := gid, sgid := gid }
    else if gid = p.rgid ∨ gid = p.sgid then some { p with egid := gid }
    else none
  setuid uid p :=
    if p.capSetuid then
      some { p with
        ruid := uid, euid := uid, suid := uid
        capSetuid := decide (uid = 0), capSetgid := decide (uid = 0) }
    else if uid = p.ruid ∨ uid = p.suid then some { p with euid := uid }
    else none
  of_setgroups gids p p' h := by
    split_ifs at h with hcap
    exact ⟨hcap, (Option.some.inj h).symm⟩
  of_setgid gid p p' h hcap := by
    rw [if_pos hcap] at h
    exact (Option.some.inj h).symm
  of_setuid uid p p' h := by
    split_ifs at h with hcap hback
    · obtain rfl := Option.some.inj h
      simp
    · obtain rfl := Option.some.inj h
      simp [hback]

/-- A process that is root and has its capabilities. -/
def rootIds : Ids := ⟨0, 0, 0, 0, 0, 0, [0], true, true⟩

/-- On Linux root takes on any credentials, with all its ids, and keeps its capabilities only as
root. -/
theorem takeOn_linux (c : Credentials) :
    takeOn linux c rootIds = some
      ⟨c.uid, c.uid, c.uid, c.gid, c.gid, c.gid, c.groups, decide (c.uid = 0),
        decide (c.uid = 0)⟩ := by
  by_cases hroot : c.uid = 0
  · simp [takeOn, linux, rootIds, hroot]
  · have hne : ¬0 = c.uid := fun h => hroot h.symm
    simp [takeOn, linux, rootIds, hroot, hne]

/-! ## The privilege drop -/

/-- A child of a process reaches `exec` with an identity. -/
def Execs (k : Kernel) (db : UserDb) (st : IdentitySettings) (p child : Ids) : Prop :=
  ∃ creds, resolveCredentials db p.euid st = .ok creds ∧ applyCredentials k creds p = some child

/-- A privilege drop from root is complete. -/
structure Complete (db : UserDb) (st : IdentitySettings) : Prop where
  /-- The child runs as the configured user. -/
  runsAs : ∀ k p child, p.euid = 0 → Execs k db st p child →
    RunsAs db st child.euid child.egid child.groups
  /-- It does so by all its ids. -/
  allIds : ∀ k p child, p.euid = 0 → Execs k db st p child →
    child.rgid = child.egid ∧ child.sgid = child.egid ∧
      (p.ruid = 0 → p.suid = 0 → child.ruid = child.euid ∧ child.suid = child.euid)
  /-- Its identity does not depend on that of the parent, nor on the kernel. -/
  independent : ∀ k k' p p' child child', p.euid = 0 → p'.euid = 0 →
    Execs k db st p child → Execs k' db st p' child' →
      child.euid = child'.euid ∧ child.egid = child'.egid ∧ child.groups = child'.groups
  /-- `exec` is reached only after calls that have all succeeded, by a child that cannot become root
  again. -/
  dropped : ∀ k p child, p.euid = 0 → Execs k db st p child →
    ∃ c, Dropped k c p child ∧ c.uid = child.euid

/-- The entry that is found by the id of a named user serves for the one that is found by the name:
the primary group, where it is used, and the group list are the same. -/
def SameAccount (db : UserDb) (st : IdentitySettings) : Prop :=
  ∀ name pw entry, st.user = some name → db.getpwnam name = .ok (some pw) →
    db.getpwuid pw.uid = .ok entry →
      (st.group = none → st.groupId = none → primaryGid pw.uid entry = pw.gid) ∧
      ∀ gid, IsGroup db st pw.gid gid → db.groupList gid entry = db.getgrouplist pw.name gid

section Complete

variable {db : UserDb} {st : IdentitySettings} {c c' : Credentials}
  {entry entry' : Option PasswdEntry}

/-- The list of groups contains the group that it is made for. -/
theorem UserDb.mem_groupList {gid : ℕ} {gids : List ℕ} (h : db.groupList gid entry = .ok gids) :
    gid ∈ gids := by
  cases entry with
  | none => exact mem_own_group "" gid gids h
  | some pw => exact db.mem_getgrouplist _ _ _ h

/-- Two resolutions of the same settings agree. -/
theorem Resolved.unique (h : Resolved db st c entry) (h' : Resolved db st c' entry') : c = c' := by
  obtain ⟨uid, gid, groups⟩ := c
  obtain ⟨uid', gid', groups'⟩ := c'
  obtain rfl : uid = uid' := Option.some.inj (Except.ok.inj (h.uid.symm.trans h'.uid))
  obtain rfl : entry = entry' := Except.ok.inj (h.found.symm.trans h'.found)
  obtain rfl : gid = gid' := h.gid.unique h'.gid
  obtain rfl : groups = groups' := Except.ok.inj (h.groups.symm.trans h'.groups)
  rfl

/-- The entry of a user that is set by name has the id that is resolved. -/
theorem Resolved.named (h : Resolved db st c entry) {name : String} (hname : st.user = some name) :
    ∃ pw, db.getpwnam name = .ok (some pw) ∧ pw.uid = c.uid :=
  lookupUid_eq_ok_iff.mp ((resolveId_eq_some_iff.mp h.uid).2.1 name hname)

/-- What is resolved is the user's own, if the two entries of a named user serve alike. -/
theorem Resolved.runsAs (h : Resolved db st c entry) (hsame : SameAccount db st) :
    RunsAs db st c.uid c.gid c.groups := by
  have hmem := UserDb.mem_groupList h.groups
  have hnum := (resolveId_eq_some_iff.mp h.uid).2.2
  cases hname : st.user with
  | none => exact ⟨entry, ⟨by simp [hname], hnum, fun _ => h.found⟩, h.gid, h.groups, hmem⟩
  | some name =>
    obtain ⟨pw, hpw, huid⟩ := h.named hname
    -- The entry that has been found by the id serves for the one of the name.
    obtain ⟨hprimary, hlist⟩ := hsame name pw entry hname hpw (huid ▸ h.found)
    have hgid : IsGroup db st pw.gid c.gid := by
      refine ⟨h.gid.named, h.gid.numbered, fun hn hi => ?_⟩
      rw [h.gid.unset hn hi, ← huid]
      exact hprimary hn hi
    refine ⟨some pw, ⟨fun n hn => ?_, hnum, by simp [hname]⟩, hgid, ?_, hmem⟩
    · obtain rfl : name = n := Option.some.inj (hname.symm.trans hn)
      exact ⟨pw, rfl, hpw, huid⟩
    · exact (hlist c.gid hgid).symm.trans h.groups

/-- The entries of a named user serve alike, if what is resolved is the user's own. -/
theorem Resolved.sameAccount (h : Resolved db st c entry)
    (hruns : RunsAs db st c.uid c.gid c.groups) : SameAccount db st := by
  obtain ⟨own, haccount, hgroup, hlist, -⟩ := hruns
  intro name pw entry' hname hpw hentry'
  obtain ⟨pw', rfl, hpw', huid⟩ := haccount.named name hname
  obtain rfl : pw = pw' := Option.some.inj (Except.ok.inj (hpw.symm.trans hpw'))
  obtain rfl : entry = entry' := Except.ok.inj (h.found.symm.trans (huid ▸ hentry'))
  refine ⟨fun hn hi => ?_, fun gid hgid => ?_⟩
  · rw [huid]
    exact (h.gid.unset hn hi).symm.trans (hgroup.unset hn hi)
  · obtain rfl := hgid.unique hgroup
    exact h.groups.trans hlist.symm

/-- A child of root has gone through the hook with what is resolved. -/
theorem Execs.dropped {k : Kernel} {p child : Ids} (huser : st.HasUser) (hroot : p.euid = 0)
    (h : Execs k db st p child) : ∃ c entry, Resolved db st c entry ∧ Dropped k c p child := by
  obtain ⟨creds, hres, happly⟩ := h
  obtain ⟨c, entry, rfl, hc⟩ := exists_resolved huser hres
  exact ⟨c, entry, hc, takeOn_eq_some (applyCredentials_of_root hroot ▸ happly)⟩

/-- A privilege drop from root is complete if and only if the two entries that the source uses for a
named user serve alike. -/
theorem complete_iff (huser : st.HasUser) {creds : Option Credentials}
    (hres : resolveCredentials db 0 st = .ok creds) : Complete db st ↔ SameAccount db st := by
  refine ⟨fun hcomplete => ?_, fun hsame => ⟨?_, ?_, ?_, ?_⟩⟩
  · -- A kernel that lets root do everything brings each resolved identity to `exec`.
    obtain ⟨c, entry, rfl, hc⟩ := exists_resolved huser hres
    have hexec : applyCredentials linux (some c) rootIds = some _ :=
      (applyCredentials_of_root rfl).trans (takeOn_linux c)
    exact hc.sameAccount (hcomplete.runsAs linux rootIds _ rfl ⟨_, hres, hexec⟩)
  · intro k p child hroot hexec
    obtain ⟨c, entry, hc, hdrop⟩ := hexec.dropped huser hroot
    obtain ⟨heuid, hegid, -, -, hgroups⟩ := hdrop.ids
    rw [heuid, hegid, hgroups]
    exact hc.runsAs hsame
  · intro k p child hroot hexec
    obtain ⟨c, entry, hc, hdrop⟩ := hexec.dropped huser hroot
    obtain ⟨heuid, hegid, hrgid, hsgid, -⟩ := hdrop.ids
    refine ⟨hrgid.trans hegid.symm, hsgid.trans hegid.symm, fun hruid hsuid => ?_⟩
    obtain ⟨hr, hs⟩ := hdrop.uids hruid hsuid
    exact ⟨hr.trans heuid.symm, hs.trans heuid.symm⟩
  · intro k k' p p' child child' hroot hroot' hexec hexec'
    obtain ⟨c, entry, hc, hdrop⟩ := hexec.dropped huser hroot
    obtain ⟨c', entry', hc', hdrop'⟩ := hexec'.dropped huser hroot'
    -- Both children have got what the settings say, and nothing of their parents' is left.
    obtain rfl := hc.unique hc'
    obtain ⟨heuid, hegid, -, -, hgroups⟩ := hdrop.ids
    obtain ⟨heuid', hegid', -, -, hgroups'⟩ := hdrop'.ids
    exact ⟨heuid.trans heuid'.symm, hegid.trans hegid'.symm, hgroups.trans hgroups'.symm⟩
  · intro k p child hroot hexec
    obtain ⟨c, entry, hc, hdrop⟩ := hexec.dropped huser hroot
    exact ⟨c, hdrop, hdrop.ids.1.symm⟩

end Complete

/-! ## Two users with one id -/

/-- A database in which `bob` and `alice` have the same id, and `bob` comes first. -/
def shared : UserDb where
  getpwnam name :=
    if name = "bob" then .ok (some ⟨"bob", 1000, 100⟩)
    else if name = "alice" then .ok (some ⟨"alice", 1000, 200⟩)
    else .ok none
  getpwuid uid := if uid = 1000 then .ok (some ⟨"bob", 1000, 100⟩) else .ok none
  getgrnam _ := .ok none
  getgrouplist _ gid := .ok [gid]
  mem_getgrouplist := mem_own_group

/-- The drop of root to `bob` is complete. -/
theorem complete_bob : Complete shared { user := some "bob" } := by
  have hres : resolveCredentials shared 0 { user := some "bob" } =
      .ok (some ⟨1000, 100, [100]⟩) := rfl
  refine (complete_iff (.inl rfl) hres).mpr ?_
  intro name pw entry hname hpw hentry
  obtain rfl : "bob" = name := Option.some.inj hname
  obtain rfl : ⟨"bob", 1000, 100⟩ = pw := Option.some.inj (Except.ok.inj hpw)
  obtain rfl : some ⟨"bob", 1000, 100⟩ = entry := Except.ok.inj hentry
  exact ⟨fun _ _ => rfl, fun _ _ => rfl⟩

/-- The child that is to run as `alice` has the primary group of `bob`. -/
theorem not_complete_alice :
    ({ user := some "alice" } : IdentitySettings).HasUser ∧
      resolveCredentials shared 0 { user := some "alice" } = .ok (some ⟨1000, 100, [100]⟩) ∧
      Execs linux shared { user := some "alice" } rootIds
        ⟨1000, 1000, 1000, 100, 100, 100, [100], false, false⟩ ∧
      ¬RunsAs shared { user := some "alice" } 1000 100 [100] ∧
      ¬Complete shared { user := some "alice" } := by
  have hnot : ¬RunsAs shared { user := some "alice" } 1000 100 [100] := by
    rintro ⟨entry, haccount, hgroup, -⟩
    obtain ⟨pw, rfl, hpw, -⟩ := haccount.named "alice" rfl
    obtain rfl : ⟨"alice", 1000, 200⟩ = pw := Option.some.inj (Except.ok.inj hpw)
    exact absurd (hgroup.unset rfl rfl) (by decide)
  have hexec : Execs linux shared { user := some "alice" } rootIds
      ⟨1000, 1000, 1000, 100, 100, 100, [100], false, false⟩ :=
    ⟨some ⟨1000, 100, [100]⟩, rfl, rfl⟩
  exact ⟨.inl rfl, rfl, hexec, hnot, fun h => hnot (h.runsAs linux rootIds _ rfl hexec)⟩

end Vigil.Process
