import Vigil.Lib.Runs
import Mathlib.Data.List.Nodup
import Mathlib.Logic.Function.Basic

/-!
# The control socket

`bind_unix` of `server.rs`, one call to the file system at a time: daemons that start with the same
socket path, any number of them at once, each call of which may fail, beside other processes that
change the directory as they like but for the daemons' temporary names.

The socket is bound under a temporary name, gets its permission bits there, and is then moved into
place. `mode_of_reaches` says that this works: at the socket path there is never a daemon's socket
with other permission bits than the daemon's own, and nothing is left under a temporary name. It
rests on the process ids being different: of two daemons with one process id, each in a container of
its own, one may move the socket of the other into place (`exists_other_mode`).

Without other processes, nothing but a socket is ever removed or replaced (`untouched_of_reaches`).
But a socket at the path is taken for a stale one, and so a daemon that fails to start may leave one
that serves without its socket (`endpoint_of_reaches`).
-/

namespace Vigil.Socket

open Runs

/-! ## The directory -/

/-- What there is under a name. -/
inductive Node
  /-- A socket, the daemon that has bound it if it is one of those that start, and its permission
  bits. -/
  | socket (owner : Option ℕ) (mode : ℕ)
  | symlink
  | file
  | dir
  deriving DecidableEq

/-- `FileTypeExt::is_socket`. -/
def Node.isSocket : Node → Bool
  | .socket _ _ => true
  | _ => false

/-- The directory of the socket, by the names in it. -/
abbrev Entries := String → Option Node

/-- `remove_file`, which fails where there is nothing or a directory. -/
def removeFile (es : Entries) (name : String) : Option Entries :=
  match es name with
  | none => none
  | some .dir => none
  | some _ => some (Function.update es name none)

/-- `UnixListener::bind` of a daemon, which fails where there is something. -/
def bindSocket (es : Entries) (name : String) (i mode : ℕ) : Option Entries :=
  match es name with
  | none => some (Function.update es name (some (.socket (some i) mode)))
  | some _ => none

/-- `set_permissions`. The permission bits of what is not a socket are not recorded. -/
def setPermissions (es : Entries) (name : String) (mode : ℕ) : Option Entries :=
  match es name with
  | none => none
  | some (.socket owner _) => some (Function.update es name (some (.socket owner mode)))
  | some _ => some es

/-- `rename` of what is not a directory, which replaces what it finds but a directory. -/
def rename (es : Entries) (source target : String) : Option Entries :=
  match es source, es target with
  | none, _ => none
  | some _, some .dir => none
  | some node, _ => some (Function.update (Function.update es source none) target (some node))

/-- The temporary name of a daemon's socket. -/
def tmpName (file : String) (pid : ℕ) : String := "." ++ file ++ "." ++ toString pid ++ ".tmp"

/-- The temporary names of different processes are different. -/
theorem tmpName_injective (file : String) : Function.Injective (tmpName file) := by
  intro p q h
  have hcs := congrArg String.toList h
  simp only [tmpName, String.toList_append, List.append_assoc] at hcs
  have hpid : (toString p).toList = (toString q).toList :=
    List.append_cancel_right (List.append_cancel_left (List.append_cancel_left
      (List.append_cancel_left hcs)))
  rw [show (toString p).toList = Nat.toDigits 10 p by simp,
    show (toString q).toList = Nat.toDigits 10 q by simp] at hpid
  rw [← Nat.ofDigitChars_ten_toDigits (n := p), hpid, Nat.ofDigitChars_ten_toDigits]

/-- A temporary name is not the socket's. -/
theorem tmpName_ne (file : String) (pid : ℕ) : tmpName file pid ≠ file := by
  intro h
  have hlen := congrArg String.length h
  simp only [tmpName, String.length_append] at hlen
  have hdot : (".").length = 1 := rfl
  omega

/-! ## The daemons -/

/-- The errors of `bind_unix`. -/
inductive BindError
  | inspecting
  | symlink
  | notSocket
  | removing
  | creatingDir
  | binding
  | chmod
  | moving
  | listener
  deriving DecidableEq, Repr

/-- The text of an error. `debug` is how a path is written with `{:?}`, and `octal` a mode with
`{:o}`. The last error is the one of the call itself. -/
def BindError.context (debug : String → String) (octal : ℕ → String) (path parent tmp : String)
    (mode : ℕ) : BindError → Option String
  | .inspecting => some ("inspecting socket path " ++ debug path)
  | .symlink => some ("refusing to use control socket path " ++ debug path ++ ": it is a symlink")
  | .notSocket => some ("refusing to replace " ++ debug path ++ ": it exists and is not a socket")
  | .removing => some ("removing stale socket " ++ debug path ++ " (owned by another user?)")
  | .creatingDir => some ("creating socket dir " ++ debug parent)
  | .binding => some ("binding Unix socket " ++ debug tmp)
  | .chmod => some ("chmod " ++ octal mode ++ " " ++ debug tmp)
  | .moving => some ("moving socket into place at " ++ debug path)
  | .listener => none

/-- The call that `bind_unix` makes next. -/
inductive BindPhase
  /-- `symlink_metadata` of the socket path. -/
  | inspect
  /-- `remove_file` of the socket path. -/
  | removeStale
  | createDir
  /-- `symlink_metadata` of the temporary name. -/
  | inspectTmp
  /-- `remove_file` of the temporary name. -/
  | removeTmp
  | bind
  | chmod
  | rename
  /-- `remove_file` of the temporary name after an error. -/
  | cleanup (e : BindError)
  /-- `set_nonblocking` and `from_std`. -/
  | listen
  /-- It has returned the listener. -/
  | bound
  | failed (e : BindError)
  deriving DecidableEq, Repr

/-- A daemon that starts. -/
structure Binder where
  pid : ℕ
  /-- The permission bits that its socket is to have. -/
  mode : ℕ
  /-- The permission bits that `bind` gives a socket under the daemon's umask. -/
  bindMode : ℕ
  phase : BindPhase := .inspect
  /-- The call of `remove_file` after an error has not failed. The daemon does not keep this. -/
  tidied : Bool := true
  deriving DecidableEq

/-- A call that returns an error does nothing. -/
def call {α : Type} (fails : Bool) (result : Option α) : Option α := if fails then none else result

/-- The next call of a daemon. -/
def Binder.next (file : String) (i : ℕ) (fails : Bool) (es : Entries) (b : Binder) :
    Option (Entries × Binder) :=
  let tmp := tmpName file b.pid
  match b.phase with
  | .inspect =>
    if fails then some (es, { b with phase := .failed .inspecting })
    else
      match es file with
      | none => some (es, { b with phase := .createDir })
      | some .symlink => some (es, { b with phase := .failed .symlink })
      | some (.socket _ _) => some (es, { b with phase := .removeStale })
      | some _ => some (es, { b with phase := .failed .notSocket })
  | .removeStale =>
    match call fails (removeFile es file) with
    | some es => some (es, { b with phase := .createDir })
    | none => some (es, { b with phase := .failed .removing })
  | .createDir =>
    some (es, { b with phase := if fails then .failed .creatingDir else .inspectTmp })
  | .inspectTmp =>
    if !fails && (es tmp).any Node.isSocket then some (es, { b with phase := .removeTmp })
    else some (es, { b with phase := .bind })
  | .removeTmp =>
    -- `let _ =` drops the error.
    some ((call fails (removeFile es tmp)).getD es, { b with phase := .bind })
  | .bind =>
    match call fails (bindSocket es tmp i b.bindMode) with
    | some es => some (es, { b with phase := .chmod })
    | none => some (es, { b with phase := .failed .binding })
  | .chmod =>
    match call fails (setPermissions es tmp b.mode) with
    | some es => some (es, { b with phase := .rename })
    | none => some (es, { b with phase := .cleanup .chmod })
  | .rename =>
    match call fails (Socket.rename es tmp file) with
    | some es => some (es, { b with phase := .listen })
    | none => some (es, { b with phase := .cleanup .moving })
  | .cleanup e =>
    match call fails (removeFile es tmp) with
    | some es => some (es, { b with phase := .failed e })
    | none => some (es, { b with phase := .failed e, tidied := false })
  | .listen => some (es, { b with phase := if fails then .failed .listener else .bound })
  | .bound => none
  | .failed _ => none

/-- The directory, and the daemons that start. -/
structure Startup where
  entries : Entries
  binders : List Binder

/-- What happens. -/
inductive StartupLabel
  /-- The next call of a daemon, which may fail for reasons of its own. -/
  | call (i : ℕ) (fails : Bool)
  /-- Another process puts something under a name, or removes what is there. -/
  | other (name : String) (node : Option Node)

/-- The other process leaves the daemons' temporary names alone, and puts nothing in place that is a
daemon's socket. -/
def Startup.Minds (file : String) (s : Startup) (name : String) (node : Option Node) : Prop :=
  (∀ b ∈ s.binders, name ≠ tmpName file b.pid) ∧ ∀ i mode, node ≠ some (.socket (some i) mode)

/-- One step. -/
def Startup.step (file : String) (s : Startup) : StartupLabel → Option Startup
  | .call i fails => do
    let b ← s.binders[i]?
    let (entries, b') ← b.next file i fails s.entries
    return { entries, binders := s.binders.set i b' }
  | .other name node => some { s with entries := Function.update s.entries name node }

/-- What the other processes do. -/
def Startup.Fair (file : String) (s : Startup) : StartupLabel → Prop
  | .call _ _ => True
  | .other name node => s.Minds file name node

/-- There are no other processes. -/
def Startup.Alone (_ : Startup) : StartupLabel → Prop
  | .call _ _ => True
  | .other _ _ => False

/-- The daemons are about to start, and none has bound a socket yet. -/
structure Startup.Fresh (s : Startup) : Prop where
  nodup : (s.binders.map Binder.pid).Nodup
  phase : ∀ b ∈ s.binders, b.phase = .inspect ∧ b.tidied = true
  unowned : ∀ name i mode, s.entries name ≠ some (.socket (some i) mode)

/-! ## What a call does -/

/-- A call that leaves the directory as it is. -/
inductive Binder.Goes (file : String) (es : Entries) (b : Binder) : BindPhase → Prop
  | refused {e} (hp : b.phase = .inspect) (he : e = .inspecting ∨ e = .symlink ∨ e = .notSocket) :
    Goes file es b (.failed e)
  | free (hp : b.phase = .inspect) (hf : es file = none) : Goes file es b .createDir
  | stale {owner mode} (hp : b.phase = .inspect) (hf : es file = some (.socket owner mode)) :
    Goes file es b .removeStale
  | notRemoved (hp : b.phase = .removeStale) : Goes file es b (.failed .removing)
  | created (hp : b.phase = .createDir) : Goes file es b .inspectTmp
  | notCreated (hp : b.phase = .createDir) : Goes file es b (.failed .creatingDir)
  | leftover {owner mode} (hp : b.phase = .inspectTmp)
    (ht : es (tmpName file b.pid) = some (.socket owner mode)) : Goes file es b .removeTmp
  | noLeftover (hp : b.phase = .inspectTmp) : Goes file es b .bind
  | notCleared (hp : b.phase = .removeTmp) : Goes file es b .bind
  | notBound (hp : b.phase = .bind) : Goes file es b (.failed .binding)
  | noSocket {node} (hp : b.phase = .chmod) (ht : es (tmpName file b.pid) = some node)
    (hs : node.isSocket = false) : Goes file es b .rename
  | notSet (hp : b.phase = .chmod) : Goes file es b (.cleanup .chmod)
  | notMoved (hp : b.phase = .rename) : Goes file es b (.cleanup .moving)
  | listening (hp : b.phase = .listen) : Goes file es b .bound
  | notListening (hp : b.phase = .listen) : Goes file es b (.failed .listener)

/-- A call of a daemon. -/
inductive BindStep (file : String) (i : ℕ) (es : Entries) (b : Binder) : Entries → Binder → Prop
  | goes {phase} (h : b.Goes file es phase) : BindStep file i es b es { b with phase }
  | removed {node} (hp : b.phase = .removeStale) (hf : es file = some node) :
    BindStep file i es b (Function.update es file none) { b with phase := .createDir }
  | cleared {node} (hp : b.phase = .removeTmp) (ht : es (tmpName file b.pid) = some node) :
    BindStep file i es b (Function.update es (tmpName file b.pid) none) { b with phase := .bind }
  | bound (hp : b.phase = .bind) (ht : es (tmpName file b.pid) = none) :
    BindStep file i es b
      (Function.update es (tmpName file b.pid) (some (.socket (some i) b.bindMode)))
      { b with phase := .chmod }
  | set {owner mode} (hp : b.phase = .chmod)
    (ht : es (tmpName file b.pid) = some (.socket owner mode)) :
    BindStep file i es b
      (Function.update es (tmpName file b.pid) (some (.socket owner b.mode)))
      { b with phase := .rename }
  | moved {node} (hp : b.phase = .rename) (ht : es (tmpName file b.pid) = some node) :
    BindStep file i es b
      (Function.update (Function.update es (tmpName file b.pid) none) file (some node))
      { b with phase := .listen }
  | cleaned {e node} (hp : b.phase = .cleanup e) (ht : es (tmpName file b.pid) = some node) :
    BindStep file i es b (Function.update es (tmpName file b.pid) none)
      { b with phase := .failed e }
  | untidied {e} (hp : b.phase = .cleanup e) :
    BindStep file i es b es { b with phase := .failed e, tidied := false }

/-- `remove_file` removes an entry that is there. -/
theorem removeFile_cases {fails : Bool} {es es' : Entries} {name : String}
    (h : call fails (removeFile es name) = some es') :
    ∃ node, es name = some node ∧ es' = Function.update es name none := by
  unfold call removeFile at h
  split_ifs at h
  split at h
  · cases h
  · cases h
  · next node _ hnode => exact ⟨node, hnode, (Option.some.inj h).symm⟩

/-- Every call of a daemon is one of those that `BindStep` lists. -/
theorem Binder.next_cases {file : String} {i : ℕ} {fails : Bool} {es es' : Entries} {b b' : Binder}
    (h : b.next file i fails es = some (es', b')) : BindStep file i es b es' b' := by
  unfold Binder.next at h
  cases hp : b.phase with
  | inspect =>
    simp only [hp] at h
    split_ifs at h
    · cases h
      exact .goes (.refused hp (.inl rfl))
    · split at h <;> cases h
      · next hf => exact .goes (.free hp hf)
      · exact .goes (.refused hp (.inr (.inl rfl)))
      · next hf => exact .goes (.stale hp hf)
      · exact .goes (.refused hp (.inr (.inr rfl)))
  | removeStale =>
    simp only [hp] at h
    split at h <;> cases h
    · next hr =>
      obtain ⟨node, hf, rfl⟩ := removeFile_cases hr
      exact .removed hp hf
    · exact .goes (.notRemoved hp)
  | createDir =>
    simp only [hp] at h
    cases h
    cases fails
    · exact .goes (.created hp)
    · exact .goes (.notCreated hp)
  | inspectTmp =>
    simp only [hp] at h
    split_ifs at h with hs <;> cases h
    · obtain ⟨node, ht, hsocket⟩ := (Option.any_eq_true ..).mp (Bool.and_eq_true_iff.mp hs).2
      cases node with
      | socket owner mode => exact .goes (.leftover hp ht)
      | _ => cases hsocket
    · exact .goes (.noLeftover hp)
  | removeTmp =>
    simp only [hp] at h
    cases hr : call fails (removeFile es (tmpName file b.pid)) with
    | none =>
      rw [hr] at h
      cases h
      exact .goes (.notCleared hp)
    | some es'' =>
      rw [hr] at h
      cases h
      obtain ⟨node, ht, rfl⟩ := removeFile_cases hr
      exact .cleared hp ht
  | bind =>
    simp only [hp] at h
    split at h <;> cases h
    · next hb =>
      unfold call bindSocket at hb
      split_ifs at hb
      split at hb
      · next ht => exact Option.some.inj hb ▸ .bound hp ht
      · cases hb
    · exact .goes (.notBound hp)
  | chmod =>
    simp only [hp] at h
    split at h <;> cases h
    · next hb =>
      unfold call setPermissions at hb
      split_ifs at hb
      split at hb
      · cases hb
      · next ht => exact Option.some.inj hb ▸ .set hp ht
      · next node hnode ht =>
        obtain rfl := Option.some.inj hb
        refine .goes (.noSocket hp ht ?_)
        cases node with
        | socket owner mode => exact absurd rfl (hnode owner mode)
        | _ => rfl
    · exact .goes (.notSet hp)
  | rename =>
    simp only [hp] at h
    split at h <;> cases h
    · next hb =>
      unfold call Socket.rename at hb
      split_ifs at hb
      split at hb
      · cases hb
      · cases hb
      · next ht _ => exact Option.some.inj hb ▸ .moved hp ht
    · exact .goes (.notMoved hp)
  | cleanup e =>
    simp only [hp] at h
    split at h <;> cases h
    · next hr =>
      obtain ⟨node, ht, rfl⟩ := removeFile_cases hr
      exact .cleaned hp ht
    · exact .untidied hp
  | listen =>
    simp only [hp] at h
    cases h
    cases fails
    · exact .goes (.listening hp)
    · exact .goes (.notListening hp)
  | bound => simp [hp] at h
  | failed e => simp [hp] at h

/-- A call keeps what the daemon has been given. -/
theorem BindStep.keeps {file : String} {i : ℕ} {es es' : Entries} {b b' : Binder}
    (h : BindStep file i es b es' b') : b'.pid = b.pid ∧ b'.mode = b.mode := by
  cases h <;> exact ⟨rfl, rfl⟩

/-- A call changes nothing but what is at the socket path and at the daemon's temporary name. -/
theorem BindStep.frame {file : String} {i : ℕ} {es es' : Entries} {b b' : Binder}
    (h : BindStep file i es b es' b') {name : String} (hfile : name ≠ file)
    (htmp : name ≠ tmpName file b.pid) : es' name = es name := by
  cases h with
  | goes | untidied => rfl
  | removed => exact Function.update_of_ne hfile _ _
  | cleared | bound | set | cleaned => exact Function.update_of_ne htmp _ _
  | moved => rw [Function.update_of_ne hfile, Function.update_of_ne htmp]

namespace Startup

variable {file : String} {s s' s₀ : Startup}

/-- A step of the startup is a call of a daemon, or what another process does. -/
theorem step_cases {l : StartupLabel} (h : s.step file l = some s') :
    (∃ i fails b es b', l = .call i fails ∧ s.binders[i]? = some b ∧
      BindStep file i s.entries b es b' ∧ s' = { entries := es, binders := s.binders.set i b' }) ∨
      ∃ name node, l = .other name node ∧
        s' = { s with entries := Function.update s.entries name node } := by
  cases l with
  | call i fails =>
    obtain ⟨b, hb, h⟩ := Option.bind_eq_some_iff.mp h
    obtain ⟨⟨es, b'⟩, hnext, h⟩ := Option.bind_eq_some_iff.mp h
    exact .inl ⟨i, fails, b, es, b', rfl, hb, Binder.next_cases hnext, (Option.some.inj h).symm⟩
  | other name node => exact .inr ⟨name, node, rfl, (Option.some.inj h).symm⟩

/-- A daemon after another has made a call. -/
theorem getElem?_set_cases {i j : ℕ} {b c : Binder}
    (hc : (s.binders.set i b)[j]? = some c) : j = i ∧ c = b ∨ j ≠ i ∧ s.binders[j]? = some c := by
  rw [List.getElem?_set] at hc
  split_ifs at hc with hij hlt
  · exact .inl ⟨hij.symm, (Option.some.inj hc).symm⟩
  · exact .inr ⟨fun h => hij h.symm, hc⟩

/-! ## The permission bits -/

/-- Where a daemon's socket may be, and with which permission bits. -/
def Placed (file : String) (b : Binder) (name : String) (mode : ℕ) : Prop :=
  name = file ∧ mode = b.mode ∨ name = tmpName file b.pid ∧
    (b.phase = .chmod ∨ b.phase = .rename ∧ mode = b.mode ∨ (∃ e, b.phase = .cleanup e) ∨
      b.tidied = false)

/-- The daemons' sockets are where they may be, and are there when they are needed. -/
structure Orderly (file : String) (s : Startup) : Prop where
  nodup : (s.binders.map Binder.pid).Nodup
  placed : ∀ name i mode, s.entries name = some (.socket (some i) mode) →
    ∃ b, s.binders[i]? = some b ∧ Placed file b name mode
  chmod : ∀ (i : ℕ) (b : Binder), s.binders[i]? = some b → b.phase = .chmod →
    ∃ mode, s.entries (tmpName file b.pid) = some (.socket (some i) mode)
  rename : ∀ (i : ℕ) (b : Binder), s.binders[i]? = some b → b.phase = .rename →
    s.entries (tmpName file b.pid) = some (.socket (some i) b.mode)

/-- The daemons have temporary names of their own. -/
theorem Orderly.tmpName_ne (h : s.Orderly file) {i j : ℕ} {b c : Binder}
    (hb : s.binders[i]? = some b) (hc : s.binders[j]? = some c) (hij : j ≠ i) :
    tmpName file c.pid ≠ tmpName file b.pid := by
  intro hname
  have hpid := tmpName_injective file hname
  have hget {k : ℕ} {a : Binder} (ha : s.binders[k]? = some a) :
      (s.binders.map Binder.pid)[k]? = some a.pid := by rw [List.getElem?_map, ha, Option.map_some]
  refine hij ((List.getElem?_inj ?_ h.nodup).mp ?_)
  · exact (List.getElem?_eq_some_iff.mp (hget hc)).1
  · rw [hget hc, hget hb, hpid]

/-- A call of a daemon, as far as its own socket is concerned. -/
theorem Orderly.of_call (h : s.Orderly file) {i : ℕ} {b b' : Binder} {es : Entries}
    (hb : s.binders[i]? = some b) (hstep : BindStep file i s.entries b es b')
    (hown : ∀ name mode, es name = some (.socket (some i) mode) → Placed file b' name mode)
    (hothers : ∀ name j mode, j ≠ i → es name = some (.socket (some j) mode) →
      s.entries name = some (.socket (some j) mode))
    (hchmod : b'.phase = .chmod →
      ∃ mode, es (tmpName file b'.pid) = some (.socket (some i) mode))
    (hrename : b'.phase = .rename →
      es (tmpName file b'.pid) = some (.socket (some i) b'.mode)) :
    Orderly file { entries := es, binders := s.binders.set i b' } := by
  have hget : (s.binders.set i b')[i]? = some b' :=
    List.getElem?_set_self (List.getElem?_eq_some_iff.mp hb).1
  have hsame {j : ℕ} {c : Binder} (hj : j ≠ i) (hc : s.binders[j]? = some c) :
      es (tmpName file c.pid) = s.entries (tmpName file c.pid) :=
    hstep.frame (Socket.tmpName_ne file c.pid) (h.tmpName_ne hb hc hj)
  refine ⟨?_, fun name j mode hname => ?_, fun j c hc hphase => ?_, fun j c hc hphase => ?_⟩
  · have hmap : (s.binders.set i b').map Binder.pid = s.binders.map Binder.pid := by
      obtain ⟨hi, rfl⟩ := List.getElem?_eq_some_iff.mp hb
      rw [List.map_set, hstep.keeps.1, ← List.map_set, List.set_getElem_self]
    rw [hmap]
    exact h.nodup
  · by_cases hj : j = i
    · subst hj
      exact ⟨b', hget, hown name mode hname⟩
    · obtain ⟨c, hc, hplaced⟩ := h.placed name j mode (hothers name j mode hj hname)
      refine ⟨c, ?_, hplaced⟩
      show (s.binders.set i b')[j]? = some c
      rw [List.getElem?_set_ne (fun hij => hj hij.symm), hc]
  · rcases getElem?_set_cases hc with ⟨rfl, rfl⟩ | ⟨hj, hc⟩
    · exact hchmod hphase
    · show ∃ mode, es _ = _
      rw [hsame hj hc]
      exact h.chmod j c hc hphase
  · rcases getElem?_set_cases hc with ⟨rfl, rfl⟩ | ⟨hj, hc⟩
    · exact hrename hphase
    · show es _ = _
      rw [hsame hj hc]
      exact h.rename j c hc hphase

/-- A call that leaves the directory as it is. -/
theorem Orderly.goes (h : s.Orderly file) {i : ℕ} {b : Binder} {phase : BindPhase}
    (hb : s.binders[i]? = some b) (hgoes : b.Goes file s.entries phase) :
    Orderly file
      { entries := s.entries, binders := s.binders.set i { b with phase } } := by
  -- What is bound under the temporary name is a socket.
  have hsocket {node : Node} (hp : b.phase = .chmod)
      (ht : s.entries (tmpName file b.pid) = some node) : node.isSocket = true := by
    obtain ⟨mode, hmode⟩ := h.chmod i b hb hp
    obtain rfl := Option.some.inj (ht.symm.trans hmode)
    rfl
  refine h.of_call hb (.goes hgoes) (fun name mode hname => ?_) (fun _ _ _ _ hname => hname)
    (fun hphase => ?_) (fun hphase => ?_)
  · obtain ⟨c, hc, hplaced⟩ := h.placed name i mode hname
    obtain rfl := Option.some.inj (hb.symm.trans hc)
    rcases hplaced with hfile | ⟨htmp, hplaced⟩
    · exact .inl hfile
    · refine .inr ⟨htmp, ?_⟩
      cases hgoes with
      | noSocket hp ht hs => exact absurd ((hsocket hp ht).symm.trans hs) (by decide)
      | notSet | notMoved => exact .inr (.inr (.inl ⟨_, rfl⟩))
      | refused hp | free hp | stale hp | notRemoved hp | created hp | notCreated hp | leftover hp
      | noLeftover hp | notCleared hp | notBound hp | listening hp | notListening hp =>
        simp only [hp] at hplaced
        exact .inr (.inr (.inr (by simpa using hplaced)))
  · cases hgoes <;> cases hphase
  · cases hgoes with
    | noSocket hp ht hs => exact absurd ((hsocket hp ht).symm.trans hs) (by decide)
    | _ => cases hphase

/-- A call that removes what is at the socket path or at the daemon's temporary name. -/
theorem Orderly.removes (h : s.Orderly file) {i : ℕ} {b b' : Binder} {gone : String}
    (hb : s.binders[i]? = some b)
    (hstep : BindStep file i s.entries b (Function.update s.entries gone none) b')
    (htidied : b'.tidied = b.tidied) (hchmod : b.phase ≠ .chmod) (hrename : b.phase ≠ .rename)
    (hgone : (∀ e, b.phase ≠ .cleanup e) ∨ gone = tmpName file b.pid)
    (hchmod' : b'.phase ≠ .chmod) (hrename' : b'.phase ≠ .rename) :
    Orderly file
      { entries := Function.update s.entries gone none, binders := s.binders.set i b' } := by
  have hold {name : String} {j mode : ℕ}
      (hname : Function.update s.entries gone none name = some (.socket (some j) mode)) :
      name ≠ gone ∧ s.entries name = some (.socket (some j) mode) := by
    by_cases hne : name = gone
    · subst hne
      rw [Function.update_self] at hname
      cases hname
    · rw [Function.update_of_ne hne] at hname
      exact ⟨hne, hname⟩
  refine h.of_call hb hstep (fun name mode hname => ?_) (fun _ _ _ _ hname => (hold hname).2)
    (fun hphase => absurd hphase hchmod') (fun hphase => absurd hphase hrename')
  obtain ⟨hne, hname⟩ := hold hname
  obtain ⟨c, hc, hplaced⟩ := h.placed name i mode hname
  obtain rfl := Option.some.inj (hb.symm.trans hc)
  rw [Placed, hstep.keeps.1, hstep.keeps.2, htidied]
  rcases hplaced with hfile | ⟨htmp, hp | hp | ⟨e, hp⟩ | huntidy⟩
  · exact .inl hfile
  · exact absurd hp hchmod
  · exact absurd hp.1 hrename
  · rcases hgone with hgone | rfl
    · exact absurd hp (hgone e)
    · exact absurd htmp hne
  · exact .inr ⟨htmp, .inr (.inr (.inr huntidy))⟩

/-- The sockets stay in order in a call of a daemon. -/
theorem Orderly.call (h : s.Orderly file) {i : ℕ} {b b' : Binder} {es : Entries}
    (hb : s.binders[i]? = some b) (hstep : BindStep file i s.entries b es b') :
    Orderly file { entries := es, binders := s.binders.set i b' } := by
  -- Of the daemon's own socket, and of another's.
  have hplaced {name : String} {mode : ℕ}
      (hname : s.entries name = some (.socket (some i) mode)) : Placed file b name mode := by
    obtain ⟨c, hc, hplaced⟩ := h.placed name i mode hname
    exact Option.some.inj (hb.symm.trans hc) ▸ hplaced
  have hother {j mode mode' : ℕ} (hj : j ≠ i)
      (hnode : some (Node.socket (some i) mode) = some (.socket (some j) mode')) : False := by
    cases hnode
    exact hj rfl
  cases hstep with
  | goes hgoes => exact h.goes hb hgoes
  | removed hp hf =>
    refine h.removes hb (.removed hp hf) rfl ?_ ?_ (.inl fun e => ?_) ?_ ?_ <;> simp [hp]
  | cleared hp ht =>
    refine h.removes hb (.cleared hp ht) rfl ?_ ?_ (.inr rfl) ?_ ?_ <;> simp [hp]
  | cleaned hp ht =>
    refine h.removes hb (.cleaned hp ht) rfl ?_ ?_ (.inr rfl) ?_ ?_ <;> simp [hp]
  | untidied hp =>
    refine h.of_call hb (.untidied hp) (fun name mode hname => ?_) (fun _ _ _ _ hname => hname)
      (fun hphase => by cases hphase) (fun hphase => by cases hphase)
    exact (hplaced hname).imp_right fun ⟨htmp, _⟩ => ⟨htmp, .inr (.inr (.inr rfl))⟩
  | bound hp ht =>
    refine h.of_call hb (.bound hp ht) (fun name mode hname => ?_)
      (fun name j mode hj hname => ?_) (fun _ => ⟨b.bindMode, Function.update_self _ _ _⟩)
      (fun hphase => by cases hphase)
    · by_cases hne : name = tmpName file b.pid
      · exact .inr ⟨hne, .inl rfl⟩
      · rw [Function.update_of_ne hne] at hname
        exact .inl ((hplaced hname).resolve_right fun htmp => hne htmp.1)
    · by_cases hne : name = tmpName file b.pid
      · subst hne
        rw [Function.update_self] at hname
        exact (hother hj hname).elim
      · rwa [Function.update_of_ne hne] at hname
  | @set owner mode' hp ht =>
    obtain ⟨mode₀, hmode₀⟩ := h.chmod i b hb hp
    cases ht.symm.trans hmode₀
    refine h.of_call hb (.set hp ht) (fun name mode hname => ?_)
      (fun name j mode hj hname => ?_) (fun hphase => by cases hphase)
      (fun _ => Function.update_self _ _ _)
    · by_cases hne : name = tmpName file b.pid
      · subst hne
        rw [Function.update_self] at hname
        cases hname
        exact .inr ⟨rfl, .inr (.inl ⟨rfl, rfl⟩)⟩
      · rw [Function.update_of_ne hne] at hname
        exact .inl ((hplaced hname).resolve_right fun htmp => hne htmp.1)
    · by_cases hne : name = tmpName file b.pid
      · subst hne
        rw [Function.update_self] at hname
        exact (hother hj hname).elim
      · rwa [Function.update_of_ne hne] at hname
  | moved hp ht =>
    cases ht.symm.trans (h.rename i b hb hp)
    have hold {name : String} {j mode : ℕ} (hne : name ≠ file)
        (hname : Function.update (Function.update s.entries (tmpName file b.pid) none) file
          (some (.socket (some i) b.mode)) name = some (.socket (some j) mode)) :
        name ≠ tmpName file b.pid ∧ s.entries name = some (.socket (some j) mode) := by
      rw [Function.update_of_ne hne] at hname
      by_cases htmp : name = tmpName file b.pid
      · subst htmp
        rw [Function.update_self] at hname
        cases hname
      · rw [Function.update_of_ne htmp] at hname
        exact ⟨htmp, hname⟩
    refine h.of_call hb (.moved hp ht) (fun name mode hname => ?_)
      (fun name j mode hj hname => ?_) (fun hphase => by cases hphase)
      (fun hphase => by cases hphase)
    · by_cases hne : name = file
      · subst hne
        rw [Function.update_self] at hname
        cases hname
        exact .inl ⟨rfl, rfl⟩
      · obtain ⟨htmp, hname⟩ := hold hne hname
        exact .inl ((hplaced hname).resolve_right fun h => htmp h.1)
    · by_cases hne : name = file
      · subst hne
        rw [Function.update_self] at hname
        exact (hother hj hname).elim
      · exact (hold hne hname).2

/-- The sockets stay in order when another process minds them. -/
theorem Orderly.other (h : s.Orderly file) {name : String} {node : Option Node}
    (hminds : s.Minds file name node) :
    Orderly file { s with entries := Function.update s.entries name node } := by
  have htmp {i : ℕ} {b : Binder} (hb : s.binders[i]? = some b) :
      Function.update s.entries name node (tmpName file b.pid) =
        s.entries (tmpName file b.pid) :=
    Function.update_of_ne (fun hname => hminds.1 b (List.mem_of_getElem? hb) hname.symm) _ _
  refine ⟨h.nodup, fun name' i mode hname' => ?_, fun i b hb hphase => ?_,
    fun i b hb hphase => ?_⟩
  · by_cases hne : name' = name
    · subst hne
      exact absurd ((Function.update_self _ _ _).symm.trans hname') (hminds.2 i mode)
    · exact h.placed name' i mode ((Function.update_of_ne hne _ _).symm.trans hname')
  · exact (h.chmod i b hb hphase).imp fun mode hmode => (htmp hb).trans hmode
  · exact (htmp hb).trans (h.rename i b hb hphase)

/-- The sockets stay in order in every fair step. -/
theorem Orderly.step (h : s.Orderly file) {l : StartupLabel} (hfair : s.Fair file l)
    (hs : s.step file l = some s') : s'.Orderly file := by
  rcases step_cases hs with ⟨i, fails, b, es, b', rfl, hb, hstep, rfl⟩ | ⟨name, node, rfl, rfl⟩
  · exact h.call hb hstep
  · exact h.other hfair

/-- The sockets are in order before the first call. -/
theorem Fresh.orderly (h : s.Fresh) : s.Orderly file where
  nodup := h.nodup
  placed name i mode hname := absurd hname (h.unowned name i mode)
  chmod i b hb hphase := by
    rw [(h.phase b (List.mem_of_getElem? hb)).1] at hphase
    cases hphase
  rename i b hb hphase := by
    rw [(h.phase b (List.mem_of_getElem? hb)).1] at hphase
    cases hphase

/-- Whatever the daemons that start do, which calls fail, and what other processes do besides, as
long as they leave the temporary names alone and put no daemon's socket anywhere: at the socket path
there is never a daemon's socket with other permission bits than those that the daemon was told to
give it, and a daemon that has returned has left no socket under its temporary name, unless the call
that was to remove it has failed. -/
theorem mode_of_reaches (h₀ : s₀.Fresh) (h : Reaches (Startup.step file) (Fair file) s₀ s) {i : ℕ}
    {b : Binder} (hb : s.binders[i]? = some b) :
    (∀ mode, s.entries file = some (.socket (some i) mode) → mode = b.mode) ∧
      ((b.phase = .bound ∨ ∃ e, b.phase = .failed e) → b.tidied = true →
        ∀ mode, s.entries (tmpName file b.pid) ≠ some (.socket (some i) mode)) := by
  have horderly : s.Orderly file :=
    h.invariant h₀.orderly fun _ _ _ _ h hfair hs => h.step hfair hs
  have hplaced {name : String} {mode : ℕ}
      (hname : s.entries name = some (.socket (some i) mode)) : Placed file b name mode := by
    obtain ⟨c, hc, hplaced⟩ := horderly.placed name i mode hname
    exact Option.some.inj (hb.symm.trans hc) ▸ hplaced
  constructor
  · intro mode hmode
    rcases hplaced hmode with ⟨-, hmode⟩ | ⟨htmp, -⟩
    · exact hmode
    · exact absurd htmp.symm (tmpName_ne file b.pid)
  · intro hdone htidied mode hmode
    rcases hplaced hmode with ⟨hfile, -⟩ | ⟨-, hp | ⟨hp, -⟩ | ⟨e, hp⟩ | huntidy⟩
    · exact tmpName_ne file b.pid hfile
    · rcases hdone with hd | ⟨e, hd⟩ <;> rw [hd] at hp <;> cases hp
    · rcases hdone with hd | ⟨e, hd⟩ <;> rw [hd] at hp <;> cases hp
    · rcases hdone with hd | ⟨e, hd⟩ <;> rw [hd] at hp <;> cases hp
    · exact absurd (htidied.symm.trans huntidy) (by decide)

/-- The socket path of the runs below. -/
def samplePath : String := "vigild.sock"

instance (s : Startup) (l : StartupLabel) : Decidable (s.Alone l) :=
  match l with
  | .call _ _ => isTrue trivial
  | .other _ _ => isFalse id

/-- Without other processes a run is one with fair ones. -/
theorem Alone.fair {l : StartupLabel} (h : s.Alone l) : s.Fair file l := by
  cases l with
  | call => trivial
  | other => exact h.elim

/-- Two daemons that start in an empty directory. -/
def sampleStart (pid pid' : ℕ) : Startup where
  entries _ := none
  binders := [{ pid, mode := 384, bindMode := 493 }, { pid := pid', mode := 438, bindMode := 493 }]

/-- The calls of a daemon, none of which fails. -/
def callsOf (i n : ℕ) : List StartupLabel := List.replicate n (.call i false)

/-- The first daemon cannot move its socket into place and removes it, the second one starts. -/
def oneFails : List StartupLabel :=
  callsOf 0 5 ++ callsOf 1 3 ++ [.call 0 true, .call 0 false] ++ callsOf 1 4

/-- Two daemons, the first of which has failed. -/
theorem mode_of_oneFails : ∃ (s : Startup) (b c : Binder), s.binders = [b, c] ∧
    b.phase = .failed .moving ∧ s.entries samplePath = some (.socket (some 1) 438) ∧
      (∀ mode, s.entries (tmpName samplePath b.pid) ≠ some (.socket (some 0) mode)) ∧
        ∀ mode, s.entries samplePath = some (.socket (some 1) mode) → mode = c.mode := by
  have hrun : (runIf (Startup.step samplePath) Alone (sampleStart 1 7) oneFails).isSome = true := by
    decide
  have hr : Reaches (Startup.step samplePath) (Fair samplePath) (sampleStart 1 7) _ :=
    (Reaches.getD_runIf (d := sampleStart 1 7) hrun).mono fun _ _ => Alone.fair
  have h₀ : (sampleStart 1 7).Fresh := ⟨by decide, by decide, fun _ _ _ h => by cases h⟩
  exact ⟨_, _, _, rfl, rfl, rfl, (mode_of_reaches h₀ hr (i := 0) rfl).2 (.inr ⟨_, rfl⟩) rfl,
    (mode_of_reaches h₀ hr (i := 1) rfl).1⟩

/-- The first daemon binds its socket, the second one takes it for one that was left and binds its
own, and the first one moves this into place. -/
def mixedUp : List StartupLabel := callsOf 0 4 ++ callsOf 1 5 ++ callsOf 0 2

/-- Of two daemons with one process id the first has moved the socket of the second into place, with
permission bits that are not those of the second. -/
theorem exists_other_mode : ∃ s, Reaches (Startup.step samplePath) Alone (sampleStart 1 1) s ∧
    s.entries samplePath = some (.socket (some 1) 384) ∧
      s.binders[1]?.map Binder.mode = some 438 := by
  have hrun : (runIf (Startup.step samplePath) Alone (sampleStart 1 1) mixedUp).isSome = true := by
    decide
  exact ⟨_, Reaches.getD_runIf (d := sampleStart 1 1) hrun, rfl, rfl⟩

/-! ## What is never replaced -/

/-- The daemon has found nothing at the socket path, or a socket. -/
def Accepted (b : Binder) : Prop := b.phase ≠ .inspect ∧ ∀ e, b.phase ≠ .failed e

/-- The daemon has found nothing at its temporary name, or a socket. -/
def Clears (b : Binder) : Prop :=
  b.phase = .removeTmp ∨ b.phase = .chmod ∨ b.phase = .rename ∨ ∃ e, b.phase = .cleanup e

/-- There was nothing under a name at the start, or a socket. -/
def Replaceable (s₀ : Startup) (name : String) : Prop :=
  ∀ node, s₀.entries name = some node → node.isSocket = true

/-- What is not a socket is as it was at the start. -/
structure Kept (file : String) (s₀ s : Startup) : Prop where
  kept : ∀ name node, s₀.entries name = some node → node.isSocket = false →
    s.entries name = some node
  frame : ∀ name, name ≠ file → (∀ b ∈ s.binders, name ≠ tmpName file b.pid) →
    s.entries name = s₀.entries name
  accepted : ∀ b ∈ s.binders, Accepted b → Replaceable s₀ file
  clears : ∀ b ∈ s.binders, Clears b → Replaceable s₀ (tmpName file b.pid)

/-- A daemon that has not accepted the socket path changes nothing. -/
theorem entries_of_not_accepted {i : ℕ} {b b' : Binder} {es es' : Entries}
    (h : BindStep file i es b es' b') (hb : ¬Accepted b) : es' = es := by
  cases h with
  | goes | untidied => rfl
  | removed hp | cleared hp | bound hp | set hp | moved hp | cleaned hp =>
    exact absurd ⟨by simp [hp], by simp [hp]⟩ hb

/-- A daemon that has not found its temporary name clear leaves what is there. -/
theorem entries_of_not_clears {i : ℕ} {b b' : Binder} {es es' : Entries} {name : String}
    {node : Node} (h : BindStep file i es b es' b') (hb : ¬Clears b) (hfile : name ≠ file)
    (hnode : es name = some node) : es' name = some node := by
  cases h with
  | goes | untidied => exact hnode
  | removed => exact (Function.update_of_ne hfile _ _).trans hnode
  | bound hp ht =>
    refine (Function.update_of_ne (fun hname => ?_) _ _).trans hnode
    rw [← hname, hnode] at ht
    cases ht
  | cleared hp => exact absurd (.inl hp) hb
  | set hp => exact absurd (.inr (.inl hp)) hb
  | moved hp => exact absurd (.inr (.inr (.inl hp))) hb
  | cleaned hp => exact absurd (.inr (.inr (.inr ⟨_, hp⟩))) hb

/-- A name under which nothing is found, or a socket. -/
theorem Kept.replaceable (h : Kept file s₀ s) {name : String}
    (hname : ∀ node, s.entries name = some node → node.isSocket = true) :
    Replaceable s₀ name := by
  intro node hnode
  cases hsocket : node.isSocket with
  | true => rfl
  | false => exact hsocket.symm.trans (hname node (h.kept name node hnode hsocket))

/-- A name under which a socket is found. -/
theorem Kept.replaceable_of_socket (h : Kept file s₀ s) {name : String} {owner : Option ℕ}
    {mode : ℕ} (hname : s.entries name = some (.socket owner mode)) : Replaceable s₀ name :=
  h.replaceable fun node hnode => by
    rw [hname] at hnode
    cases hnode
    rfl

/-- A name under which nothing is found. -/
theorem Kept.replaceable_of_none (h : Kept file s₀ s) {name : String}
    (hname : s.entries name = none) : Replaceable s₀ name :=
  h.replaceable fun node hnode => by
    rw [hname] at hnode
    cases hnode

/-- What a daemon accepts at the path after a call may be replaced. -/
theorem Kept.accepts (h : Kept file s₀ s) {i : ℕ} {b b' : Binder} {es : Entries}
    (hb : s.binders[i]? = some b) (hstep : BindStep file i s.entries b es b')
    (ha : Accepted b') : Replaceable s₀ file := by
  by_cases hbefore : Accepted b
  · exact h.accepted b (List.mem_of_getElem? hb) hbefore
  cases hstep with
  | removed hp | cleared hp | bound hp | set hp | moved hp | cleaned hp | untidied hp =>
    exact absurd ⟨by simp [hp], by simp [hp]⟩ hbefore
  | goes hgoes =>
    cases hgoes with
    | refused => exact absurd rfl (ha.2 _)
    | free hp hf => exact h.replaceable_of_none hf
    | stale hp hf => exact h.replaceable_of_socket hf
    | notRemoved hp | created hp | notCreated hp | leftover hp | noLeftover hp | notCleared hp
    | notBound hp | noSocket hp | notSet hp | notMoved hp | listening hp | notListening hp =>
      exact absurd ⟨by simp [hp], by simp [hp]⟩ hbefore

/-- What a daemon clears at its temporary path after a call may be replaced. -/
theorem Kept.clear (h : Kept file s₀ s) {i : ℕ} {b b' : Binder} {es : Entries}
    (hb : s.binders[i]? = some b) (hstep : BindStep file i s.entries b es b')
    (hc : Clears b') : Replaceable s₀ (tmpName file b'.pid) := by
  have hbefore (hp : Clears b) : Replaceable s₀ (tmpName file b.pid) :=
    h.clears b (List.mem_of_getElem? hb) hp
  cases hstep with
  | goes hgoes =>
    cases hgoes with
    | leftover hp ht => exact h.replaceable_of_socket ht
    | noSocket hp | notSet hp => exact hbefore (.inr (.inl hp))
    | notMoved hp => exact hbefore (.inr (.inr (.inl hp)))
    | _ => simp [Clears] at hc
  | bound hp ht => exact h.replaceable_of_none ht
  | set hp => exact hbefore (.inr (.inl hp))
  | _ => simp [Clears] at hc

/-- A call of a daemon leaves what is not a socket as it was at the start. -/
theorem Kept.call (h : Kept file s₀ s) {i : ℕ} {b b' : Binder} {es : Entries}
    (hb : s.binders[i]? = some b) (hstep : BindStep file i s.entries b es b') :
    Kept file s₀ { entries := es, binders := s.binders.set i b' } := by
  have hmem := List.mem_of_getElem? hb
  have hset {c : Binder} (hc : c ∈ s.binders.set i b') : c = b' ∨ c ∈ s.binders := by
    exact (List.mem_or_eq_of_mem_set hc).symm
  refine ⟨fun name node hnode hs => ?_, fun name hfile htmp => ?_, fun c hc ha => ?_,
    fun c hc hclears => ?_⟩
  · have hkept := h.kept name node hnode hs
    have hne {name' : String} (hr : Replaceable s₀ name') : name ≠ name' := by
      rintro rfl
      exact absurd (hr node hnode) (by simp [hs])
    by_cases ha : Accepted b
    · have hfile : name ≠ file := hne (h.accepted b hmem ha)
      by_cases hclears : Clears b
      · exact (hstep.frame hfile (hne (h.clears b hmem hclears))).trans hkept
      · exact entries_of_not_clears hstep hclears hfile hkept
    · exact (congrFun (entries_of_not_accepted hstep ha) name).trans hkept
  · have hget : b' ∈ s.binders.set i b' :=
      List.mem_set (List.getElem?_eq_some_iff.mp hb).1 b'
    have hpid := htmp b' hget
    rw [hstep.keeps.1] at hpid
    refine (hstep.frame hfile hpid).trans (h.frame name hfile fun c hc => ?_)
    obtain ⟨j, hj⟩ := List.getElem?_of_mem hc
    by_cases hji : j = i
    · subst hji
      obtain rfl := Option.some.inj (hb.symm.trans hj)
      exact hpid
    · refine htmp c (List.mem_of_getElem? (i := j) ?_)
      rw [List.getElem?_set_ne (fun hij => hji hij.symm), hj]
  · rcases hset hc with rfl | hc
    · exact h.accepts hb hstep ha
    · exact h.accepted c hc ha
  · rcases hset hc with rfl | hc
    · exact h.clear hb hstep hclears
    · exact h.clears c hc hclears

/-- Without other processes, daemons that start, in whatever order their calls come and whichever
fail, leave everything as it was but sockets at the socket path and at their temporary names. Where
something that is not a socket is at the socket path, no daemon comes past its first call. -/
theorem untouched_of_reaches (h₀ : ∀ b ∈ s₀.binders, b.phase = .inspect)
    (h : Reaches (Startup.step file) Alone s₀ s) (name : String) :
    (∀ node, s₀.entries name = some node → node.isSocket = false →
      s.entries name = some node) ∧
    (name ≠ file → (∀ b ∈ s.binders, name ≠ tmpName file b.pid) →
      s.entries name = s₀.entries name) ∧
    ∀ node, s₀.entries file = some node → node.isSocket = false →
      ∀ b ∈ s.binders, b.phase = .inspect ∨ ∃ e, b.phase = .failed e := by
  have hkept : Kept file s₀ s := by
    refine h.invariant ⟨fun _ _ hnode _ => hnode, fun _ _ _ => rfl, fun b hb ha => ?_,
      fun b hb hc => ?_⟩ fun t l t' _ ht hl hs => ?_
    · exact absurd (h₀ b hb) ha.1
    · simp [Clears, h₀ b hb] at hc
    · rcases step_cases hs with ⟨i, fails, b, es, b', rfl, hb, hstep, rfl⟩ | ⟨_, _, rfl, -⟩
      · exact ht.call hb hstep
      · exact hl.elim
  refine ⟨hkept.kept name, hkept.frame name, fun node hnode hs b hb => ?_⟩
  by_contra hcon
  have ha : Accepted b := ⟨fun hp => hcon (.inl hp), fun e hp => hcon (.inr ⟨e, hp⟩)⟩
  exact absurd (hkept.accepted b hb ha node hnode) (by simp [hs])

/-- A stale socket at the socket path, and a file under the temporary name of the second daemon. -/
def occupied : Startup :=
  { sampleStart 1 7 with
    entries := fun name =>
      if name = samplePath then some (.socket none 493)
      else if name = tmpName samplePath 7 then some .file
      else none }

/-- The first daemon starts, and the second one cannot bind its socket. -/
def occupiedCalls : List StartupLabel := callsOf 0 8 ++ callsOf 1 5

/-- The second daemon has left the file, after it has removed the socket of the first. -/
theorem untouched_of_occupied : ∃ s : Startup, s.entries samplePath = none ∧
    s.binders.map Binder.phase = [.bound, .failed .binding] ∧
      s.entries (tmpName samplePath 7) = some .file := by
  have hrun : (runIf (Startup.step samplePath) Alone occupied occupiedCalls).isSome = true := by
    decide
  exact ⟨_, rfl, rfl, (untouched_of_reaches (by decide) (Reaches.getD_runIf (d := occupied) hrun)
    (tmpName samplePath 7)).1 .file rfl rfl⟩

/-! ## What clients find -/

/-- An error of a daemon that has found the socket path free, or has made it so. -/
def LateError (e : BindError) : Prop :=
  e = .creatingDir ∨ e = .binding ∨ e = .chmod ∨ e = .moving

/-- The daemon has found the socket path free, or has made it so, and has put nothing there. -/
def Withheld (b : Binder) : Prop :=
  match b.phase with
  | .createDir | .inspectTmp | .removeTmp | .bind | .chmod | .rename | .cleanup _ => True
  | .failed e => LateError e
  | .inspect | .removeStale | .listen | .bound => False

/-- The daemon has moved its socket into place. -/
def Served (b : Binder) : Prop :=
  b.phase = .listen ∨ b.phase = .bound ∨ b.phase = .failed .listener

/-- Where a daemon has moved its socket into place, one that has done so has its socket there, or
there is one that has made the path free. -/
structure Endpoint (file : String) (s : Startup) : Prop where
  orderly : s.Orderly file
  late : ∀ (i : ℕ) (b : Binder) (e : BindError), s.binders[i]? = some b → b.phase = .cleanup e →
    LateError e
  served : (∃ (i : ℕ) (b : Binder), s.binders[i]? = some b ∧ Served b) →
    (∃ (i : ℕ) (b : Binder), s.binders[i]? = some b ∧ Served b ∧
      s.entries file = some (.socket (some i) b.mode)) ∨
    ∃ (i : ℕ) (b : Binder), s.binders[i]? = some b ∧ Withheld b

/-- A call withholds the socket, puts it into place, or leaves the path as it was. -/
theorem Endpoint.cases (h : Endpoint file s) {i : ℕ} {b b' : Binder} {es : Entries}
    (hb : s.binders[i]? = some b) (hstep : BindStep file i s.entries b es b') :
    Withheld b' ∨ Served b' ∧ es file = some (.socket (some i) b'.mode) ∨
      es file = s.entries file ∧ ¬Withheld b ∧ (Served b' ↔ Served b) := by
  cases hstep with
  | goes hgoes =>
    cases hgoes with
    | free | created | leftover | noLeftover | notCleared | noSocket | notSet | notMoved =>
      exact .inl trivial
    | notCreated => exact .inl (.inl rfl)
    | notBound => exact .inl (.inr (.inl rfl))
    | refused hp he =>
      refine .inr (.inr ⟨rfl, by simp [Withheld, hp], ?_⟩)
      rcases he with rfl | rfl | rfl <;> simp [Served, hp]
    | stale hp | notRemoved hp | listening hp | notListening hp =>
      exact .inr (.inr ⟨rfl, by simp [Withheld, hp], by simp [Served, hp]⟩)
  | removed | cleared | bound | set => exact .inl trivial
  | moved hp ht =>
    refine .inr (.inl ⟨.inl rfl, (Function.update_self _ _ _).trans ?_⟩)
    exact ht.symm.trans (h.orderly.rename i b hb hp)
  | cleaned hp | untidied hp => exact .inl (h.late i b _ hb hp)

/-- A call of a daemon keeps what is known of the place of the socket. -/
theorem Endpoint.call (h : Endpoint file s) {i : ℕ} {b b' : Binder} {es : Entries}
    (hb : s.binders[i]? = some b) (hstep : BindStep file i s.entries b es b') :
    Endpoint file { entries := es, binders := s.binders.set i b' } := by
  have hget : (s.binders.set i b')[i]? = some b' :=
    List.getElem?_set_self (List.getElem?_eq_some_iff.mp hb).1
  have hother {j : ℕ} {c : Binder} (hj : j ≠ i) (hc : s.binders[j]? = some c) :
      (s.binders.set i b')[j]? = some c := by
    rw [List.getElem?_set_ne (fun hij => hj hij.symm), hc]
  refine ⟨h.orderly.call hb hstep, fun j c e hc hp => ?_, fun ⟨j, c, hc, hserved⟩ => ?_⟩
  · rcases getElem?_set_cases hc with ⟨rfl, rfl⟩ | ⟨-, hc⟩
    · cases hstep with
      | goes hgoes =>
        cases hgoes with
        | notSet | notMoved => cases hp; simp [LateError]
        | _ => cases hp
      | _ => cases hp
    · exact h.late j c e hc hp
  · rcases h.cases hb hstep with hw | ⟨hs, hfile⟩ | ⟨hfile, hw, hiff⟩
    · exact .inr ⟨i, b', hget, hw⟩
    · exact .inl ⟨i, b', hget, hs, hfile⟩
    · have hbefore : ∃ (k : ℕ) (d : Binder), s.binders[k]? = some d ∧ Served d := by
        rcases getElem?_set_cases hc with ⟨rfl, rfl⟩ | ⟨-, hc⟩
        · exact ⟨j, b, hb, hiff.mp hserved⟩
        · exact ⟨j, c, hc, hserved⟩
      rcases h.served hbefore with ⟨k, d, hd, hsd, hd'⟩ | ⟨k, d, hd, hwd⟩
      · by_cases hk : k = i
        · subst hk
          obtain rfl := Option.some.inj (hb.symm.trans hd)
          exact .inl ⟨k, b', hget, hiff.mpr hsd, by rw [hstep.keeps.2]; exact hfile.trans hd'⟩
        · exact .inl ⟨k, d, hother hk hd, hsd, hfile.trans hd'⟩
      · refine .inr ⟨k, d, hother (fun hk => ?_) hd, hwd⟩
        subst hk
        exact hw (Option.some.inj (hb.symm.trans hd) ▸ hwd)

/-- Without other processes, when all the daemons have returned and one has returned its listener:
at the socket path is the socket of a daemon, with its permission bits, that has returned its
listener or failed to do just that, or a daemon has failed after it had found the path free or made
it so. -/
theorem endpoint_of_reaches (h₀ : s₀.Fresh) (h : Reaches (Startup.step file) Alone s₀ s)
    (hdone : ∀ b ∈ s.binders, b.phase = .bound ∨ ∃ e, b.phase = .failed e)
    (hbound : ∃ b ∈ s.binders, b.phase = .bound) :
    (∃ (i : ℕ) (b : Binder), s.binders[i]? = some b ∧
      (b.phase = .bound ∨ b.phase = .failed .listener) ∧
        s.entries file = some (.socket (some i) b.mode)) ∨
      ∃ b ∈ s.binders, ∃ e, LateError e ∧ b.phase = .failed e := by
  have hphase {i : ℕ} {b : Binder} (hb : s₀.binders[i]? = some b) : b.phase = .inspect :=
    (h₀.phase b (List.mem_of_getElem? hb)).1
  have hend : Endpoint file s := by
    refine h.invariant ⟨h₀.orderly, fun i b e hb hp => ?_, fun ⟨i, b, hb, hs⟩ => ?_⟩
      fun t l t' _ ht hl hs => ?_
    · rw [hphase hb] at hp
      cases hp
    · simp [Served, hphase hb] at hs
    · rcases step_cases hs with ⟨i, fails, b, es, b', rfl, hb, hstep, rfl⟩ | ⟨_, _, rfl, -⟩
      · exact ht.call hb hstep
      · exact hl.elim
  obtain ⟨b, hb, hp⟩ := hbound
  obtain ⟨i, hi⟩ := List.getElem?_of_mem hb
  rcases hend.served ⟨i, b, hi, .inr (.inl hp)⟩ with ⟨j, c, hc, hs, hfile⟩ | ⟨j, c, hc, hw⟩
  · refine .inl ⟨j, c, hc, ?_, hfile⟩
    rcases hs with hl | hs
    · rcases hdone c (List.mem_of_getElem? hc) with hd | ⟨e, hd⟩ <;> rw [hl] at hd <;> cases hd
    · exact hs
  · have hmem := List.mem_of_getElem? hc
    rcases hdone c hmem with hd | ⟨e, hd⟩
    · simp [Withheld, hd] at hw
    · exact .inr ⟨c, hmem, e, by simpa [Withheld, hd] using hw, hd⟩

/-- The first daemon starts. The second one takes its socket for one that was left, removes it, and
cannot create the directory. -/
def stolen : List StartupLabel := callsOf 0 7 ++ callsOf 1 2 ++ [.call 1 true]

/-- After that the daemon that serves has no socket. -/
theorem endpoint_of_stolen : ∃ s : Startup, s.entries samplePath = none ∧
    (∃ b ∈ s.binders, b.phase = .bound) ∧
      ∃ b ∈ s.binders, ∃ e, LateError e ∧ b.phase = .failed e := by
  have hrun : (runIf (Startup.step samplePath) Alone (sampleStart 1 7) stolen).isSome = true := by
    decide
  have hr := Reaches.getD_runIf (d := sampleStart 1 7) hrun
  have h₀ : (sampleStart 1 7).Fresh := ⟨by decide, by decide, fun _ _ _ h => by cases h⟩
  refine ⟨_, rfl, ⟨_, List.mem_cons_self, rfl⟩,
    (endpoint_of_reaches h₀ hr ?_ ⟨_, List.mem_cons_self, rfl⟩).resolve_left ?_⟩
  · exact List.forall_mem_cons.mpr ⟨.inl rfl,
      List.forall_mem_cons.mpr ⟨.inr ⟨_, rfl⟩, List.forall_mem_nil _⟩⟩
  · rintro ⟨i, b, -, -, hfile⟩
    cases hfile

end Startup

end Vigil.Socket
