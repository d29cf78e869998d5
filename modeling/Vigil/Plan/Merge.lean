import Vigil.Lib.Overlay
import Vigil.Plan.Alert
import Vigil.Plan.Check

/-!
# Merging entries

The functions `merge_service`, `merge_check` and `merge_alert`, by which an entry of a later layer
is merged into the entry of the earlier layers, and the override modes. The fields are of a few
kinds: a plain assignment, an option or a string that wins where it is set, a list that is united,
and a map that is extended. For each kind merging is associative and merging a value into itself
changes nothing, and so it is for the entries (`Merger`) and for the override modes over them
(`Merger.lawful_put`).
-/

namespace Vigil

/-! ## The kinds of fields -/

/-- `opt!`: the overlay's value if it is set. -/
def opt {α : Type*} (base overlay : Option α) : Option α := overlay.or base

/-- `if !list.contains(v) { list.push(v) }`. -/
def pushNew (list : List String) (v : String) : List String :=
  if v ∈ list then list else list ++ [v]

/-- The loop that adds the overlay's elements to the list, those that it does not have. -/
def union (base overlay : List String) : List String := overlay.foldl pushNew base

/-- `extend`: the overlay's entries are inserted one after another. -/
def extend {ν : Type*} (base overlay : IndexMap String ν) : IndexMap String ν :=
  overlay.entries.foldl (fun m e => m.insert e.1 e.2) base

/-- A string or a list that wins where it is not empty. -/
def nonEmpty {α : Type*} (isEmpty : α → Bool) (base overlay : α) : α :=
  if isEmpty overlay then base else overlay

section

variable {α : Type*}

/-- `opt!` is associative. -/
theorem opt_assoc (a b c : Option α) : opt (opt a b) c = opt a (opt b c) := by
  simp [opt, Option.or_assoc]

/-- `opt!` of a value and itself is the value. -/
@[simp] theorem opt_self (a : Option α) : opt a a = a := by simp [opt]

/-- The non-empty value wins associatively. -/
theorem nonEmpty_assoc (p : α → Bool) (a b c : α) :
    nonEmpty p (nonEmpty p a b) c = nonEmpty p a (nonEmpty p b c) := by
  unfold nonEmpty
  split_ifs <;> rfl

/-- A value wins against itself. -/
@[simp] theorem nonEmpty_self (p : α → Bool) (a : α) : nonEmpty p a a = a := by
  simp [nonEmpty]

end

/-- The elements of a list stay in the union. -/
theorem mem_union_of_mem {v : String} {base : List String} (h : v ∈ base) (overlay : List String) :
    v ∈ union base overlay := by
  induction overlay generalizing base with
  | nil => exact h
  | cons w rest ih =>
    refine ih ?_
    unfold pushNew
    split_ifs
    · exact h
    · exact List.mem_append_left _ h

/-- The overlay's elements are in the union. -/
theorem mem_union_of_mem_overlay {v : String} {overlay : List String} (h : v ∈ overlay)
    (base : List String) : v ∈ union base overlay := by
  induction overlay generalizing base with
  | nil => cases h
  | cons w rest ih =>
    rcases List.mem_cons.mp h with rfl | h
    · refine mem_union_of_mem ?_ rest
      unfold pushNew
      split_ifs with hw
      · exact hw
      · exact List.mem_append_right _ List.mem_cons_self
    · exact ih h _

/-- Adding an element to the union is uniting with a list to which it is added. -/
theorem pushNew_union (a b : List String) (v : String) :
    pushNew (union a b) v = union a (pushNew b v) := by
  by_cases hv : v ∈ b
  · rw [pushNew, if_pos (mem_union_of_mem_overlay hv a), pushNew, if_pos hv]
  · rw [pushNew.eq_def b, if_neg hv, union, union, List.foldl_append]
    rfl

/-- The union is associative. -/
theorem union_assoc (a b c : List String) : union (union a b) c = union a (union b c) := by
  induction c generalizing b with
  | nil => rfl
  | cons v rest ih =>
    have hl : union (union a b) (v :: rest) = union (pushNew (union a b) v) rest := rfl
    have hr : union b (v :: rest) = union (pushNew b v) rest := rfl
    rw [hl, hr, pushNew_union, ih]

/-- Uniting with elements that are there changes nothing. -/
theorem union_eq_left {base overlay : List String} (h : ∀ v ∈ overlay, v ∈ base) :
    union base overlay = base := by
  induction overlay with
  | nil => rfl
  | cons v rest ih =>
    have hstep : union base (v :: rest) = union (pushNew base v) rest := rfl
    rw [hstep, pushNew, if_pos (h v List.mem_cons_self)]
    exact ih fun w hw => h w (List.mem_cons_of_mem _ hw)

/-- The union of a list with itself is the list. -/
@[simp] theorem union_self (a : List String) : union a a = a := union_eq_left fun _ h => h

/-- `extend` lays one map over another. -/
theorem extend_eq {ν : Type*} (a b : IndexMap String ν) :
    extend a b = IndexMap.overlay (fun _ v => v) a b := rfl

/-- `extend` is associative. -/
theorem extend_assoc {ν : Type*} (a b c : IndexMap String ν) :
    extend (extend a b) c = extend a (extend b c) := by
  simp only [extend_eq, IndexMap.overlay_assoc IndexMap.lawfulPut_snd]

/-- Extending a map by itself changes nothing. -/
@[simp] theorem extend_self {ν : Type*} (a : IndexMap String ν) : extend a a = a := by
  rw [extend_eq, IndexMap.overlay_self IndexMap.lawfulPut_snd]

/-! ## The entries -/

/-- `merge_service`. -/
def mergeService (base overlay : ServiceConfig) : ServiceConfig where
  overrideMode := base.overrideMode
  summary := opt base.summary overlay.summary
  description := opt base.description overlay.description
  command := opt base.command overlay.command
  startup := overlay.startup
  after := union base.after overlay.after
  before := union base.before overlay.before
  requires := union base.requires overlay.requires
  environment := extend base.environment overlay.environment
  user := opt base.user overlay.user
  userId := opt base.userId overlay.userId
  group := opt base.group overlay.group
  groupId := opt base.groupId overlay.groupId
  workingDir := opt base.workingDir overlay.workingDir
  stopSignal := opt base.stopSignal overlay.stopSignal
  killDelay := opt base.killDelay overlay.killDelay
  onSuccess := opt base.onSuccess overlay.onSuccess
  onFailure := opt base.onFailure overlay.onFailure
  onCheckFailure := extend base.onCheckFailure overlay.onCheckFailure
  backoffDelay := opt base.backoffDelay overlay.backoffDelay
  backoffFactor := opt base.backoffFactor overlay.backoffFactor
  backoffLimit := opt base.backoffLimit overlay.backoffLimit
  logsForward := opt base.logsForward overlay.logsForward
  logsPushSocket := opt base.logsPushSocket overlay.logsPushSocket
  logsPushAddr := opt base.logsPushAddr overlay.logsPushAddr
  logsPushFormat := opt base.logsPushFormat overlay.logsPushFormat

/-- `merge_check`. -/
def mergeCheck (base overlay : CheckConfig) : CheckConfig where
  overrideMode := base.overrideMode
  level := overlay.level
  startup := overlay.startup
  delay := opt base.delay overlay.delay
  period := opt base.period overlay.period
  timeout := opt base.timeout overlay.timeout
  threshold := opt base.threshold overlay.threshold
  http := opt base.http overlay.http
  tcp := opt base.tcp overlay.tcp
  exec := opt base.exec overlay.exec

/-- `merge_alert`. -/
def mergeAlert (base overlay : AlertConfig) : AlertConfig where
  overrideMode := base.overrideMode
  url := nonEmpty String.isEmpty base.url overlay.url
  format := overlay.format
  headers := extend base.headers overlay.headers
  labels := extend base.labels overlay.labels
  sendInfoFields := extend base.sendInfoFields overlay.sendInfoFields
  onCheck := union base.onCheck overlay.onCheck
  tlsInsecure := overlay.tlsInsecure
  tlsCa := opt base.tlsCa overlay.tlsCa
  proxy := opt base.proxy overlay.proxy
  proxyCa := opt base.proxyCa overlay.proxyCa
  noProxy := opt base.noProxy overlay.noProxy
  retryAttempts := opt base.retryAttempts overlay.retryAttempts
  retryBackoff := nonEmpty List.isEmpty base.retryBackoff overlay.retryBackoff
  bodyTemplate := opt base.bodyTemplate overlay.bodyTemplate

/-- How the entries of one kind are merged. -/
structure Merger (α : Type) where
  /-- The override mode of an entry. -/
  mode : α → Override
  merge : α → α → α
  mode_merge : ∀ a b, mode (merge a b) = mode a
  merge_assoc : ∀ a b c, merge (merge a b) c = merge a (merge b c)
  merge_self : ∀ a, merge a a = a

/-- Services are merged by `merge_service`. -/
def Merger.service : Merger ServiceConfig where
  mode := ServiceConfig.overrideMode
  merge := mergeService
  mode_merge _ _ := rfl
  merge_assoc a b c := by simp only [mergeService, opt_assoc, union_assoc, extend_assoc]
  merge_self a := by simp only [mergeService, opt_self, union_self, extend_self]

/-- Checks are merged by `merge_check`. -/
def Merger.check : Merger CheckConfig where
  mode := CheckConfig.overrideMode
  merge := mergeCheck
  mode_merge _ _ := rfl
  merge_assoc a b c := by simp only [mergeCheck, opt_assoc]
  merge_self a := by simp only [mergeCheck, opt_self]

/-- Alerts are merged by `merge_alert`. -/
def Merger.alert : Merger AlertConfig where
  mode := AlertConfig.overrideMode
  merge := mergeAlert
  mode_merge _ _ := rfl
  merge_assoc a b c := by
    simp only [mergeAlert, opt_assoc, union_assoc, extend_assoc, nonEmpty_assoc]
  merge_self a := by simp only [mergeAlert, opt_self, union_self, extend_self, nonEmpty_self]

namespace Merger

variable {α : Type} (mg : Merger α)

/-- What becomes of an entry of the plan under the entry of a layer: it is replaced, or the entry is
merged into it, or the entry is new. -/
def put : Option α → α → α
  | none, entry => entry
  | some existing, entry =>
    match mg.mode entry with
    | .replace => entry
    | .merge => mg.merge existing entry

/-- One turn of a loop of `from_layers`. -/
def putEntry (m : IndexMap String α) (e : String × α) : IndexMap String α :=
  match mg.mode e.2 with
  | .replace => m.insert e.1 e.2
  | .merge =>
    match m.get? e.1 with
    | none => m.insert e.1 e.2
    | some existing => m.insert e.1 (mg.merge existing e.2)

/-- A turn puts the entry on the plan's. -/
theorem putEntry_eq (m : IndexMap String α) (e : String × α) :
    mg.putEntry m e = m.insert e.1 (mg.put (m.get? e.1) e.2) := by
  unfold putEntry
  cases hm : mg.mode e.2 with
  | replace => cases m.get? e.1 <;> simp [put, hm]
  | merge => cases m.get? e.1 <;> simp [put, hm]

/-- The override modes keep merging associative. An entry that replaces hides what is below it, and
what is merged into it still replaces. -/
theorem lawful_put : IndexMap.LawfulPut mg.put where
  put_none _ := rfl
  put_put x v w := by
    cases x with
    | none => rfl
    | some a =>
      cases hv : mg.mode v <;> cases hw : mg.mode w <;>
        simp [put, hv, hw, mg.mode_merge, mg.merge_assoc]
  put_self v := by
    cases hv : mg.mode v <;> simp [put, hv, mg.merge_self]

/-- A loop of `from_layers` lays the layer's entries over the plan's. -/
theorem foldl_putEntry (m n : IndexMap String α) :
    n.entries.foldl mg.putEntry m = IndexMap.overlay mg.put m n := by
  rw [IndexMap.overlay, IndexMap.putAll]
  congr
  funext m e
  exact mg.putEntry_eq m e

end Merger

end Vigil
