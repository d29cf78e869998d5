import Vigil.Service.Actor

/-!
# The part of a configuration that an actor goes by

Two configurations make the same actor (`ServiceConfig.SameActor`) if on every input in every state
the actors do the same actions, with the same effects. `ServiceConfig.runtime` is all that the loop
reads from a configuration, after defaults and parsing, and configurations that agree in it make the
same actor (`ServiceConfig.sameActor_of_runtime`).
-/

namespace Vigil

open Actor (Input)

/-- What an exit policy comes to: a restart (`none`), or the state `Inactive` and perhaps an exit of
the daemon with a code. -/
def exitOutcome (success : Bool) : Option OnExit → Option (Option ℤ)
  | some .ignore => some none
  | some .shutdown => some (some (if success then 0 else 10))
  | some .failureShutdown => some (some 10)
  | some .successShutdown => some (some 0)
  | some .restart | none => none

/-- What an actor reads from its configuration. -/
structure Runtime where
  spawn : SpawnSpec
  stopSignal : Signal
  killDelay : ℕ
  onSuccess : Option (Option ℤ)
  onFailure : Option (Option ℤ)
  backoffDelay : ℕ
  backoffLimit : ℕ
  /-- The delay after the present one. -/
  nextBackoff : ℕ → ℕ

/-- The runtime part of a configuration. -/
def ServiceConfig.runtime (c : ServiceConfig) : Runtime where
  spawn := c.spawnSpec
  stopSignal := c.stopSignal.getD .sigterm
  killDelay := durationOr c.killDelay defaultKillDelay
  onSuccess := exitOutcome true c.onSuccess
  onFailure := exitOutcome false c.onFailure
  backoffDelay := durationOr c.backoffDelay defaultBackoffDelay
  backoffLimit := durationOr c.backoffLimit defaultBackoffLimit
  nextBackoff delay := Actor.nextBackoff { name := "", config := c, currentBackoff := delay }

namespace Actor

/-- The actor with another configuration. -/
def withConfig (a : Actor) (c : ServiceConfig) : Actor := { a with config := c }

end Actor

/-- Two configurations make the same actor: in every state, on every input, with every effect. -/
structure ServiceConfig.SameActor (c c' : ServiceConfig) : Prop where
  script : ∀ (a : Actor) inp, (a.withConfig c).script inp = (a.withConfig c').script inp
  exec : ∀ (a : Actor) i, ((a.withConfig c).exec i).withConfig c' = (a.withConfig c').exec i
  effect : ∀ (a : Actor) i, (a.withConfig c).effect i = (a.withConfig c').effect i

/-- A policy's actions are settled by its outcome. -/
theorem applyExitPolicy_eq (a : Actor) (success : Bool) :
    a.applyExitPolicy success =
      match exitOutcome success (a.exitPolicy success) with
      | none => if a.backoffLimitExceeded then [.transition .error false]
        else [.nextBackoff, .transition .backoff false, .armBackoff a.currentBackoff]
      | some none => [.transition .inactive false]
      | some (some code) => [.transition .inactive false, .send (.daemonShutdown code)] := by
  unfold Actor.applyExitPolicy
  cases a.exitPolicy success with
  | none => rfl
  | some policy => cases policy <;> rfl

namespace ServiceConfig

variable {c c' : ServiceConfig}

/-- Configurations that agree in their runtime part make the same actor. -/
theorem sameActor_of_runtime (h : c.runtime = c'.runtime) : c.SameActor c' := by
  -- What an actor computes from its configuration is in the runtime part, and so are the handlers.
  have hspawn : c.spawnSpec = c'.spawnSpec := congrArg Runtime.spawn h
  have hcommand : c.command = c'.command := congrArg SpawnSpec.command hspawn
  have hsignal : c.stopSignal.getD .sigterm = c'.stopSignal.getD .sigterm :=
    congrArg Runtime.stopSignal h
  have hkill : ∀ a : Actor, (a.withConfig c).killDelay = (a.withConfig c').killDelay :=
    fun _ => congrArg Runtime.killDelay h
  have hdelay : durationOr c.backoffDelay defaultBackoffDelay =
      durationOr c'.backoffDelay defaultBackoffDelay := congrArg Runtime.backoffDelay h
  have hnext : ∀ a : Actor, (a.withConfig c).nextBackoff = (a.withConfig c').nextBackoff :=
    fun a => congrFun (congrArg Runtime.nextBackoff h) a.currentBackoff
  have hcan : ∀ (a : Actor) ok, (a.withConfig c).canSpawn ok = (a.withConfig c').canSpawn ok :=
    fun a ok => congrArg (fun command : Option String => command.isSome && ok) hcommand
  have hlimit : ∀ a : Actor,
      (a.withConfig c).backoffLimitExceeded = (a.withConfig c').backoffLimitExceeded := by
    intro a
    have := congrArg Runtime.backoffLimit h
    exact congrArg
      (fun limit : ℕ => decide (0 < a.backoffCount) && decide (limit ≤ a.currentBackoff))
      this
  have hpolicy : ∀ (a : Actor) success,
      (a.withConfig c).applyExitPolicy success = (a.withConfig c').applyExitPolicy success := by
    intro a success
    have hout : exitOutcome success ((a.withConfig c).exitPolicy success) =
        exitOutcome success ((a.withConfig c').exitPolicy success) := by
      cases success with
      | true => exact congrArg Runtime.onSuccess h
      | false => exact congrArg Runtime.onFailure h
    rw [applyExitPolicy_eq, applyExitPolicy_eq, hout, hlimit]
    rfl
  have hstart : ∀ (a : Actor) ok,
      (a.withConfig c).handleStart ok = (a.withConfig c').handleStart ok := by
    intro a ok
    unfold Actor.handleStart Actor.doStart
    rw [hcan]
    rfl
  refine ⟨fun a inp => ?_, fun a i => ?_, fun a i => ?_⟩
  · cases inp with
    | cmd cmd ok =>
      cases cmd with
      | start => exact hstart a ok
      | restart =>
        simp only [Actor.script]
        unfold Actor.handleRestart
        rw [hstart]
        rfl
      | _ => rfl
    | childExit success ok =>
      simp only [Actor.script]
      unfold Actor.handleChildExit Actor.doStart
      rw [hcan, hpolicy]
      rfl
    | killDeadline => rfl
    | backoffExpired ok =>
      simp only [Actor.script]
      unfold Actor.handleBackoffExpired Actor.doStart
      rw [hcan]
  · cases i with
    | resetBackoff => simp only [Actor.exec, Actor.withConfig, hdelay]
    | nextBackoff =>
      have := hnext a
      simp only [Actor.exec]
      rw [this]
      rfl
    | armStop =>
      have := hkill a
      simp only [Actor.exec]
      rw [this]
      rfl
    | _ => rfl
  · cases i with
    | spawn => exact congrArg (fun spec => some (Actor.Effect.spawned a.spawned spec)) hspawn
    | stopSignal =>
      exact congrArg (fun sig => a.child.map fun p => Actor.Effect.stopSignalled p sig) hsignal
    | _ => rfl

/-- A configuration makes the same actor as itself. -/
theorem SameActor.refl (c : ServiceConfig) : c.SameActor c := sameActor_of_runtime rfl

/-- Making the same actor is transitive. -/
theorem SameActor.trans {c₁ c₂ c₃ : ServiceConfig} (h : c₁.SameActor c₂) (h' : c₂.SameActor c₃) :
    c₁.SameActor c₃ where
  script a inp := (h.script a inp).trans (h'.script a inp)
  exec a i := (congrArg (fun b : Actor => b.withConfig c₃) (h.exec a i)).trans (h'.exec a i)
  effect a i := (h.effect a i).trans (h'.effect a i)

end ServiceConfig

end Vigil
