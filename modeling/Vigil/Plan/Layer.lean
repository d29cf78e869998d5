import Vigil.Plan.Merge

/-!
# Layers

`Plan::from_layers` of `plan/layer.rs`: the layers are merged in order. Each loop lays a layer's
entries of one kind over the plan's, so that a plan over another is well defined
(`MergedPlan.overlay`), and the merged plan of some layers is the plans of the layers laid over one
another. Merging is therefore compositional: any block of layers may be replaced by the one layer
that has what the block merges to, and a layer that is repeated changes nothing.
-/

namespace Vigil

/-- A layer, as far as merging reads it. -/
structure Layer where
  services : IndexMap String ServiceConfig := ∅
  checks : IndexMap String CheckConfig := ∅
  alerts : AlertsBlock := {}

/-- The merged plan with its checks and alerts, less the list of the layers that it was made of. -/
@[ext] structure MergedPlan extends Plan where
  checks : IndexMap String CheckConfig := ∅
  alerts : IndexMap String AlertConfig := ∅
  alertQueueDepth : Option ℕ := none
  alertMaxQueueTime : Option String := none

namespace MergedPlan

/-- What one layer does to the plan. -/
def addLayer (p : MergedPlan) (layer : Layer) : MergedPlan where
  services := layer.services.entries.foldl Merger.service.putEntry p.services
  checks := layer.checks.entries.foldl Merger.check.putEntry p.checks
  alertQueueDepth := opt p.alertQueueDepth layer.alerts.maxQueueDepth
  alertMaxQueueTime := opt p.alertMaxQueueTime layer.alerts.maxQueueTime
  alerts := layer.alerts.entries.entries.foldl Merger.alert.putEntry p.alerts

/-- `Plan::from_layers`. -/
def fromLayers (layers : List Layer) : MergedPlan := layers.foldl addLayer {}

/-- The layer made of a plan's services, checks, alerts, and queue settings. -/
def asLayer (p : MergedPlan) : Layer where
  services := p.services
  checks := p.checks
  alerts :=
    { maxQueueDepth := p.alertQueueDepth
      maxQueueTime := p.alertMaxQueueTime
      entries := p.alerts }

/-- A plan laid over another. -/
def overlay (p q : MergedPlan) : MergedPlan where
  services := IndexMap.overlay Merger.service.put p.services q.services
  checks := IndexMap.overlay Merger.check.put p.checks q.checks
  alerts := IndexMap.overlay Merger.alert.put p.alerts q.alerts
  alertQueueDepth := opt p.alertQueueDepth q.alertQueueDepth
  alertMaxQueueTime := opt p.alertMaxQueueTime q.alertMaxQueueTime

/-- Adding the layer of a plan lays the plan over the others. -/
theorem addLayer_asLayer (p q : MergedPlan) : p.addLayer q.asLayer = p.overlay q := by
  simp only [addLayer, asLayer, overlay, Merger.foldl_putEntry]

/-- The plan of one layer is the layer's own. -/
theorem asLayer_addLayer (layer : Layer) : (addLayer {} layer).asLayer = layer := by
  simp only [addLayer, asLayer, Merger.foldl_putEntry, opt, Option.or_none]
  rw [IndexMap.empty_overlay Merger.service.lawful_put,
    IndexMap.empty_overlay Merger.check.lawful_put, IndexMap.empty_overlay Merger.alert.lawful_put]

/-- Adding a layer lays its plan over the others. -/
theorem addLayer_eq_overlay (p : MergedPlan) (layer : Layer) :
    p.addLayer layer = p.overlay (addLayer {} layer) := by
  rw [← addLayer_asLayer, asLayer_addLayer]

/-- A plan over nothing is the plan. -/
theorem empty_overlay (p : MergedPlan) : overlay {} p = p := by
  ext1
  · exact IndexMap.empty_overlay Merger.service.lawful_put _
  · exact IndexMap.empty_overlay Merger.check.lawful_put _
  · exact IndexMap.empty_overlay Merger.alert.lawful_put _
  · exact Option.or_none
  · exact Option.or_none

/-- Nothing over a plan is the plan. -/
theorem overlay_empty (p : MergedPlan) : overlay p {} = p := rfl

/-- Laying plans over one another is associative. -/
theorem overlay_assoc (p q r : MergedPlan) : (p.overlay q).overlay r = p.overlay (q.overlay r) := by
  ext1
  · exact IndexMap.overlay_assoc Merger.service.lawful_put _ _ _
  · exact IndexMap.overlay_assoc Merger.check.lawful_put _ _ _
  · exact IndexMap.overlay_assoc Merger.alert.lawful_put _ _ _
  · exact opt_assoc _ _ _
  · exact opt_assoc _ _ _

/-- Laying a plan on twice changes nothing. -/
theorem overlay_overlay_self (p q : MergedPlan) : (p.overlay q).overlay q = p.overlay q := by
  ext1
  · exact IndexMap.overlay_overlay_self Merger.service.lawful_put _ _
  · exact IndexMap.overlay_overlay_self Merger.check.lawful_put _ _
  · exact IndexMap.overlay_overlay_self Merger.alert.lawful_put _ _
  · exact (opt_assoc _ _ _).trans (congrArg _ (opt_self _))
  · exact (opt_assoc _ _ _).trans (congrArg _ (opt_self _))

/-- Adding layers lays what they merge to over the plan. -/
theorem foldl_addLayer (p : MergedPlan) (layers : List Layer) :
    layers.foldl addLayer p = p.overlay (fromLayers layers) := by
  -- The first layer is laid over `p` on the left, and under the merged layers on the right.
  induction layers generalizing p with
  | nil => exact (overlay_empty p).symm
  | cons layer layers ih =>
    calc (layer :: layers).foldl addLayer p
        = (p.addLayer layer).overlay (fromLayers layers) := ih _
      _ = p.overlay ((addLayer {} layer).overlay (fromLayers layers)) := by
          rw [addLayer_eq_overlay, overlay_assoc]
      _ = p.overlay (fromLayers (layer :: layers)) := by rw [← ih]; rfl

/-- Replacing a block of layers by the one layer of what the block merges to leaves the merged plan
as it is, and so does repeating a layer. -/
theorem fromLayers_compositional (pre post : List Layer) :
    (∀ block, fromLayers (pre ++ (fromLayers block).asLayer :: post) =
        fromLayers (pre ++ (block ++ post))) ∧
      ∀ layer, fromLayers (pre ++ layer :: layer :: post) = fromLayers (pre ++ layer :: post) := by
  refine ⟨fun block => ?_, fun layer => ?_⟩
  · unfold fromLayers
    rw [List.foldl_append, List.foldl_append, List.foldl_append, List.foldl_cons, addLayer_asLayer,
      foldl_addLayer (pre.foldl addLayer {}) block]
    rfl
  · unfold fromLayers
    rw [List.foldl_append, List.foldl_append, List.foldl_cons, List.foldl_cons, List.foldl_cons,
      addLayer_eq_overlay _ layer, addLayer_eq_overlay _ layer, overlay_overlay_self]

end MergedPlan

end Vigil
