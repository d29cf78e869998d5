import Vigil.Plan.Service

/-!
# Alert configuration

The types of `plan/alert.rs`: what a layer file may say about an alert, and the `alerts` block of a
layer file with its settings for the delivery queue.
-/

namespace Vigil

/-- The format of an alert's payload. -/
inductive AlertFormat
  | webhook
  | alertmanager
  | cloudEvents
  | otlpLogs
  deriving DecidableEq, Repr, Inhabited

/-- `AlertConfig`. -/
structure AlertConfig where
  overrideMode : Override := .merge
  url : String
  format : AlertFormat := .webhook
  headers : IndexMap String String := ∅
  labels : IndexMap String String := ∅
  sendInfoFields : IndexMap String String := ∅
  /-- The checks whose changes trigger the alert. -/
  onCheck : List String := []
  tlsInsecure : Bool := false
  tlsCa : Option String := none
  proxy : Option String := none
  proxyCa : Option String := none
  noProxy : Option String := none
  retryAttempts : Option UInt32 := none
  retryBackoff : List String := []
  bodyTemplate : Option String := none
  deriving DecidableEq

/-- `AlertsBlock`: the settings of the queue, and the alerts. -/
structure AlertsBlock where
  maxQueueDepth : Option ℕ := none
  maxQueueTime : Option String := none
  entries : IndexMap String AlertConfig := ∅

end Vigil
