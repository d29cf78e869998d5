import Vigil.Plan.Service

/-!
# Check configuration

The types of `plan/check.rs`: what a layer file may say about a check, and the defaults that the
check's actor fills in.
-/

namespace Vigil

/-- What a check's failure says about the daemon. -/
inductive CheckLevel
  | alive
  | ready
  deriving DecidableEq, Repr, Inhabited

/-- `HttpCheck`. -/
structure HttpCheck where
  url : String := ""
  headers : IndexMap String String := ∅
  noFollowRedirects : Bool := true
  insecure : Bool := false
  insecureProxy : Bool := false
  ca : Option String := none
  successStatuses : List UInt16 := []
  deriving DecidableEq, Inhabited

/-- `TcpCheck`. -/
structure TcpCheck where
  host : Option String := none
  port : UInt16 := 0
  deriving DecidableEq, Inhabited

/-- `ExecCheck`. -/
structure ExecCheck where
  command : String := ""
  /-- The service whose environment, user, group and working directory the command inherits. -/
  serviceContext : Option String := none
  environment : IndexMap String String := ∅
  user : Option String := none
  userId : Option ℕ := none
  group : Option String := none
  groupId : Option ℕ := none
  workingDir : Option String := none
  deriving DecidableEq, Inhabited

/-- `CheckConfig`. -/
structure CheckConfig where
  overrideMode : Override := .merge
  level : CheckLevel := .alive
  startup : Startup := .disabled
  delay : Option String := none
  period : Option String := none
  timeout : Option String := none
  threshold : Option UInt32 := none
  http : Option HttpCheck := none
  tcp : Option TcpCheck := none
  exec : Option ExecCheck := none
  deriving DecidableEq, Inhabited

end Vigil
