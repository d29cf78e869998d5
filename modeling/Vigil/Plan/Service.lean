import Mathlib.Data.Rat.Defs
import Vigil.Lib.IndexMap
import Vigil.Duration

/-!
# Service configuration

The types of `plan/service.rs`: what a layer file may say about a service. The plan's own types are
in insertion-ordered maps, as in the source.
-/

namespace Vigil

/-- The POSIX signals that `nix` names. -/
inductive Signal
  | sighup | sigint | sigquit | sigill | sigtrap | sigabrt | sigbus | sigfpe | sigkill | sigusr1
  | sigsegv | sigusr2 | sigpipe | sigalrm | sigterm | sigstkflt | sigchld | sigcont | sigstop
  | sigtstp | sigttin | sigttou | sigurg | sigxcpu | sigxfsz | sigvtalrm | sigprof | sigwinch
  | sigio | sigpwr | sigsys
  deriving DecidableEq, Repr

/-- How an entry of a later layer combines with the earlier ones. -/
inductive Override
  | merge
  | replace
  deriving DecidableEq, Repr, Inhabited

/-- Whether a service or a check is started with the daemon. -/
inductive Startup
  | disabled
  | enabled
  deriving DecidableEq, Repr, Inhabited

/-- What happens to a service's output. -/
inductive LogsForward
  | enabled
  | disabled
  | passthrough
  deriving DecidableEq, Repr, Inhabited

/-- The format of pushed log entries. -/
inductive LogsPushFormat
  | ndjson
  deriving DecidableEq, Repr, Inhabited

/-- The policy on a process's exit or on a check's failure. -/
inductive OnExit
  | restart
  /-- Shut down the daemon; the exit code depends on the context. -/
  | shutdown
  /-- Shut down the daemon with exit code 10. -/
  | failureShutdown
  /-- Shut down the daemon with exit code 0. -/
  | successShutdown
  | ignore
  deriving DecidableEq, Repr

/-- `ServiceConfig`. The factor of the backoff is taken as an exact rational. -/
structure ServiceConfig where
  overrideMode : Override := .merge
  summary : Option String := none
  description : Option String := none
  command : Option String := none
  startup : Startup := .disabled
  after : List String := []
  /-- `B before: [A]` is `A after: [B]`. -/
  before : List String := []
  /-- Hard dependencies: ordering as `after`, and a stop cascade. -/
  requires : List String := []
  environment : IndexMap String String := ∅
  user : Option String := none
  userId : Option ℕ := none
  group : Option String := none
  groupId : Option ℕ := none
  workingDir : Option String := none
  stopSignal : Option Signal := none
  killDelay : Option String := none
  onSuccess : Option OnExit := none
  onFailure : Option OnExit := none
  onCheckFailure : IndexMap String OnExit := ∅
  backoffDelay : Option String := none
  backoffFactor : Option ℚ := none
  backoffLimit : Option String := none
  logsForward : Option LogsForward := none
  logsPushSocket : Option String := none
  logsPushAddr : Option String := none
  logsPushFormat : Option LogsPushFormat := none
  deriving DecidableEq, Inhabited

/-- The merged plan: its services, in the order of their first appearance in the layers. -/
structure Plan where
  services : IndexMap String ServiceConfig := ∅
  deriving Inhabited

end Vigil
