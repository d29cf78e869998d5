import Vigil.Lib.Serde
import Vigil.Plan.Layer

/-!
# Decoding layer files

What serde's derived deserializers make of a layer file: the structs of `plan/service.rs`,
`plan/check.rs` and `plan/alert.rs` as schemas, under the names that the fields have in the source,
and the layer with its three blocks. `rename_all` makes a field's key of its name, so that the key
of `override_mode` is `override-mode`.

The YAML parser is not part of the repository. A document is a tree of nodes, and what can be read
from a node is a parameter (`Yaml`). A mapping has no key twice, as YAML demands.
-/

namespace Vigil

open Serde

/-- What can be read from the nodes of a document. -/
structure Yaml (ν : Type) where
  isNull : ν → Bool
  string : ν → Option String
  bool : ν → Option Bool
  u16 : ν → Option UInt16
  u32 : ν → Option UInt32
  usize : ν → Option ℕ
  f64 : ν → Option ℚ
  seq : ν → Option (List ν)
  mapping : ν → Option (IndexMap String ν)

namespace Yaml

variable {ν : Type} (Y : Yaml ν)

/-- An `Option`. -/
def option {β : Type} (read : ν → Option β) (v : ν) : Option (Option β) :=
  if Y.isNull v then some none else (read v).map some

/-- A `Vec`. -/
def list {β : Type} (read : ν → Option β) (v : ν) : Option (List β) :=
  (Y.seq v).bind (List.mapM read)

/-- An `IndexMap` with strings as keys. -/
def map {β : Type} (read : ν → Option β) (v : ν) : Option (IndexMap String β) :=
  (Y.mapping v).bind (readMap read)

/-- A struct. -/
def struct {α : Type} (s : Schema ν α) (v : ν) : Option α := (Y.mapping v).bind s.decode

/-- An enumeration: a string that names a variant. -/
def variant {β : Type} (variants : List (String × β)) (v : ν) : Option β :=
  (Y.string v).bind fun name => (variants.find? fun e => decide (e.1 = name)).map Prod.snd

/-- A `u32` that is kept as a number. -/
def number (v : ν) : Option ℕ := (Y.u32 v).map UInt32.toNat

/-- `Override`. -/
def override : ν → Option Override := Y.variant [("merge", .merge), ("replace", .replace)]

/-- `Startup`. -/
def startup : ν → Option Startup := Y.variant [("disabled", .disabled), ("enabled", .enabled)]

/-- `OnExit`. -/
def onExit : ν → Option OnExit := Y.variant
  [("restart", .restart), ("shutdown", .shutdown), ("failure-shutdown", .failureShutdown),
    ("success-shutdown", .successShutdown), ("ignore", .ignore)]

/-- `LogsForward`. -/
def logsForward : ν → Option LogsForward := Y.variant
  [("enabled", .enabled), ("disabled", .disabled), ("passthrough", .passthrough)]

/-- `LogsPushFormat`. -/
def logsPushFormat : ν → Option LogsPushFormat := Y.variant [("ndjson", .ndjson)]

/-- `CheckLevel`. -/
def checkLevel : ν → Option CheckLevel := Y.variant [("alive", .alive), ("ready", .ready)]

/-- `AlertFormat`. -/
def alertFormat : ν → Option AlertFormat := Y.variant
  [("webhook", .webhook), ("alertmanager", .alertmanager), ("cloud-events", .cloudEvents),
    ("otlp-logs", .otlpLogs)]

/-- `StopSignal`, by the names of `nix`. -/
def stopSignal : ν → Option Signal := Y.variant
  [("SIGHUP", .sighup), ("SIGINT", .sigint), ("SIGQUIT", .sigquit), ("SIGILL", .sigill),
    ("SIGTRAP", .sigtrap), ("SIGABRT", .sigabrt), ("SIGBUS", .sigbus), ("SIGFPE", .sigfpe),
    ("SIGKILL", .sigkill), ("SIGUSR1", .sigusr1), ("SIGSEGV", .sigsegv), ("SIGUSR2", .sigusr2),
    ("SIGPIPE", .sigpipe), ("SIGALRM", .sigalrm), ("SIGTERM", .sigterm), ("SIGSTKFLT", .sigstkflt),
    ("SIGCHLD", .sigchld), ("SIGCONT", .sigcont), ("SIGSTOP", .sigstop), ("SIGTSTP", .sigtstp),
    ("SIGTTIN", .sigttin), ("SIGTTOU", .sigttou), ("SIGURG", .sigurg), ("SIGXCPU", .sigxcpu),
    ("SIGXFSZ", .sigxfsz), ("SIGVTALRM", .sigvtalrm), ("SIGPROF", .sigprof),
    ("SIGWINCH", .sigwinch), ("SIGIO", .sigio), ("SIGPWR", .sigpwr), ("SIGSYS", .sigsys)]

end Yaml

/-! ## Services -/

/-- The fields of `ServiceConfig`. -/
inductive ServiceField
  | overrideMode | summary | description | command | startup | after | before | requires
  | environment | user | userId | group | groupId | workingDir | stopSignal | killDelay | onSuccess
  | onFailure | onCheckFailure | backoffDelay | backoffFactor | backoffLimit | logsForward
  | logsPushSocket | logsPushAddr | logsPushFormat
  deriving DecidableEq

namespace ServiceField

/-- All fields. -/
def all : List ServiceField :=
  [overrideMode, summary, description, command, startup, after, before, requires, environment,
    user, userId, group, groupId, workingDir, stopSignal, killDelay, onSuccess, onFailure,
    onCheckFailure, backoffDelay, backoffFactor, backoffLimit, logsForward, logsPushSocket,
    logsPushAddr, logsPushFormat]

/-- All fields are in the list. -/
theorem mem_all (f : ServiceField) : f ∈ all := by cases f <;> decide

/-- The name of a field in the source. -/
def name : ServiceField → String
  | overrideMode => "override_mode"
  | summary => "summary"
  | description => "description"
  | command => "command"
  | startup => "startup"
  | after => "after"
  | before => "before"
  | requires => "requires"
  | environment => "environment"
  | user => "user"
  | userId => "user_id"
  | group => "group"
  | groupId => "group_id"
  | workingDir => "working_dir"
  | stopSignal => "stop_signal"
  | killDelay => "kill_delay"
  | onSuccess => "on_success"
  | onFailure => "on_failure"
  | onCheckFailure => "on_check_failure"
  | backoffDelay => "backoff_delay"
  | backoffFactor => "backoff_factor"
  | backoffLimit => "backoff_limit"
  | logsForward => "logs_forward"
  | logsPushSocket => "logs_push_socket"
  | logsPushAddr => "logs_push_addr"
  | logsPushFormat => "logs_push_format"

/-- The type of a field. -/
def Ty : ServiceField → Type
  | overrideMode => Override
  | startup => Startup
  | after | before | requires => List String
  | environment => IndexMap String String
  | userId | groupId => Option ℕ
  | stopSignal => Option Signal
  | onSuccess | onFailure => Option OnExit
  | onCheckFailure => IndexMap String OnExit
  | backoffFactor => Option ℚ
  | logsForward => Option LogsForward
  | logsPushFormat => Option LogsPushFormat
  | summary | description | command | user | group | workingDir | killDelay | backoffDelay
  | backoffLimit | logsPushSocket | logsPushAddr => Option String

/-- The value of a field. -/
def get : (f : ServiceField) → ServiceConfig → f.Ty
  | overrideMode => ServiceConfig.overrideMode
  | summary => ServiceConfig.summary
  | description => ServiceConfig.description
  | command => ServiceConfig.command
  | startup => ServiceConfig.startup
  | after => ServiceConfig.after
  | before => ServiceConfig.before
  | requires => ServiceConfig.requires
  | environment => ServiceConfig.environment
  | user => ServiceConfig.user
  | userId => ServiceConfig.userId
  | group => ServiceConfig.group
  | groupId => ServiceConfig.groupId
  | workingDir => ServiceConfig.workingDir
  | stopSignal => ServiceConfig.stopSignal
  | killDelay => ServiceConfig.killDelay
  | onSuccess => ServiceConfig.onSuccess
  | onFailure => ServiceConfig.onFailure
  | onCheckFailure => ServiceConfig.onCheckFailure
  | backoffDelay => ServiceConfig.backoffDelay
  | backoffFactor => ServiceConfig.backoffFactor
  | backoffLimit => ServiceConfig.backoffLimit
  | logsForward => ServiceConfig.logsForward
  | logsPushSocket => ServiceConfig.logsPushSocket
  | logsPushAddr => ServiceConfig.logsPushAddr
  | logsPushFormat => ServiceConfig.logsPushFormat

/-- How a field is read. -/
def read {ν : Type} (Y : Yaml ν) : (f : ServiceField) → ν → Option f.Ty
  | overrideMode => Y.override
  | startup => Y.startup
  | after | before | requires => Y.list Y.string
  | environment => Y.map Y.string
  | userId | groupId => Y.option Y.number
  | stopSignal => Y.option Y.stopSignal
  | onSuccess | onFailure => Y.option Y.onExit
  | onCheckFailure => Y.map Y.onExit
  | backoffFactor => Y.option Y.f64
  | logsForward => Y.option Y.logsForward
  | logsPushFormat => Y.option Y.logsPushFormat
  | summary | description | command | user | group | workingDir | killDelay | backoffDelay
  | backoffLimit | logsPushSocket | logsPushAddr => Y.option Y.string

end ServiceField

variable {ν : Type} (Y : Yaml ν)

/-- `ServiceConfig`. Every field has a default. -/
def serviceSchema : Schema ν ServiceConfig where
  Field := ServiceField
  fields := ServiceField.all
  mem_fields := ServiceField.mem_all
  key f := kebabCase f.name
  Ty := ServiceField.Ty
  get := ServiceField.get
  make v :=
    { overrideMode := v .overrideMode
      summary := v .summary
      description := v .description
      command := v .command
      startup := v .startup
      after := v .after
      before := v .before
      requires := v .requires
      environment := v .environment
      user := v .user
      userId := v .userId
      group := v .group
      groupId := v .groupId
      workingDir := v .workingDir
      stopSignal := v .stopSignal
      killDelay := v .killDelay
      onSuccess := v .onSuccess
      onFailure := v .onFailure
      onCheckFailure := v .onCheckFailure
      backoffDelay := v .backoffDelay
      backoffFactor := v .backoffFactor
      backoffLimit := v .backoffLimit
      logsForward := v .logsForward
      logsPushSocket := v .logsPushSocket
      logsPushAddr := v .logsPushAddr
      logsPushFormat := v .logsPushFormat }
  get_make v f := by cases f <;> rfl
  make_get _ := rfl
  read := ServiceField.read Y
  default f := some (f.get {})

/-! ## Checks -/

/-- The fields of `HttpCheck`. -/
inductive HttpField
  | url | headers | noFollowRedirects | insecure | insecureProxy | ca | successStatuses
  deriving DecidableEq

namespace HttpField

/-- All fields. -/
def all : List HttpField :=
  [url, headers, noFollowRedirects, insecure, insecureProxy, ca, successStatuses]

/-- All fields are in the list. -/
theorem mem_all (f : HttpField) : f ∈ all := by cases f <;> decide

/-- The name of a field in the source. -/
def name : HttpField → String
  | url => "url"
  | headers => "headers"
  | noFollowRedirects => "no_follow_redirects"
  | insecure => "insecure"
  | insecureProxy => "insecure_proxy"
  | ca => "ca"
  | successStatuses => "success_statuses"

/-- The type of a field. -/
def Ty : HttpField → Type
  | url => String
  | headers => IndexMap String String
  | noFollowRedirects | insecure | insecureProxy => Bool
  | ca => Option String
  | successStatuses => List UInt16

/-- The value of a field. -/
def get : (f : HttpField) → HttpCheck → f.Ty
  | url => HttpCheck.url
  | headers => HttpCheck.headers
  | noFollowRedirects => HttpCheck.noFollowRedirects
  | insecure => HttpCheck.insecure
  | insecureProxy => HttpCheck.insecureProxy
  | ca => HttpCheck.ca
  | successStatuses => HttpCheck.successStatuses

/-- How a field is read. -/
def read (Y : Yaml ν) : (f : HttpField) → ν → Option f.Ty
  | url => Y.string
  | headers => Y.map Y.string
  | noFollowRedirects | insecure | insecureProxy => Y.bool
  | ca => Y.option Y.string
  | successStatuses => Y.list Y.u16

end HttpField

/-- `HttpCheck`. The URL has no default. -/
def httpSchema : Schema ν HttpCheck where
  Field := HttpField
  fields := HttpField.all
  mem_fields := HttpField.mem_all
  key f := kebabCase f.name
  Ty := HttpField.Ty
  get := HttpField.get
  make v :=
    { url := v .url
      headers := v .headers
      noFollowRedirects := v .noFollowRedirects
      insecure := v .insecure
      insecureProxy := v .insecureProxy
      ca := v .ca
      successStatuses := v .successStatuses }
  get_make v f := by cases f <;> rfl
  make_get _ := rfl
  read := HttpField.read Y
  default f := if f = .url then none else some (f.get {})

/-- The fields of `TcpCheck`. -/
inductive TcpField
  | host | port
  deriving DecidableEq

namespace TcpField

/-- All fields. -/
def all : List TcpField :=
  [host, port]

/-- All fields are in the list. -/
theorem mem_all (f : TcpField) : f ∈ all := by cases f <;> decide

/-- The name of a field in the source. -/
def name : TcpField → String
  | host => "host"
  | port => "port"

/-- The type of a field. -/
def Ty : TcpField → Type
  | host => Option String
  | port => UInt16

/-- The value of a field. -/
def get : (f : TcpField) → TcpCheck → f.Ty
  | host => TcpCheck.host
  | port => TcpCheck.port

/-- How a field is read. -/
def read (Y : Yaml ν) : (f : TcpField) → ν → Option f.Ty
  | host => Y.option Y.string
  | port => Y.u16

end TcpField

/-- `TcpCheck`. It renames no field, and the port has no default. -/
def tcpSchema : Schema ν TcpCheck where
  Field := TcpField
  fields := TcpField.all
  mem_fields := TcpField.mem_all
  key := TcpField.name
  Ty := TcpField.Ty
  get := TcpField.get
  make v := { host := v .host, port := v .port }
  get_make v f := by cases f <;> rfl
  make_get _ := rfl
  read := TcpField.read Y
  default f := if f = .port then none else some (f.get {})

/-- The fields of `ExecCheck`. -/
inductive ExecField
  | command | serviceContext | environment | user | userId | group | groupId | workingDir
  deriving DecidableEq

namespace ExecField

/-- All fields. -/
def all : List ExecField :=
  [command, serviceContext, environment, user, userId, group, groupId, workingDir]

/-- All fields are in the list. -/
theorem mem_all (f : ExecField) : f ∈ all := by cases f <;> decide

/-- The name of a field in the source. -/
def name : ExecField → String
  | command => "command"
  | serviceContext => "service_context"
  | environment => "environment"
  | user => "user"
  | userId => "user_id"
  | group => "group"
  | groupId => "group_id"
  | workingDir => "working_dir"

/-- The type of a field. -/
def Ty : ExecField → Type
  | command => String
  | environment => IndexMap String String
  | userId | groupId => Option ℕ
  | serviceContext | user | group | workingDir => Option String

/-- The value of a field. -/
def get : (f : ExecField) → ExecCheck → f.Ty
  | command => ExecCheck.command
  | serviceContext => ExecCheck.serviceContext
  | environment => ExecCheck.environment
  | user => ExecCheck.user
  | userId => ExecCheck.userId
  | group => ExecCheck.group
  | groupId => ExecCheck.groupId
  | workingDir => ExecCheck.workingDir

/-- How a field is read. -/
def read (Y : Yaml ν) : (f : ExecField) → ν → Option f.Ty
  | command => Y.string
  | environment => Y.map Y.string
  | userId | groupId => Y.option Y.number
  | serviceContext | user | group | workingDir => Y.option Y.string

end ExecField

/-- `ExecCheck`. The command has no default. -/
def execSchema : Schema ν ExecCheck where
  Field := ExecField
  fields := ExecField.all
  mem_fields := ExecField.mem_all
  key f := kebabCase f.name
  Ty := ExecField.Ty
  get := ExecField.get
  make v :=
    { command := v .command
      serviceContext := v .serviceContext
      environment := v .environment
      user := v .user
      userId := v .userId
      group := v .group
      groupId := v .groupId
      workingDir := v .workingDir }
  get_make v f := by cases f <;> rfl
  make_get _ := rfl
  read := ExecField.read Y
  default f := if f = .command then none else some (f.get {})

/-- The fields of `CheckConfig`. -/
inductive CheckField
  | overrideMode | level | startup | delay | period | timeout | threshold | http | tcp | exec
  deriving DecidableEq

namespace CheckField

/-- All fields. -/
def all : List CheckField :=
  [overrideMode, level, startup, delay, period, timeout, threshold, http, tcp, exec]

/-- All fields are in the list. -/
theorem mem_all (f : CheckField) : f ∈ all := by cases f <;> decide

/-- The name of a field in the source. -/
def name : CheckField → String
  | overrideMode => "override_mode"
  | level => "level"
  | startup => "startup"
  | delay => "delay"
  | period => "period"
  | timeout => "timeout"
  | threshold => "threshold"
  | http => "http"
  | tcp => "tcp"
  | exec => "exec"

/-- The type of a field. -/
def Ty : CheckField → Type
  | overrideMode => Override
  | level => CheckLevel
  | startup => Startup
  | delay | period | timeout => Option String
  | threshold => Option UInt32
  | http => Option HttpCheck
  | tcp => Option TcpCheck
  | exec => Option ExecCheck

/-- The value of a field. -/
def get : (f : CheckField) → CheckConfig → f.Ty
  | overrideMode => CheckConfig.overrideMode
  | level => CheckConfig.level
  | startup => CheckConfig.startup
  | delay => CheckConfig.delay
  | period => CheckConfig.period
  | timeout => CheckConfig.timeout
  | threshold => CheckConfig.threshold
  | http => CheckConfig.http
  | tcp => CheckConfig.tcp
  | exec => CheckConfig.exec

/-- How a field is read. -/
def read (Y : Yaml ν) : (f : CheckField) → ν → Option f.Ty
  | overrideMode => Y.override
  | level => Y.checkLevel
  | startup => Y.startup
  | delay | period | timeout => Y.option Y.string
  | threshold => Y.option Y.u32
  | http => Y.option (Y.struct (httpSchema Y))
  | tcp => Y.option (Y.struct (tcpSchema Y))
  | exec => Y.option (Y.struct (execSchema Y))

end CheckField

/-- `CheckConfig`. Every field has a default. -/
def checkSchema : Schema ν CheckConfig where
  Field := CheckField
  fields := CheckField.all
  mem_fields := CheckField.mem_all
  key f := kebabCase f.name
  Ty := CheckField.Ty
  get := CheckField.get
  make v :=
    { overrideMode := v .overrideMode
      level := v .level
      startup := v .startup
      delay := v .delay
      period := v .period
      timeout := v .timeout
      threshold := v .threshold
      http := v .http
      tcp := v .tcp
      exec := v .exec }
  get_make v f := by cases f <;> rfl
  make_get _ := rfl
  read := CheckField.read Y
  default f := some (f.get {})

/-! ## Alerts -/

/-- The fields of `AlertConfig`. -/
inductive AlertField
  | overrideMode | url | format | headers | labels | sendInfoFields | onCheck | tlsInsecure | tlsCa
  | proxy | proxyCa | noProxy | retryAttempts | retryBackoff | bodyTemplate
  deriving DecidableEq

namespace AlertField

/-- All fields. -/
def all : List AlertField :=
  [overrideMode, url, format, headers, labels, sendInfoFields, onCheck, tlsInsecure, tlsCa, proxy,
    proxyCa, noProxy, retryAttempts, retryBackoff, bodyTemplate]

/-- All fields are in the list. -/
theorem mem_all (f : AlertField) : f ∈ all := by cases f <;> decide

/-- The name of a field in the source. -/
def name : AlertField → String
  | overrideMode => "override_mode"
  | url => "url"
  | format => "format"
  | headers => "headers"
  | labels => "labels"
  | sendInfoFields => "send_info_fields"
  | onCheck => "on_check"
  | tlsInsecure => "tls_insecure"
  | tlsCa => "tls_ca"
  | proxy => "proxy"
  | proxyCa => "proxy_ca"
  | noProxy => "no_proxy"
  | retryAttempts => "retry_attempts"
  | retryBackoff => "retry_backoff"
  | bodyTemplate => "body_template"

/-- The type of a field. -/
def Ty : AlertField → Type
  | overrideMode => Override
  | url => String
  | format => AlertFormat
  | headers | labels | sendInfoFields => IndexMap String String
  | onCheck | retryBackoff => List String
  | tlsInsecure => Bool
  | retryAttempts => Option UInt32
  | tlsCa | proxy | proxyCa | noProxy | bodyTemplate => Option String

/-- The value of a field. -/
def get : (f : AlertField) → AlertConfig → f.Ty
  | overrideMode => AlertConfig.overrideMode
  | url => AlertConfig.url
  | format => AlertConfig.format
  | headers => AlertConfig.headers
  | labels => AlertConfig.labels
  | sendInfoFields => AlertConfig.sendInfoFields
  | onCheck => AlertConfig.onCheck
  | tlsInsecure => AlertConfig.tlsInsecure
  | tlsCa => AlertConfig.tlsCa
  | proxy => AlertConfig.proxy
  | proxyCa => AlertConfig.proxyCa
  | noProxy => AlertConfig.noProxy
  | retryAttempts => AlertConfig.retryAttempts
  | retryBackoff => AlertConfig.retryBackoff
  | bodyTemplate => AlertConfig.bodyTemplate

/-- How a field is read. -/
def read (Y : Yaml ν) : (f : AlertField) → ν → Option f.Ty
  | overrideMode => Y.override
  | url => Y.string
  | format => Y.alertFormat
  | headers | labels | sendInfoFields => Y.map Y.string
  | onCheck | retryBackoff => Y.list Y.string
  | tlsInsecure => Y.bool
  | retryAttempts => Y.option Y.u32
  | tlsCa | proxy | proxyCa | noProxy | bodyTemplate => Y.option Y.string

end AlertField

/-- `AlertConfig`. The URL has no default. -/
def alertSchema : Schema ν AlertConfig where
  Field := AlertField
  fields := AlertField.all
  mem_fields := AlertField.mem_all
  key f := kebabCase f.name
  Ty := AlertField.Ty
  get := AlertField.get
  make v :=
    { overrideMode := v .overrideMode
      url := v .url
      format := v .format
      headers := v .headers
      labels := v .labels
      sendInfoFields := v .sendInfoFields
      onCheck := v .onCheck
      tlsInsecure := v .tlsInsecure
      tlsCa := v .tlsCa
      proxy := v .proxy
      proxyCa := v .proxyCa
      noProxy := v .noProxy
      retryAttempts := v .retryAttempts
      retryBackoff := v .retryBackoff
      bodyTemplate := v .bodyTemplate }
  get_make v f := by cases f <;> rfl
  make_get _ := rfl
  read := AlertField.read Y
  default f := if f = .url then none else some (f.get { url := "" })

/-! ## Layers -/

namespace Yaml

/-- A field that has a default, under the key of its name. -/
def fieldOr {β : Type} (m : IndexMap String ν) (name : String) (read : ν → Option β) (default : β) :
    Option β :=
  match m.get? (kebabCase name) with
  | some v => read v
  | none => some default

/-- The keys of the `alerts` block that are not alerts. -/
def isQueueKey (key : String) : Bool :=
  decide (key = kebabCase "max_queue_depth" ∨ key = kebabCase "max_queue_time")

/-- The alerts of the block. -/
def alertEntries (m : IndexMap String ν) : IndexMap String ν := m.filter fun e => !isQueueKey e.1

/-- `AlertsBlock`: all keys that are no field's are flattened into the alerts. -/
def alertsBlock (m : IndexMap String ν) : Option AlertsBlock := do
  let maxQueueDepth ← fieldOr m "max_queue_depth" (Y.option Y.usize) none
  let maxQueueTime ← fieldOr m "max_queue_time" (Y.option Y.string) none
  let entries ← readMap (Y.struct (alertSchema Y)) (alertEntries m)
  return { maxQueueDepth, maxQueueTime, entries }

/-- `Layer`. The summary and the description are read, and merging has no use for them. -/
def layer (root : IndexMap String ν) : Option Layer := do
  let _ ← fieldOr root "summary" (Y.option Y.string) none
  let _ ← fieldOr root "description" (Y.option Y.string) none
  let services ← fieldOr root "services" (Y.map (Y.struct (serviceSchema Y))) ∅
  let checks ← fieldOr root "checks" (Y.map (Y.struct (checkSchema Y))) ∅
  let alerts ← fieldOr root "alerts" (fun v => (Y.mapping v).bind Y.alertsBlock) {}
  return { services, checks, alerts }

/-- The block of the document under a key. -/
def block (root : IndexMap String ν) (key : String) : IndexMap String ν :=
  ((root.get? key).bind Y.mapping).getD ∅

/-- The entry of a service in a document. -/
def serviceEntry (root : IndexMap String ν) (name : String) : Option (IndexMap String ν) :=
  ((Y.block root "services").get? name).bind Y.mapping

/-- The entry of a check in a document. -/
def checkEntry (root : IndexMap String ν) (name : String) : Option (IndexMap String ν) :=
  ((Y.block root "checks").get? name).bind Y.mapping

/-- The entry of an alert in a document. -/
def alertEntry (root : IndexMap String ν) (name : String) : Option (IndexMap String ν) :=
  ((alertEntries (Y.block root "alerts")).get? name).bind Y.mapping

variable {Y}

/-- A map of structs that has been read. -/
theorem get?_of_fieldOr_map {α : Type} {s : Schema ν α} {root : IndexMap String ν} {key : String}
    {r : IndexMap String α} (h : fieldOr root key (Y.map (Y.struct s)) ∅ = some r) (name : String) :
    r.get? name = (((Y.block root (kebabCase key)).get? name).bind Y.mapping).bind s.decode := by
  unfold fieldOr at h
  unfold block
  cases hv : root.get? (kebabCase key) with
  | none =>
    rw [hv] at h
    obtain rfl := Option.some.inj h
    rfl
  | some v =>
    rw [hv] at h
    obtain ⟨m, hm, hr⟩ := Option.bind_eq_some_iff.mp h
    rw [Option.bind_some, hm, Option.getD_some, get?_readMap _ hr]
    cases m.get? name <;> rfl

/-- If a document decodes to a layer, each of its blocks decodes to that of the layer. -/
theorem blocks_of_layer {root : IndexMap String ν} {layer : Layer} (h : Y.layer root = some layer) :
    fieldOr root "services" (Y.map (Y.struct (serviceSchema Y))) ∅ = some layer.services ∧
      fieldOr root "checks" (Y.map (Y.struct (checkSchema Y))) ∅ = some layer.checks ∧
      fieldOr (Y.block root "alerts") "max_queue_depth" (Y.option Y.usize) none =
        some layer.alerts.maxQueueDepth ∧
      fieldOr (Y.block root "alerts") "max_queue_time" (Y.option Y.string) none =
        some layer.alerts.maxQueueTime ∧
      readMap (Y.struct (alertSchema Y)) (alertEntries (Y.block root "alerts")) =
        some layer.alerts.entries := by
  unfold Yaml.layer at h
  obtain ⟨-, -, h⟩ := Option.bind_eq_some_iff.mp h
  obtain ⟨-, -, h⟩ := Option.bind_eq_some_iff.mp h
  obtain ⟨services, hservices, h⟩ := Option.bind_eq_some_iff.mp h
  obtain ⟨checks, hchecks, h⟩ := Option.bind_eq_some_iff.mp h
  obtain ⟨alerts, halerts, h⟩ := Option.bind_eq_some_iff.mp h
  obtain rfl := Option.some.inj h
  refine ⟨hservices, hchecks, ?_⟩
  have hkey : kebabCase "alerts" = "alerts" := by decide +kernel
  unfold fieldOr at halerts
  unfold block
  rw [hkey] at halerts
  cases hv : root.get? "alerts" with
  | none =>
    rw [hv] at halerts
    obtain rfl := Option.some.inj halerts
    exact ⟨rfl, rfl, rfl⟩
  | some v =>
    rw [hv] at halerts
    obtain ⟨m, hm, halerts⟩ := Option.bind_eq_some_iff.mp halerts
    unfold alertsBlock at halerts
    obtain ⟨depth, hdepth, halerts⟩ := Option.bind_eq_some_iff.mp halerts
    obtain ⟨time, htime, halerts⟩ := Option.bind_eq_some_iff.mp halerts
    obtain ⟨entries, hentries, halerts⟩ := Option.bind_eq_some_iff.mp halerts
    obtain rfl := Option.some.inj halerts
    rw [Option.bind_some, hm, Option.getD_some]
    exact ⟨hdepth, htime, hentries⟩

/-- If a document decodes to a layer, each of its entries decodes to that of the layer. -/
theorem entries_of_layer {root : IndexMap String ν} {layer : Layer} (h : Y.layer root = some layer)
    (name : String) :
    layer.services.get? name = (Y.serviceEntry root name).bind (serviceSchema Y).decode ∧
      layer.checks.get? name = (Y.checkEntry root name).bind (checkSchema Y).decode ∧
      layer.alerts.entries.get? name = (Y.alertEntry root name).bind (alertSchema Y).decode := by
  obtain ⟨hservices, hchecks, -, -, halerts⟩ := blocks_of_layer h
  refine ⟨get?_of_fieldOr_map hservices name, get?_of_fieldOr_map hchecks name, ?_⟩
  refine (get?_readMap _ halerts name).trans ?_
  unfold alertEntry
  cases (alertEntries (Y.block root "alerts")).get? name <;> rfl

/-- An entry of a mapping of structs that has been read has decoded. -/
theorem decode_of_readMap {α : Type} {s : Schema ν α} {es : IndexMap String ν}
    {r : IndexMap String α}
    (h : readMap (Y.struct s) es = some r) {name : String} {m : IndexMap String ν}
    (hm : (es.get? name).bind Y.mapping = some m) : ∃ a, s.decode m = some a := by
  obtain ⟨node, hnode, hmap⟩ := Option.bind_eq_some_iff.mp hm
  obtain ⟨a, ha⟩ := (exists_readMap_iff _).mp ⟨r, h⟩ name node hnode
  obtain ⟨m', hm', hdecode⟩ := Option.bind_eq_some_iff.mp ha
  obtain rfl : m' = m := Option.some.inj (hm'.symm.trans hmap)
  exact ⟨a, hdecode⟩

/-- An entry of a block of structs that has been read has decoded. -/
theorem decode_of_fieldOr_map {α : Type} {s : Schema ν α} {root : IndexMap String ν} {key : String}
    {r : IndexMap String α} (h : fieldOr root key (Y.map (Y.struct s)) ∅ = some r) {name : String}
    {m : IndexMap String ν}
    (hm : ((Y.block root (kebabCase key)).get? name).bind Y.mapping = some m) :
    ∃ a, s.decode m = some a := by
  unfold fieldOr at h
  unfold block at hm
  cases hv : root.get? (kebabCase key) with
  | none =>
    rw [hv] at hm
    cases hm
  | some v =>
    rw [hv] at h hm
    obtain ⟨es, hes, hr⟩ := Option.bind_eq_some_iff.mp h
    rw [Option.bind_some, hes, Option.getD_some] at hm
    exact decode_of_readMap hr hm

/-- The entries of a document that is a layer have decoded. -/
theorem decodes_of_layer {root : IndexMap String ν} {layer : Layer} (h : Y.layer root = some layer)
    {name : String} {m : IndexMap String ν} :
    (Y.serviceEntry root name = some m → ∃ c, (serviceSchema Y).decode m = some c) ∧
      (Y.checkEntry root name = some m → ∃ c, (checkSchema Y).decode m = some c) ∧
      (Y.alertEntry root name = some m → ∃ c, (alertSchema Y).decode m = some c) := by
  obtain ⟨hservices, hchecks, -, -, halerts⟩ := blocks_of_layer h
  exact ⟨decode_of_fieldOr_map hservices, decode_of_fieldOr_map hchecks, decode_of_readMap halerts⟩

end Yaml

/-! ## Plain documents -/

/-- A document of plain scalars. -/
inductive Node
  | null
  | scalar (text : String)
  | seq (items : List Node)
  | map (entries : List (String × Node))

namespace Node

/-- The text of a scalar. -/
def text : Node → Option String
  | scalar text => some text
  | _ => none

/-- The number that a scalar writes. -/
def number (v : Node) : Option ℕ := v.text.bind String.toNat?

/-- What can be read from plain documents. -/
def yaml : Yaml Node where
  isNull
    | null => true
    | _ => false
  string := text
  bool v := v.text.bind fun t =>
    if t = "true" then some true else if t = "false" then some false else none
  u16 v := v.number.map UInt16.ofNat
  u32 v := v.number.map UInt32.ofNat
  usize := number
  f64 v := v.number.map fun n => n
  seq
    | seq items => some items
    | _ => none
  mapping
    | map entries => if h : (entries.map Prod.fst).Nodup then some ⟨entries, h⟩ else none
    | _ => none

/-- A mapping in which no key is repeated is read with its entries. -/
theorem mapping_map {es : List (String × Node)} (h : (es.map Prod.fst).Nodup) :
    yaml.mapping (.map es) = some ⟨es, h⟩ :=
  dif_pos h

end Node

end Vigil
