import Vigil.Lib.IndexMap
import Vigil.Overlord.State
import Vigil.Plan.Alert

/-!
# Alert payloads

The formats of `alert/format/mod.rs`. A payload is made from the check, its status, and the alert's
labels and fields, each value of which goes through `resolve`. The functions take `resolve` as a
parameter, and what they take from the clock, the random numbers, and the build as a `Stamp`.
`formatPayload_eq` says that the values get into the payload through `resolve` only.
-/

namespace Vigil

/-- `serde_json::Value`, as far as payloads need it. The members of an object have no order. -/
inductive Value
  | number (n : ℕ)
  | string (s : String)
  | array (elements : List Value)
  | object (members : List (String × Value))

/-- What a payload has that does not come from the alert or the check. -/
structure Stamp where
  /-- `Utc::now().to_rfc3339()`. -/
  now : String
  /-- The time in nanoseconds. -/
  nowNanos : String
  /-- `Uuid::new_v4()`. -/
  id : String
  /-- `CARGO_PKG_VERSION`. -/
  version : String

/-- The variables of a `body_template`. -/
structure TemplateContext where
  check : String
  status : String
  timestamp : String
  labels : IndexMap String String
  info : IndexMap String String

/-- The `Content-Type` of a format. -/
def AlertFormat.contentType : AlertFormat → String
  | cloudEvents => "application/cloudevents+json"
  | _ => "application/json"

/-- `status_str`. -/
def CheckStatus.str : CheckStatus → String
  | down => "down"
  | up => "up"

/-- `resolved_map`. -/
def resolvedMap (resolve : String → String) (map : IndexMap String String) :
    IndexMap String String :=
  map.mapValues resolve

/-- An object of texts. -/
def textObject (map : IndexMap String String) : Value :=
  .object (map.entries.map fun e => (e.1, .string e.2))

/-- `resolved_json`. -/
def resolvedJson (resolve : String → String) (map : IndexMap String String) : Value :=
  textObject (resolvedMap resolve map)

section Format

variable (render : String → TemplateContext → Option Value) (resolve : String → String)
  (stamp : Stamp) (check : String) (status : CheckStatus) (cfg : AlertConfig)

/-- `format_webhook`. -/
def formatWebhook : Value :=
  .object [
    ("check", .string check),
    ("status", .string status.str),
    ("timestamp", .string stamp.now),
    ("labels", resolvedJson resolve cfg.labels),
    ("info", resolvedJson resolve cfg.sendInfoFields)]

/-- `format_webhook_template`. The template may not parse or render, or its output may not be JSON,
and the default payload takes its place. -/
def formatWebhookTemplate (template : String) : Value :=
  let context : TemplateContext :=
    { check
      status := status.str
      timestamp := stamp.now
      labels := resolvedMap resolve cfg.labels
      info := resolvedMap resolve cfg.sendInfoFields }
  (render template context).getD (formatWebhook resolve stamp check status cfg)

/-- `format_alertmanager`. -/
def formatAlertmanager : Value :=
  let never := "0001-01-01T00:00:00Z"
  let (startsAt, endsAt) :=
    match status with
    | .down => (stamp.now, never)
    | .up => (never, stamp.now)
  let labels := ((resolvedMap resolve cfg.labels).insert "alertname" check).insert "check" check
  .array [
    .object [
      ("labels", textObject labels),
      ("annotations", resolvedJson resolve cfg.sendInfoFields),
      ("startsAt", .string startsAt),
      ("endsAt", .string endsAt)]]

/-- `format_cloudevents`. -/
def formatCloudevents : Value :=
  let eventType :=
    match status with
    | .down => "io.vigil.check.failed"
    | .up => "io.vigil.check.recovered"
  .object [
    ("specversion", .string "1.0"),
    ("id", .string stamp.id),
    ("source", .string "vigild"),
    ("type", .string eventType),
    ("time", .string stamp.now),
    ("datacontenttype", .string "application/json"),
    ("data", .object [
      ("check", .string check),
      ("status", .string status.str),
      ("labels", resolvedJson resolve cfg.labels),
      ("info", resolvedJson resolve cfg.sendInfoFields)])]

/-- An attribute of a log record. -/
def otlpAttribute (e : String × String) : Value :=
  .object [("key", .string e.1), ("value", .object [("stringValue", .string e.2)])]

/-- `format_otlp_logs`. -/
def formatOtlpLogs : Value :=
  let (severityNumber, severityText, body) :=
    match status with
    | .down => (17, "ERROR", "check " ++ check ++ " failed")
    | .up => (9, "INFO", "check " ++ check ++ " recovered")
  let attributes :=
    [("check.name", check), ("check.status", status.str)] ++
      (resolvedMap resolve cfg.labels).entries ++ (resolvedMap resolve cfg.sendInfoFields).entries
  .object [
    ("resourceLogs", .array [
      .object [
        ("resource", .object [("attributes", .array [])]),
        ("scopeLogs", .array [
          .object [
            ("scope", .object [("name", .string "vigild"), ("version", .string stamp.version)]),
            ("logRecords", .array [
              .object [
                ("timeUnixNano", .string stamp.nowNanos),
                ("severityNumber", .number severityNumber),
                ("severityText", .string severityText),
                ("body", .object [("stringValue", .string body)]),
                ("attributes", .array (attributes.map otlpAttribute))]])]])]])]

/-- `format_payload`. -/
def formatPayload : Value :=
  match cfg.format with
  | .webhook =>
    match cfg.bodyTemplate with
    | some template => formatWebhookTemplate render resolve stamp check status cfg template
    | none => formatWebhook resolve stamp check status cfg
  | .alertmanager => formatAlertmanager resolve stamp check status cfg
  | .cloudEvents => formatCloudevents resolve stamp check status cfg
  | .otlpLogs => formatOtlpLogs resolve stamp check status cfg

variable {render resolve stamp check status cfg}

/-- A payload is made from the format, the template, and the resolved labels and fields. -/
theorem formatPayload_eq {resolve' : String → String} {cfg' : AlertConfig}
    (hformat : cfg.format = cfg'.format) (htemplate : cfg.bodyTemplate = cfg'.bodyTemplate)
    (hlabels : resolvedMap resolve cfg.labels = resolvedMap resolve' cfg'.labels)
    (hinfo : resolvedMap resolve cfg.sendInfoFields = resolvedMap resolve' cfg'.sendInfoFields) :
    formatPayload render resolve stamp check status cfg =
      formatPayload render resolve' stamp check status cfg' := by
  -- This is also what takes the place of a template that fails.
  have hwebhook : formatWebhook resolve stamp check status cfg =
      formatWebhook resolve' stamp check status cfg' := by
    simp only [formatWebhook, resolvedJson, hlabels, hinfo]
  unfold formatPayload
  rw [hformat, htemplate]
  cases cfg'.format with
  | webhook =>
    cases cfg'.bodyTemplate with
    | none => exact hwebhook
    | some template => simp only [formatWebhookTemplate, hlabels, hinfo, hwebhook]
  | alertmanager => simp only [formatAlertmanager, resolvedJson, hlabels, hinfo]
  | cloudEvents => simp only [formatCloudevents, resolvedJson, hlabels, hinfo]
  | otlpLogs => simp only [formatOtlpLogs, hlabels, hinfo]

end Format

end Vigil
