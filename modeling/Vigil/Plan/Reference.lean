import Vigil.Plan.Decode

/-!
# The documented keys

The keys that the configuration reference gives for the fields of services, checks and alerts,
against those that decoding looks for. The reference writes `override` for the field
`override_mode`, whose key is `override-mode`, and eight keys of alerts in the names of their
fields, with underscores, while the derived keys have hyphens. A document that is written with the
reference's keys has these ignored, without an error. `honours_iff` says that documents are honoured
as long as the ignored keys only say what the fields are without them.
-/

namespace Vigil

open Serde

/-- The keys of services in the reference. -/
def ServiceField.documented : ServiceField → String
  | overrideMode => "override"
  | summary => "summary"
  | description => "description"
  | command => "command"
  | startup => "startup"
  | after => "after"
  | before => "before"
  | requires => "requires"
  | environment => "environment"
  | user => "user"
  | userId => "user-id"
  | group => "group"
  | groupId => "group-id"
  | workingDir => "working-dir"
  | stopSignal => "stop-signal"
  | killDelay => "kill-delay"
  | onSuccess => "on-success"
  | onFailure => "on-failure"
  | onCheckFailure => "on-check-failure"
  | backoffDelay => "backoff-delay"
  | backoffFactor => "backoff-factor"
  | backoffLimit => "backoff-limit"
  | logsForward => "logs-forward"
  | logsPushSocket => "logs-push-socket"
  | logsPushAddr => "logs-push-addr"
  | logsPushFormat => "logs-push-format"

/-- The service fields whose documented keys decoding ignores. -/
def ServiceField.isIgnored : ServiceField → Bool
  | overrideMode => true
  | _ => false

/-- The keys of HTTP checks in the reference. -/
def HttpField.documented : HttpField → String
  | url => "url"
  | headers => "headers"
  | noFollowRedirects => "no-follow-redirects"
  | insecure => "insecure"
  | insecureProxy => "insecure-proxy"
  | ca => "ca"
  | successStatuses => "success-statuses"

/-- The keys of TCP checks in the reference. -/
def TcpField.documented : TcpField → String
  | host => "host"
  | port => "port"

/-- The keys of exec checks in the reference. -/
def ExecField.documented : ExecField → String
  | command => "command"
  | serviceContext => "service-context"
  | environment => "environment"
  | user => "user"
  | userId => "user-id"
  | group => "group"
  | groupId => "group-id"
  | workingDir => "working-dir"

/-- The keys of checks in the reference. It gives `override` for services and alerts, and checks are
taken to have the same. -/
def CheckField.documented : CheckField → String
  | overrideMode => "override"
  | level => "level"
  | startup => "startup"
  | delay => "delay"
  | period => "period"
  | timeout => "timeout"
  | threshold => "threshold"
  | http => "http"
  | tcp => "tcp"
  | exec => "exec"

/-- The check fields whose documented keys decoding ignores. -/
def CheckField.isIgnored : CheckField → Bool
  | overrideMode => true
  | _ => false

/-- The keys of alerts in the reference. -/
def AlertField.documented : AlertField → String
  | overrideMode => "override"
  | url => "url"
  | format => "format"
  | headers => "headers"
  | labels => "labels"
  | sendInfoFields => "send_info_fields"
  | onCheck => "on-check"
  | tlsInsecure => "tls_insecure"
  | tlsCa => "tls_ca"
  | proxy => "proxy"
  | proxyCa => "proxy_ca"
  | noProxy => "no_proxy"
  | retryAttempts => "retry_attempts"
  | retryBackoff => "retry_backoff"
  | bodyTemplate => "body-template"

/-- The alert fields whose documented keys decoding ignores. -/
def AlertField.isIgnored : AlertField → Bool
  | overrideMode | sendInfoFields | tlsInsecure | tlsCa | proxyCa | noProxy | retryAttempts
  | retryBackoff => true
  | _ => false

/-! ## References -/

/-- A schema and the keys that are documented for its fields. Decoding looks for a documented key,
or ignores it and looks for one that is not documented. -/
structure Reference (ν α : Type) where
  schema : Schema ν α
  documented : schema.Field → String
  isIgnored : schema.Field → Bool
  key_eq : ∀ f, isIgnored f = false → schema.key f = documented f
  key_ne : ∀ f g, isIgnored f = true → schema.key f ≠ documented g

namespace Reference

variable {ν : Type} (Y : Yaml ν)

/-- Services. -/
def service : Reference ν ServiceConfig where
  schema := serviceSchema Y
  documented := ServiceField.documented
  isIgnored := ServiceField.isIgnored
  key_eq f := by
    have hall : ∀ f ∈ ServiceField.all, f.isIgnored = false → kebabCase f.name = f.documented := by
      decide +kernel
    exact hall f f.mem_all
  key_ne f g h := by
    have hall : ∀ f ∈ ServiceField.all, f.isIgnored = true →
        ∀ g ∈ ServiceField.all, kebabCase f.name ≠ g.documented := by decide +kernel
    exact hall f f.mem_all h g g.mem_all

/-- HTTP checks. -/
def http : Reference ν HttpCheck where
  schema := httpSchema Y
  documented := HttpField.documented
  isIgnored _ := false
  key_eq f _ := by
    have hall : ∀ f ∈ HttpField.all, kebabCase f.name = f.documented := by decide +kernel
    exact hall f f.mem_all
  key_ne _ _ h := nomatch h

/-- TCP checks. -/
def tcp : Reference ν TcpCheck where
  schema := tcpSchema Y
  documented := TcpField.documented
  isIgnored _ := false
  key_eq f _ := by cases f <;> rfl
  key_ne _ _ h := nomatch h

/-- Exec checks. -/
def exec : Reference ν ExecCheck where
  schema := execSchema Y
  documented := ExecField.documented
  isIgnored _ := false
  key_eq f _ := by
    have hall : ∀ f ∈ ExecField.all, kebabCase f.name = f.documented := by decide +kernel
    exact hall f f.mem_all
  key_ne _ _ h := nomatch h

/-- Checks. -/
def check : Reference ν CheckConfig where
  schema := checkSchema Y
  documented := CheckField.documented
  isIgnored := CheckField.isIgnored
  key_eq f := by
    have hall : ∀ f ∈ CheckField.all, f.isIgnored = false → kebabCase f.name = f.documented := by
      decide +kernel
    exact hall f f.mem_all
  key_ne f g h := by
    have hall : ∀ f ∈ CheckField.all, f.isIgnored = true →
        ∀ g ∈ CheckField.all, kebabCase f.name ≠ g.documented := by decide +kernel
    exact hall f f.mem_all h g g.mem_all

/-- Alerts. -/
def alert : Reference ν AlertConfig where
  schema := alertSchema Y
  documented := AlertField.documented
  isIgnored := AlertField.isIgnored
  key_eq f := by
    have hall : ∀ f ∈ AlertField.all, f.isIgnored = false → kebabCase f.name = f.documented := by
      decide +kernel
    exact hall f f.mem_all
  key_ne f g h := by
    have hall : ∀ f ∈ AlertField.all, f.isIgnored = true →
        ∀ g ∈ AlertField.all, kebabCase f.name ≠ g.documented := by decide +kernel
    exact hall f f.mem_all h g g.mem_all

variable {α : Type} (R : Reference ν α)

/-- A mapping is written with the documented keys only. -/
def Documented (m : IndexMap String ν) : Prop := ∀ k v, m.get? k = some v → ∃ f, R.documented f = k

/-- A struct has the values that a mapping gives under the documented keys. -/
def Stores (m : IndexMap String ν) (a : α) : Prop :=
  ∀ f v, m.get? (R.documented f) = some v → R.schema.read f v = some (R.schema.get f a)

/-- What a mapping says under the ignored keys is what the fields are without them. -/
def Idle (m : IndexMap String ν) : Prop :=
  ∀ f v, R.isIgnored f = true → m.get? (R.documented f) = some v →
    ∃ d, R.schema.default f = some d ∧ R.schema.read f v = some d

/-- The struct under a key of a mapping, where it is not null, has the values that the mapping under
the key gives under the documented keys. -/
def StoresUnder (m : IndexMap String ν) (key : String) (x : Option α) : Prop :=
  ∀ v inner, m.get? key = some v → Y.isNull v = false → Y.mapping v = some inner →
    ∃ a, x = some a ∧ R.Stores inner a

variable {R}

/-- Decoding stores what a mapping says under the documented keys exactly when the keys that it
ignores say nothing new. -/
theorem stores_iff {m : IndexMap String ν} {a : α} (hdoc : R.Documented m)
    (h : R.schema.decode m = some a) : R.Stores m a ↔ R.Idle m := by
  -- The key that decoding looks for instead of an ignored one is not in the mapping.
  have hdefault : ∀ f, R.isIgnored f = true → R.schema.default f = some (R.schema.get f a) := by
    intro f hf
    refine Schema.default_of_decode h (not_not.mpr ?_)
    refine Option.eq_none_iff_forall_ne_some.mpr fun v hv => ?_
    obtain ⟨g, hg⟩ := hdoc _ v hv
    exact R.key_ne f g hf hg.symm
  constructor
  · intro hs f v hf hv
    exact ⟨_, hdefault f hf, hs f v hv⟩
  · intro hi f v hv
    cases hf : R.isIgnored f with
    | true =>
      obtain ⟨d, hd, hread⟩ := hi f v hf hv
      exact hread.trans (hd.symm.trans (hdefault f hf))
    | false => exact Schema.read_of_decode h (R.key_eq f hf ▸ hv)

/-- Decoding stores what a mapping says under the documented keys when it ignores none. -/
theorem stores_of_decode (hR : ∀ f, R.isIgnored f = false) {m : IndexMap String ν} {a : α}
    (h : R.schema.decode m = some a) : R.Stores m a :=
  fun f _ hv => Schema.read_of_decode h (R.key_eq f (hR f) ▸ hv)

variable {Y}

/-- A struct that is read under a key has the values of the mapping there. -/
theorem storesUnder_of_read (hR : ∀ f, R.isIgnored f = false) {m : IndexMap String ν} {key : String}
    {x : Option α} (h : ∀ v, m.get? key = some v → Y.option (Y.struct R.schema) v = some x) :
    R.StoresUnder Y m key x := by
  intro v inner hv hnull hmap
  have hread := h v hv
  rw [Yaml.option, hnull, if_neg Bool.false_ne_true] at hread
  obtain ⟨a, ha, rfl⟩ := Option.map_eq_some_iff.mp hread
  rw [Yaml.struct, hmap, Option.bind_some] at ha
  exact ⟨a, rfl, stores_of_decode hR ha⟩

end Reference

/-! ## Documents -/

/-- The layer without a service. -/
def Layer.dropService (name : String) (layer : Layer) : Layer :=
  { layer with services := layer.services.shiftRemove name }

/-- The layer without a check. -/
def Layer.dropCheck (name : String) (layer : Layer) : Layer :=
  { layer with checks := layer.checks.shiftRemove name }

/-- The layer without an alert. -/
def Layer.dropAlert (name : String) (layer : Layer) : Layer :=
  { layer with alerts := { layer.alerts with entries := layer.alerts.entries.shiftRemove name } }

namespace Yaml

variable {ν : Type} (Y : Yaml ν)

/-- The entries of a document are written with the documented keys only. -/
structure Documented (root : IndexMap String ν) : Prop where
  service : ∀ name m, Y.serviceEntry root name = some m → (Reference.service Y).Documented m
  check : ∀ name m, Y.checkEntry root name = some m → (Reference.check Y).Documented m
  alert : ∀ name m, Y.alertEntry root name = some m → (Reference.alert Y).Documented m

/-- A check has the values of its entry, those of its HTTP, TCP or exec check included. -/
structure StoresCheck (m : IndexMap String ν) (c : CheckConfig) : Prop where
  check : (Reference.check Y).Stores m c
  http : (Reference.http Y).StoresUnder Y m "http" c.http
  tcp : (Reference.tcp Y).StoresUnder Y m "tcp" c.tcp
  exec : (Reference.exec Y).StoresUnder Y m "exec" c.exec

/-- A layer has the values that a document gives under the documented keys. -/
structure Stores (root : IndexMap String ν) (layer : Layer) : Prop where
  service : ∀ name m, Y.serviceEntry root name = some m →
    ∃ c, layer.services.get? name = some c ∧ (Reference.service Y).Stores m c
  check : ∀ name m, Y.checkEntry root name = some m →
    ∃ c, layer.checks.get? name = some c ∧ Y.StoresCheck m c
  alert : ∀ name m, Y.alertEntry root name = some m →
    ∃ c, layer.alerts.entries.get? name = some c ∧ (Reference.alert Y).Stores m c
  queueDepth : ∀ v, (Y.block root "alerts").get? "max-queue-depth" = some v →
    Y.option Y.usize v = some layer.alerts.maxQueueDepth
  queueTime : ∀ v, (Y.block root "alerts").get? "max-queue-time" = some v →
    Y.option Y.string v = some layer.alerts.maxQueueTime

/-- An entry carries `override: replace`. -/
def SaysReplace (m : IndexMap String ν) : Prop :=
  ∃ v, m.get? "override" = some v ∧ Y.override v = some .replace

/-- The documents are honoured by their layers: every layer has the values of its document, and
where an entry carries `override: replace`, the merged definition is the one without the earlier
layers'. -/
structure Honours (roots : List (IndexMap String ν)) (layers : List Layer) : Prop where
  stores : List.Forall₂ Y.Stores roots layers
  replacesService : ∀ i root name m, roots[i]? = some root → Y.serviceEntry root name = some m →
    Y.SaysReplace m → (MergedPlan.fromLayers layers).services.get? name =
      (MergedPlan.fromLayers ((layers.take i).map (Layer.dropService name) ++
        layers.drop i)).services.get? name
  replacesCheck : ∀ i root name m, roots[i]? = some root → Y.checkEntry root name = some m →
    Y.SaysReplace m → (MergedPlan.fromLayers layers).checks.get? name =
      (MergedPlan.fromLayers ((layers.take i).map (Layer.dropCheck name) ++
        layers.drop i)).checks.get? name
  replacesAlert : ∀ i root name m, roots[i]? = some root → Y.alertEntry root name = some m →
    Y.SaysReplace m → (MergedPlan.fromLayers layers).alerts.get? name =
      (MergedPlan.fromLayers ((layers.take i).map (Layer.dropAlert name) ++
        layers.drop i)).alerts.get? name

/-- What a document says under the ignored keys is what the fields are without them. -/
structure Idle (root : IndexMap String ν) : Prop where
  service : ∀ name m, Y.serviceEntry root name = some m → (Reference.service Y).Idle m
  check : ∀ name m, Y.checkEntry root name = some m → (Reference.check Y).Idle m
  alert : ∀ name m, Y.alertEntry root name = some m → (Reference.alert Y).Idle m

variable {Y}

/-- A check that has the values of its own keys has those of its HTTP, TCP or exec check. -/
theorem storesCheck_iff {m : IndexMap String ν} {c : CheckConfig} :
    Y.StoresCheck m c ↔ (Reference.check Y).Stores m c := by
  constructor
  · exact fun hs => hs.check
  · intro hs
    exact
      { check := hs
        http := Reference.storesUnder_of_read (fun _ => rfl) (hs CheckField.http)
        tcp := Reference.storesUnder_of_read (fun _ => rfl) (hs CheckField.tcp)
        exec := Reference.storesUnder_of_read (fun _ => rfl) (hs CheckField.exec) }

/-- The entries of one kind have the values under the documented keys exactly when the ignored ones
say nothing new. -/
theorem forall_stores_iff {α : Type} {R : Reference ν α}
    {entry : String → Option (IndexMap String ν)} {decoded : IndexMap String α}
    (hdoc : ∀ name m, entry name = some m → R.Documented m)
    (hget : ∀ name, decoded.get? name = (entry name).bind R.schema.decode)
    (hdecode : ∀ name m, entry name = some m → ∃ a, R.schema.decode m = some a) :
    (∀ name m, entry name = some m → ∃ a, decoded.get? name = some a ∧ R.Stores m a) ↔
      ∀ name m, entry name = some m → R.Idle m := by
  refine forall_congr' fun name => forall_congr' fun m => forall_congr' fun hm => ?_
  obtain ⟨a, ha⟩ := hdecode name m hm
  have hdecoded : decoded.get? name = some a := by rw [hget, hm, Option.bind_some, ha]
  rw [← Reference.stores_iff (hdoc name m hm) ha]
  constructor
  · rintro ⟨b, hb, hs⟩
    exact Option.some.inj (hb.symm.trans hdecoded) ▸ hs
  · exact fun hs => ⟨a, hdecoded, hs⟩

/-- A field that has been read has the value under its key. -/
theorem read_of_fieldOr {β : Type} {m : IndexMap String ν} {name : String} {read : ν → Option β}
    {d x : β} (h : fieldOr m name read d = some x) {v : ν} (hv : m.get? (kebabCase name) = some v) :
    read v = some x := by
  rwa [fieldOr, hv] at h

/-- The keys of the queue settings are the documented ones. -/
theorem kebabCase_queue : kebabCase "max_queue_depth" = "max-queue-depth" ∧
    kebabCase "max_queue_time" = "max-queue-time" := by
  decide +kernel

/-- A layer has the values of its document exactly when the ignored keys say nothing new. -/
theorem stores_iff {root : IndexMap String ν} {layer : Layer} (hdoc : Y.Documented root)
    (h : Y.layer root = some layer) : Y.Stores root layer ↔ Y.Idle root := by
  obtain ⟨-, -, hdepth, htime, -⟩ := blocks_of_layer h
  have hservice := forall_stores_iff (R := .service Y) hdoc.service
    (fun name => (entries_of_layer h name).1) (fun _ _ => (decodes_of_layer h).1)
  have hcheck := forall_stores_iff (R := .check Y) hdoc.check
    (fun name => (entries_of_layer h name).2.1) (fun _ _ => (decodes_of_layer h).2.1)
  have halert := forall_stores_iff (R := .alert Y) hdoc.alert
    (fun name => (entries_of_layer h name).2.2) (fun _ _ => (decodes_of_layer h).2.2)
  simp only [← storesCheck_iff] at hcheck
  constructor
  · intro hs
    exact ⟨hservice.mp hs.service, hcheck.mp hs.check, halert.mp hs.alert⟩
  · intro hi
    exact
      { service := hservice.mpr hi.service
        check := hcheck.mpr hi.check
        alert := halert.mpr hi.alert
        queueDepth := fun _ hv => read_of_fieldOr hdepth (kebabCase_queue.1 ▸ hv)
        queueTime := fun _ hv => read_of_fieldOr htime (kebabCase_queue.2 ▸ hv) }

/-- The layers have the values of their documents exactly when the ignored keys say nothing new. -/
theorem forall₂_stores_iff {roots : List (IndexMap String ν)} {layers : List Layer}
    (hl : List.Forall₂ (fun root layer => Y.layer root = some layer) roots layers)
    (hdoc : ∀ root ∈ roots, Y.Documented root) :
    List.Forall₂ Y.Stores roots layers ↔ ∀ root ∈ roots, Y.Idle root := by
  induction hl with
  | nil => simp
  | cons h _ ih =>
    obtain ⟨hhead, htail⟩ := List.forall_mem_cons.mp hdoc
    rw [List.forall₂_cons, List.forall_mem_cons, stores_iff hhead h, ih htail]

/-- An entry whose ignored keys say nothing new does not carry `override: replace`. -/
theorem not_saysReplace {α : Type} {R : Reference ν α} {m : IndexMap String ν} (hi : R.Idle m)
    {f : R.schema.Field} (hf : R.isIgnored f = true) (hkey : R.documented f = "override")
    (hread : ∀ v, Y.override v = some .replace → R.schema.read f v ≠ R.schema.default f) :
    ¬Y.SaysReplace m := by
  rintro ⟨v, hv, hreplace⟩
  obtain ⟨d, hd, hmerge⟩ := hi f v hf (hkey ▸ hv)
  exact hread v hreplace (hmerge.trans hd.symm)

/-- The read value of a replacing override is not the default. -/
theorem override_ne {v : ν} (h : Y.override v = some .replace) : Y.override v ≠ some .merge := by
  rw [h]
  exact nofun

/-- Documents that are written with the documented keys are honoured exactly when what they say
under the ignored keys is what the fields are without them. -/
theorem honours_iff {roots : List (IndexMap String ν)} {layers : List Layer}
    (hl : List.Forall₂ (fun root layer => Y.layer root = some layer) roots layers)
    (hdoc : ∀ root ∈ roots, Y.Documented root) :
    Y.Honours roots layers ↔ ∀ root ∈ roots, Y.Idle root := by
  constructor
  · exact fun h => (forall₂_stores_iff hl hdoc).mp h.stores
  · intro hi
    -- No entry carries `override: replace`, so that there is nothing to replace.
    refine ⟨(forall₂_stores_iff hl hdoc).mpr hi, fun i root name m hroot hm hr => ?_,
      fun i root name m hroot hm hr => ?_, fun i root name m hroot hm hr => ?_⟩
    · have hidle := (hi root (List.mem_of_getElem? hroot)).service name m hm
      exact absurd hr (not_saysReplace hidle (f := ServiceField.overrideMode) rfl rfl
        fun _ => override_ne)
    · have hidle := (hi root (List.mem_of_getElem? hroot)).check name m hm
      exact absurd hr (not_saysReplace hidle (f := CheckField.overrideMode) rfl rfl
        fun _ => override_ne)
    · have hidle := (hi root (List.mem_of_getElem? hroot)).alert name m hm
      exact absurd hr (not_saysReplace hidle (f := AlertField.overrideMode) rfl rfl
        fun _ => override_ne)

/-- A document of one service, with an override mode. -/
def overrideDoc (mode : String) : IndexMap String Node :=
  ⟨[("services", .map [("a", .map [("override", .scalar mode), ("command", .scalar "/bin/a")])])],
    by simp⟩

/-- The mapping of its entry. -/
def overrideEntry (mode : String) : IndexMap String Node :=
  ⟨[("override", .scalar mode), ("command", .scalar "/bin/a")], by simp⟩

/-- The only entry of the document is that with the override mode. -/
theorem serviceEntry_overrideDoc {mode name : String} {m : IndexMap String Node}
    (h : Node.yaml.serviceEntry (overrideDoc mode) name = some m) : m = overrideEntry mode := by
  obtain ⟨node, hnode, hmap⟩ := Option.bind_eq_some_iff.mp h
  have hentries : (Node.yaml.block (overrideDoc mode) "services").entries =
      [("a", .map [("override", .scalar mode), ("command", .scalar "/bin/a")])] := rfl
  have hmem := IndexMap.get?_eq_some_iff.mp hnode
  rw [hentries, List.mem_singleton] at hmem
  obtain ⟨-, rfl⟩ := Prod.mk.inj hmem
  exact Option.some.inj (hmap.symm.trans (Node.mapping_map _))

/-- The document is written with the documented keys. -/
theorem documented_overrideDoc (mode : String) : Node.yaml.Documented (overrideDoc mode) where
  service name m hm k v hv := by
    obtain rfl := serviceEntry_overrideDoc hm
    have hmem := IndexMap.get?_eq_some_iff.mp hv
    simp only [overrideEntry, List.mem_cons, List.not_mem_nil, or_false] at hmem
    rcases hmem with hk | hk
    · exact ⟨ServiceField.overrideMode, (Prod.mk.inj hk).1.symm⟩
    · exact ⟨ServiceField.command, (Prod.mk.inj hk).1.symm⟩
  check name m hm := by cases hm
  alert name m hm := by cases hm

/-- The document with `override: merge` is a layer, and it is honoured. -/
theorem honours_of_merge : ∃ layer, Node.yaml.layer (overrideDoc "merge") = some layer ∧
    Node.yaml.Honours [overrideDoc "merge"] [layer] := by
  obtain ⟨layer, hl⟩ : ∃ layer, Node.yaml.layer (overrideDoc "merge") = some layer :=
    Option.isSome_iff_exists.mp (by decide +kernel)
  refine ⟨layer, hl, (honours_iff (.cons hl .nil) ?_).mpr ?_⟩
  · exact List.forall_mem_singleton.mpr (documented_overrideDoc _)
  · refine List.forall_mem_singleton.mpr ⟨fun name m hm f v hf hv => ?_, ?_, ?_⟩
    · obtain rfl := serviceEntry_overrideDoc hm
      cases f with
      | overrideMode =>
        obtain rfl : Node.scalar "merge" = v := Option.some.inj hv
        exact ⟨.merge, rfl, rfl⟩
      | _ => cases hf
    · intro _ _ h; cases h
    · intro _ _ h; cases h

/-- The document with `override: replace` is a layer, too, and it is not honoured. -/
theorem not_honours_of_replace : ∃ layer, Node.yaml.layer (overrideDoc "replace") = some layer ∧
    ¬Node.yaml.Honours [overrideDoc "replace"] [layer] := by
  obtain ⟨layer, hl⟩ : ∃ layer, Node.yaml.layer (overrideDoc "replace") = some layer :=
    Option.isSome_iff_exists.mp (by decide +kernel)
  refine ⟨layer, hl, fun h => ?_⟩
  have hs := (List.forall₂_cons.mp h.stores).1
  have hi := ((stores_iff (documented_overrideDoc _) hl).mp hs).service "a"
    (overrideEntry "replace") (Node.mapping_map _)
  obtain ⟨d, hd, hread⟩ := hi ServiceField.overrideMode (.scalar "replace") rfl rfl
  cases hd.trans hread.symm

end Yaml

end Vigil
