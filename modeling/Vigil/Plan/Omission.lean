import Vigil.Plan.Decode

/-!
# What an overlay leaves out

An entry of a later layer is to change only the fields that it names. Decoding fills the others with
their defaults, and most of the merge functions' lines pass over a default: an absent option, an
empty list, an empty map. Five lines do not look: `startup` of services and checks, `level` of
checks, `format` and `tls_insecure` of alerts are assigned, so that leaving them out sets them to
their defaults. And the URL of an alert has no default, so that an entry without one is no layer at
all. `keeps_iff` says that an overlay keeps what it does not mention exactly where this makes no
difference.
-/

namespace Vigil

open Serde

/-! ## The kinds of entries -/

/-- The service fields that merging takes from the overlay in any case. -/
def ServiceField.isAssigned : ServiceField → Bool
  | startup => true
  | _ => false

/-- The check fields that merging takes from the overlay in any case. -/
def CheckField.isAssigned : CheckField → Bool
  | level | startup => true
  | _ => false

/-- The alert fields that merging takes from the overlay in any case. -/
def AlertField.isAssigned : AlertField → Bool
  | format | tlsInsecure => true
  | _ => false

/-- A kind of entries: how they are decoded and merged, and which of their fields merging assigns.
It keeps the others where the overlay has the default. -/
structure EntryKind (ν α : Type) where
  schema : Schema ν α
  merger : Merger α
  isAssigned : schema.Field → Bool
  get_assigned : ∀ f b o, isAssigned f = true →
    schema.get f (merger.merge b o) = schema.get f o
  get_default : ∀ f b o, isAssigned f = false → schema.default f = some (schema.get f o) →
    schema.get f (merger.merge b o) = schema.get f b

namespace EntryKind

variable {ν : Type} (Y : Yaml ν)

/-- Services. -/
def service : EntryKind ν ServiceConfig where
  schema := serviceSchema Y
  merger := .service
  isAssigned := ServiceField.isAssigned
  get_assigned f b o h := by
    cases f with
    | startup => rfl
    | _ => cases h
  get_default f b o h hd := by
    have hd' : ServiceField.get f {} = f.get o := Option.some.inj hd
    cases f with
    | startup => cases h
    | overrideMode => rfl
    | _ =>
      simp only [ServiceField.get] at hd'
      simp only [serviceSchema, ServiceField.get, Merger.service, mergeService, ← hd']
      rfl

/-- Checks. -/
def check : EntryKind ν CheckConfig where
  schema := checkSchema Y
  merger := .check
  isAssigned := CheckField.isAssigned
  get_assigned f b o h := by
    cases f with
    | level | startup => rfl
    | _ => cases h
  get_default f b o h hd := by
    have hd' : CheckField.get f {} = f.get o := Option.some.inj hd
    cases f with
    | level | startup => cases h
    | overrideMode => rfl
    | _ =>
      simp only [CheckField.get] at hd'
      simp only [checkSchema, CheckField.get, Merger.check, mergeCheck, ← hd']
      rfl

/-- Alerts. -/
def alert : EntryKind ν AlertConfig where
  schema := alertSchema Y
  merger := .alert
  isAssigned := AlertField.isAssigned
  get_assigned f b o h := by
    cases f with
    | format | tlsInsecure => rfl
    | _ => cases h
  get_default f b o h hd := by
    cases f with
    | format | tlsInsecure => cases h
    | overrideMode => rfl
    | url => cases hd
    | _ =>
      have hd' := Option.some.inj hd
      simp only [alertSchema, AlertField.get] at hd'
      simp only [alertSchema, AlertField.get, Merger.alert, mergeAlert, ← hd']
      rfl

variable {α : Type} (K : EntryKind ν α)

/-- An entry under an overlay keeps the fields that the overlay's mapping does not mention. -/
def Keeps (m : IndexMap String ν) (b c : α) : Prop :=
  ∀ f, ¬K.schema.Mentions m f → K.schema.get f c = K.schema.get f b

/-- An entry keeps what its overlay does not mention exactly when each assigned field is mentioned
or has the default already. -/
theorem keeps_merge_iff {m : IndexMap String ν} {b o : α} (h : K.schema.decode m = some o) :
    K.Keeps m b (K.merger.merge b o) ↔
      ∀ f, K.isAssigned f = true → K.schema.Mentions m f ∨
        K.schema.default f = some (K.schema.get f b) := by
  constructor
  · intro hk f hf
    by_cases hm : K.schema.Mentions m f
    · exact .inl hm
    · refine .inr ?_
      rw [Schema.default_of_decode h hm, ← hk f hm, K.get_assigned f b o hf]
  · intro hall f hm
    have hd := Schema.default_of_decode h hm
    cases hf : K.isAssigned f with
    | true =>
      rw [K.get_assigned f b o hf]
      exact Option.some.inj (hd.symm.trans ((hall f hf).resolve_left hm))
    | false => exact K.get_default f b o hf hd

/-- The assigned fields are mentioned or have the default already, in all entries of a layer over a
plan's. -/
def Restates (entry : String → Option (IndexMap String ν)) (lower : IndexMap String α) : Prop :=
  ∀ name m b, entry name = some m → lower.get? name = some b →
    ∀ f, K.isAssigned f = true → K.schema.Mentions m f ∨
      K.schema.default f = some (K.schema.get f b)

/-- A layer's entries over a plan's keep what they do not mention exactly when the assigned fields
are mentioned or have the default already. -/
theorem keeps_overlay_iff {entry : String → Option (IndexMap String ν)}
    (lower : IndexMap String α) {upper : IndexMap String α}
    (hget : ∀ name, upper.get? name = (entry name).bind K.schema.decode)
    (hdecode : ∀ name m, entry name = some m → ∃ o, K.schema.decode m = some o ∧
      K.merger.mode o = .merge) :
    (∀ name m b, entry name = some m → lower.get? name = some b →
        ∃ c, (IndexMap.overlay K.merger.put lower upper).get? name = some c ∧ K.Keeps m b c) ↔
      K.Restates entry lower := by
  refine forall_congr' fun name => forall_congr' fun m => forall_congr' fun b =>
    forall_congr' fun hm => forall_congr' fun hb => ?_
  obtain ⟨o, ho, hmode⟩ := hdecode name m hm
  have hmerged : (IndexMap.overlay K.merger.put lower upper).get? name =
      some (K.merger.merge b o) := by
    rw [IndexMap.get?_overlay, hget, hm, hb, Option.bind_some, ho]
    simp [Merger.put, hmode]
  rw [← K.keeps_merge_iff ho]
  constructor
  · rintro ⟨c, hc, hk⟩
    exact Option.some.inj (hmerged.symm.trans hc) ▸ hk
  · intro hk
    exact ⟨_, hmerged, hk⟩

section

variable {entry : String → Option (IndexMap String ν)}

/-- An overlay restates the services if and only if its entries over known ones mention `startup`
wherever that is not the default already. -/
theorem restates_service_iff (lower : IndexMap String ServiceConfig) :
    (service Y).Restates entry lower ↔ ∀ name m b, entry name = some m →
      lower.get? name = some b → (serviceSchema Y).Mentions m .startup ∨ b.startup = .disabled := by
  refine forall_congr' fun name => forall_congr' fun m => forall_congr' fun b =>
    forall_congr' fun _ => forall_congr' fun _ => ⟨fun h => ?_, fun h f hf => ?_⟩
  · exact (h ServiceField.startup rfl).imp id fun hd => (Option.some.inj hd).symm
  · cases f with
    | startup => exact h.imp id fun hb => congrArg some hb.symm
    | _ => cases hf

/-- An overlay restates the checks if and only if its entries over known ones mention `level` and
`startup` wherever these are not the defaults already. -/
theorem restates_check_iff (lower : IndexMap String CheckConfig) :
    (check Y).Restates entry lower ↔ ∀ name m b, entry name = some m → lower.get? name = some b →
      ((checkSchema Y).Mentions m .level ∨ b.level = .alive) ∧
        ((checkSchema Y).Mentions m .startup ∨ b.startup = .disabled) := by
  refine forall_congr' fun name => forall_congr' fun m => forall_congr' fun b =>
    forall_congr' fun _ => forall_congr' fun _ => ⟨fun h => ⟨?_, ?_⟩, fun h f hf => ?_⟩
  · exact (h CheckField.level rfl).imp id fun hd => (Option.some.inj hd).symm
  · exact (h CheckField.startup rfl).imp id fun hd => (Option.some.inj hd).symm
  · cases f with
    | level => exact h.1.imp id fun hb => congrArg some hb.symm
    | startup => exact h.2.imp id fun hb => congrArg some hb.symm
    | _ => cases hf

/-- An overlay restates the alerts if and only if its entries over known ones mention `format` and
`tls-insecure` wherever these are not the defaults already. -/
theorem restates_alert_iff (lower : IndexMap String AlertConfig) :
    (alert Y).Restates entry lower ↔ ∀ name m b, entry name = some m → lower.get? name = some b →
      ((alertSchema Y).Mentions m .format ∨ b.format = .webhook) ∧
        ((alertSchema Y).Mentions m .tlsInsecure ∨ b.tlsInsecure = false) := by
  refine forall_congr' fun name => forall_congr' fun m => forall_congr' fun b =>
    forall_congr' fun _ => forall_congr' fun _ => ⟨fun h => ⟨?_, ?_⟩, fun h f hf => ?_⟩
  · exact (h AlertField.format rfl).imp id fun hd => (Option.some.inj hd).symm
  · exact (h AlertField.tlsInsecure rfl).imp id fun hd => (Option.some.inj hd).symm
  · cases f with
    | format => exact h.1.imp id fun hb => congrArg some hb.symm
    | tlsInsecure => exact h.2.imp id fun hb => congrArg some hb.symm
    | _ => cases hf

end

end EntryKind

/-! ## Documents -/

/-- Every value that a mapping has for a field can be read. -/
def Schema.Readable {ν α : Type} (s : Schema ν α) (m : IndexMap String ν) : Prop :=
  ∀ f v, m.get? (s.key f) = some v → ∃ t, s.read f v = some t

/-- A mapping whose values can be read decodes when every field that it leaves out has a default. -/
theorem Schema.exists_decode_of_readable {ν α : Type} {s : Schema ν α} {m : IndexMap String ν}
    (h : Schema.Readable s m) :
    (∃ a, s.decode m = some a) ↔ ∀ f, s.Mentions m f ∨ ∃ t, s.default f = some t := by
  rw [s.exists_decode_iff]
  refine forall_congr' fun f => ?_
  unfold Schema.field Schema.Mentions
  cases hv : m.get? (s.key f) with
  | none => simp
  | some v => simp [h f v hv]

namespace Yaml

variable {ν : Type} (Y : Yaml ν)

/-- Everything that a document mentions can be read. -/
structure Readable (root : IndexMap String ν) : Prop where
  summary : ∃ t, fieldOr root "summary" (Y.option Y.string) none = some t
  description : ∃ t, fieldOr root "description" (Y.option Y.string) none = some t
  blocks : ∀ key ∈ ["services", "checks", "alerts"], ∀ v, root.get? key = some v →
    ∃ m, Y.mapping v = some m
  service : ∀ name node, (Y.block root "services").get? name = some node →
    ∃ m, Y.mapping node = some m ∧ Schema.Readable (serviceSchema Y) m
  check : ∀ name node, (Y.block root "checks").get? name = some node →
    ∃ m, Y.mapping node = some m ∧ Schema.Readable (checkSchema Y) m
  alert : ∀ name node, (alertEntries (Y.block root "alerts")).get? name = some node →
    ∃ m, Y.mapping node = some m ∧ Schema.Readable (alertSchema Y) m
  queueDepth : ∃ t, fieldOr (Y.block root "alerts") "max_queue_depth" (Y.option Y.usize) none =
    some t
  queueTime : ∃ t, fieldOr (Y.block root "alerts") "max_queue_time" (Y.option Y.string) none =
    some t

/-- A document that may be laid over the plan: what it mentions can be read, its entries are merged,
and an alert that the plan does not have is given its URL. -/
structure IsOverlay (p : MergedPlan) (root : IndexMap String ν) : Prop extends Y.Readable root where
  mergesService : ∀ name m, Y.serviceEntry root name = some m →
    ∀ v, m.get? ((serviceSchema Y).key .overrideMode) = some v → Y.override v = some .merge
  mergesCheck : ∀ name m, Y.checkEntry root name = some m →
    ∀ v, m.get? ((checkSchema Y).key .overrideMode) = some v → Y.override v = some .merge
  mergesAlert : ∀ name m, Y.alertEntry root name = some m →
    ∀ v, m.get? ((alertSchema Y).key .overrideMode) = some v → Y.override v = some .merge
  newAlert : ∀ name m, Y.alertEntry root name = some m → p.alerts.get? name = none →
    (alertSchema Y).Mentions m .url

/-- Every field of the plan's entries that the document does not mention keeps its value under the
layer. -/
def KeepsUnder (p : MergedPlan) (root : IndexMap String ν) (layer : Layer) : Prop :=
  (∀ name m b, Y.serviceEntry root name = some m → p.services.get? name = some b →
      ∃ c, (p.addLayer layer).services.get? name = some c ∧ (EntryKind.service Y).Keeps m b c) ∧
    (∀ name m b, Y.checkEntry root name = some m → p.checks.get? name = some b →
      ∃ c, (p.addLayer layer).checks.get? name = some c ∧ (EntryKind.check Y).Keeps m b c) ∧
    ∀ name m b, Y.alertEntry root name = some m → p.alerts.get? name = some b →
      ∃ c, (p.addLayer layer).alerts.get? name = some c ∧ (EntryKind.alert Y).Keeps m b c

/-- The document is accepted, and what it does not mention is kept under its layer. -/
def Keeps (p : MergedPlan) (root : IndexMap String ν) : Prop :=
  ∃ layer, Y.layer root = some layer ∧ Y.KeepsUnder p root layer

/-- An overlay that names the fields that merging assigns, unless they have their defaults in the
plan, and that gives the URL of every alert. -/
structure Restates (p : MergedPlan) (root : IndexMap String ν) : Prop where
  serviceStartup : ∀ name m b, Y.serviceEntry root name = some m → p.services.get? name = some b →
    (serviceSchema Y).Mentions m .startup ∨ b.startup = .disabled
  checkLevel : ∀ name m b, Y.checkEntry root name = some m → p.checks.get? name = some b →
    (checkSchema Y).Mentions m .level ∨ b.level = .alive
  checkStartup : ∀ name m b, Y.checkEntry root name = some m → p.checks.get? name = some b →
    (checkSchema Y).Mentions m .startup ∨ b.startup = .disabled
  alertUrl : ∀ name m, Y.alertEntry root name = some m → (alertSchema Y).Mentions m .url
  alertFormat : ∀ name m b, Y.alertEntry root name = some m → p.alerts.get? name = some b →
    (alertSchema Y).Mentions m .format ∨ b.format = .webhook
  alertTlsInsecure : ∀ name m b, Y.alertEntry root name = some m → p.alerts.get? name = some b →
    (alertSchema Y).Mentions m .tlsInsecure ∨ b.tlsInsecure = false

variable {Y}

/-- A block of structs is read when it is a mapping whose entries decode. -/
theorem exists_fieldOr_map {α : Type} {s : Schema ν α} {root : IndexMap String ν} {key : String}
    (hblock : ∀ v, root.get? (kebabCase key) = some v → ∃ m, Y.mapping v = some m)
    (hentry : ∀ name node, (Y.block root (kebabCase key)).get? name = some node →
      ∃ a, Y.struct s node = some a) :
    ∃ r, fieldOr root key (Y.map (Y.struct s)) ∅ = some r := by
  unfold fieldOr
  unfold block at hentry
  cases hv : root.get? (kebabCase key) with
  | none => exact ⟨∅, rfl⟩
  | some v =>
    obtain ⟨m, hm⟩ := hblock v hv
    rw [hv, Option.bind_some, hm, Option.getD_some] at hentry
    obtain ⟨r, hr⟩ := (exists_readMap_iff _).mpr hentry
    exact ⟨r, Option.bind_eq_some_iff.mpr ⟨m, hm, hr⟩⟩

/-- The key of a one-word field is its name. -/
theorem kebabCase_blocks : kebabCase "services" = "services" ∧ kebabCase "checks" = "checks" ∧
    kebabCase "alerts" = "alerts" := by
  decide +kernel

/-- An entry that can be read decodes when its schema has a default for what it leaves out. -/
theorem exists_struct {α : Type} {s : Schema ν α} {node : ν} {m : IndexMap String ν}
    (hm : Y.mapping node = some m) (hr : Schema.Readable s m)
    (hd : ∀ f, s.Mentions m f ∨ ∃ t, s.default f = some t) : ∃ a, Y.struct s node = some a := by
  obtain ⟨a, ha⟩ := (Schema.exists_decode_of_readable hr).mpr hd
  exact ⟨a, Option.bind_eq_some_iff.mpr ⟨m, hm, ha⟩⟩

/-- An alert that can be read decodes when its URL is given. -/
theorem alert_defaults_iff (m : IndexMap String ν) :
    (∀ f, (alertSchema Y).Mentions m f ∨ ∃ t, (alertSchema Y).default f = some t) ↔
      (alertSchema Y).Mentions m .url := by
  constructor
  · intro h
    refine (h .url).resolve_right ?_
    rintro ⟨t, ht⟩
    cases ht
  · intro h f
    by_cases hf : f = AlertField.url
    · exact .inl (hf ▸ h)
    · exact .inr ⟨_, if_neg hf⟩

/-- A document that can be read is a layer when the URL of every alert is given. -/
theorem exists_layer {root : IndexMap String ν} (hr : Y.Readable root)
    (hurl : ∀ name m, Y.alertEntry root name = some m → (alertSchema Y).Mentions m .url) :
    ∃ layer, Y.layer root = some layer := by
  obtain ⟨hks, hkc, hka⟩ := kebabCase_blocks
  obtain ⟨summary, hsummary⟩ := hr.summary
  obtain ⟨description, hdescription⟩ := hr.description
  obtain ⟨services, hservices⟩ : ∃ r,
      fieldOr root "services" (Y.map (Y.struct (serviceSchema Y))) ∅ = some r := by
    refine exists_fieldOr_map ?_ fun name node hnode => ?_
    · rw [hks]
      exact hr.blocks _ (by simp)
    · rw [hks] at hnode
      obtain ⟨m, hm, hread⟩ := hr.service name node hnode
      exact exists_struct hm hread fun f => .inr ⟨_, rfl⟩
  obtain ⟨checks, hchecks⟩ : ∃ r,
      fieldOr root "checks" (Y.map (Y.struct (checkSchema Y))) ∅ = some r := by
    refine exists_fieldOr_map ?_ fun name node hnode => ?_
    · rw [hkc]
      exact hr.blocks _ (by simp)
    · rw [hkc] at hnode
      obtain ⟨m, hm, hread⟩ := hr.check name node hnode
      exact exists_struct hm hread fun f => .inr ⟨_, rfl⟩
  obtain ⟨alerts, halerts⟩ : ∃ a,
      fieldOr root "alerts" (fun v => (Y.mapping v).bind Y.alertsBlock) {} = some a := by
    unfold fieldOr
    rw [hka]
    cases hv : root.get? "alerts" with
    | none => exact ⟨_, rfl⟩
    | some v =>
      obtain ⟨m, hm⟩ := hr.blocks "alerts" (by simp) v hv
      have hblock : Y.block root "alerts" = m := by
        rw [block, hv, Option.bind_some, hm, Option.getD_some]
      obtain ⟨depth, hdepth⟩ := hr.queueDepth
      obtain ⟨time, htime⟩ := hr.queueTime
      obtain ⟨entries, hentries⟩ : ∃ r,
          readMap (Y.struct (alertSchema Y)) (alertEntries m) = some r := by
        refine (exists_readMap_iff _).mpr fun name node hnode => ?_
        obtain ⟨e, he, hread⟩ := hr.alert name node (hblock.symm ▸ hnode)
        refine exists_struct he hread ((alert_defaults_iff e).mpr (hurl name e ?_))
        rw [alertEntry, hblock, hnode, Option.bind_some, he]
      rw [hblock] at hdepth htime
      refine ⟨{ maxQueueDepth := depth, maxQueueTime := time, entries }, ?_⟩
      simp only [hm, Option.bind_some, alertsBlock, hdepth, htime, hentries]
      rfl
  refine ⟨{ services, checks, alerts }, ?_⟩
  simp only [layer, hsummary, hdescription, hservices, hchecks, halerts]
  rfl

/-- The override mode of an entry that is not said to replace. -/
theorem merges_of_decode {α : Type} {s : Schema ν α} {f : s.Field} {m : IndexMap String ν} {o : α}
    {merge : s.Ty f} (h : s.decode m = some o) (hd : s.default f = some merge)
    (hm : ∀ v, m.get? (s.key f) = some v → s.read f v = some merge) : s.get f o = merge := by
  cases hv : m.get? (s.key f) with
  | none => exact Option.some.inj ((Schema.default_of_decode h (not_not.mpr hv)).symm.trans hd)
  | some v => exact Option.some.inj ((Schema.read_of_decode h hv).symm.trans (hm v hv))

/-- The entries of an overlay have decoded, and are merged. -/
theorem entries_merge {p : MergedPlan} {root : IndexMap String ν} (h : Y.IsOverlay p root)
    {layer : Layer} (hl : Y.layer root = some layer) :
    (∀ name m, Y.serviceEntry root name = some m → ∃ o, (serviceSchema Y).decode m = some o ∧
        Merger.service.mode o = .merge) ∧
      (∀ name m, Y.checkEntry root name = some m → ∃ o, (checkSchema Y).decode m = some o ∧
        Merger.check.mode o = .merge) ∧
      ∀ name m, Y.alertEntry root name = some m → ∃ o, (alertSchema Y).decode m = some o ∧
        Merger.alert.mode o = .merge := by
  refine ⟨fun name m hm => ?_, fun name m hm => ?_, fun name m hm => ?_⟩
  · obtain ⟨o, ho⟩ := (decodes_of_layer hl).1 hm
    exact ⟨o, ho, merges_of_decode (s := serviceSchema Y) (f := ServiceField.overrideMode) ho rfl
      (h.mergesService name m hm)⟩
  · obtain ⟨o, ho⟩ := (decodes_of_layer hl).2.1 hm
    exact ⟨o, ho, merges_of_decode (s := checkSchema Y) (f := CheckField.overrideMode) ho rfl
      (h.mergesCheck name m hm)⟩
  · obtain ⟨o, ho⟩ := (decodes_of_layer hl).2.2 hm
    exact ⟨o, ho, merges_of_decode (s := alertSchema Y) (f := AlertField.overrideMode) ho rfl
      (h.mergesAlert name m hm)⟩

/-- An overlay keeps what it omits if and only if it restates services, checks and alerts. -/
theorem keepsUnder_iff {p : MergedPlan} {root : IndexMap String ν} (h : Y.IsOverlay p root)
    {layer : Layer} (hl : Y.layer root = some layer) :
    Y.KeepsUnder p root layer ↔
      (EntryKind.service Y).Restates (Y.serviceEntry root) p.services ∧
        (EntryKind.check Y).Restates (Y.checkEntry root) p.checks ∧
        (EntryKind.alert Y).Restates (Y.alertEntry root) p.alerts := by
  have hentries := entries_of_layer hl
  obtain ⟨hs, hc, ha⟩ := entries_merge h hl
  simp only [KeepsUnder, MergedPlan.addLayer, Merger.foldl_putEntry]
  exact and_congr
    ((EntryKind.service Y).keeps_overlay_iff p.services (fun name => (hentries name).1) hs)
    (and_congr
      ((EntryKind.check Y).keeps_overlay_iff p.checks (fun name => (hentries name).2.1) hc)
      ((EntryKind.alert Y).keeps_overlay_iff p.alerts (fun name => (hentries name).2.2) ha))

/-- An overlay restates a plan if and only if it has a `url` for each alert and restates services,
checks and alerts. -/
theorem restates_iff {p : MergedPlan} {root : IndexMap String ν} : Y.Restates p root ↔
    (∀ name m, Y.alertEntry root name = some m → (alertSchema Y).Mentions m .url) ∧
      (EntryKind.service Y).Restates (Y.serviceEntry root) p.services ∧
      (EntryKind.check Y).Restates (Y.checkEntry root) p.checks ∧
      (EntryKind.alert Y).Restates (Y.alertEntry root) p.alerts := by
  rw [EntryKind.restates_service_iff, EntryKind.restates_check_iff, EntryKind.restates_alert_iff]
  constructor
  · intro hr
    exact ⟨hr.alertUrl, hr.serviceStartup,
      fun name m b hm hb => ⟨hr.checkLevel name m b hm hb, hr.checkStartup name m b hm hb⟩,
      fun name m b hm hb => ⟨hr.alertFormat name m b hm hb, hr.alertTlsInsecure name m b hm hb⟩⟩
  · rintro ⟨hu, hs, hc, ha⟩
    exact ⟨hs, fun name m b hm hb => (hc name m b hm hb).1,
      fun name m b hm hb => (hc name m b hm hb).2, hu,
      fun name m b hm hb => (ha name m b hm hb).1, fun name m b hm hb => (ha name m b hm hb).2⟩

/-- An overlay is accepted, and keeps everything of the plan that it does not mention, exactly when
it names the fields that merging assigns, unless they have their defaults in the plan, and gives the
URL of every alert. -/
theorem keeps_iff {p : MergedPlan} {root : IndexMap String ν} (h : Y.IsOverlay p root) :
    Y.Keeps p root ↔ Y.Restates p root := by
  rw [restates_iff]
  constructor
  · rintro ⟨layer, hl, hk⟩
    refine ⟨fun name m hm => ?_, (keepsUnder_iff h hl).mp hk⟩
    -- An alert that has decoded has its URL.
    obtain ⟨o, ho⟩ := (decodes_of_layer hl).2.2 hm
    by_contra hnot
    cases Schema.default_of_decode ho hnot
  · rintro ⟨hu, hk⟩
    obtain ⟨layer, hl⟩ := exists_layer h.toReadable hu
    exact ⟨layer, hl, (keepsUnder_iff h hl).mpr hk⟩

/-- An overlay that gives the service `a` a summary. -/
def summaryDoc : IndexMap String Node :=
  ⟨[("services", .map [("a", .map [("summary", .scalar "x")])])], by simp⟩

/-- The only entry of the overlay is that of `a`, with the summary. -/
theorem serviceEntry_summaryDoc {name : String} {node : Node}
    (h : (Node.yaml.block summaryDoc "services").get? name = some node) :
    name = "a" ∧ node = .map [("summary", .scalar "x")] := by
  have hmem := IndexMap.get?_eq_some_iff.mp h
  have hentries : (Node.yaml.block summaryDoc "services").entries =
      [("a", .map [("summary", .scalar "x")])] := rfl
  rw [hentries] at hmem
  simpa using hmem

/-- The mapping of the only entry. -/
def summaryEntry : IndexMap String Node := ⟨[("summary", .scalar "x")], by simp⟩

/-- The only field that the overlay mentions is the summary. -/
theorem get?_summaryEntry {f : ServiceField} {v : Node}
    (h : summaryEntry.get? ((serviceSchema Node.yaml).key f) = some v) :
    f = .summary ∧ v = .scalar "x" := by
  have hmem : ((serviceSchema Node.yaml).key f, v) = ("summary", .scalar "x") := by
    simpa [summaryEntry] using IndexMap.get?_eq_some_iff.mp h
  obtain ⟨hkey, rfl⟩ := Prod.mk.inj hmem
  refine ⟨?_, rfl⟩
  cases f with
  | summary => rfl
  | _ => exact absurd hkey (by decide +kernel)

/-- The document may be laid over any plan. -/
theorem isOverlay_summaryDoc (p : MergedPlan) : Node.yaml.IsOverlay p summaryDoc where
  summary := ⟨none, rfl⟩
  description := ⟨none, rfl⟩
  blocks key _ v hv := by
    have hmem : (key, v) = ("services", .map [("a", .map [("summary", .scalar "x")])]) := by
      simpa [summaryDoc] using IndexMap.get?_eq_some_iff.mp hv
    obtain ⟨-, rfl⟩ := Prod.mk.inj hmem
    exact ⟨_, Node.mapping_map (by simp)⟩
  service name node h := by
    obtain ⟨rfl, rfl⟩ := serviceEntry_summaryDoc h
    refine ⟨summaryEntry, Node.mapping_map _, fun f v hv => ?_⟩
    obtain ⟨rfl, rfl⟩ := get?_summaryEntry hv
    exact ⟨some "x", rfl⟩
  check name node h := by cases h
  alert name node h := by cases h
  queueDepth := ⟨none, rfl⟩
  queueTime := ⟨none, rfl⟩
  mergesService name m hm v hv := by
    obtain ⟨node, hnode, hmap⟩ := Option.bind_eq_some_iff.mp hm
    obtain ⟨rfl, rfl⟩ := serviceEntry_summaryDoc hnode
    obtain rfl : summaryEntry = m := Option.some.inj ((Node.mapping_map _).symm.trans hmap)
    obtain ⟨hf, -⟩ := get?_summaryEntry hv
    cases hf
  mergesCheck name m hm := by cases hm
  mergesAlert name m hm := by cases hm
  newAlert name m hm := by cases hm

/-- The plan of one service. -/
def servicePlan (config : ServiceConfig) : MergedPlan where
  services := ⟨[("a", config)], by simp⟩

/-- The overlay keeps everything of a service that is disabled. -/
theorem keeps_of_disabled :
    Node.yaml.Keeps (servicePlan { command := some "/bin/a" }) summaryDoc := by
  refine (keeps_iff (isOverlay_summaryDoc _)).mpr ⟨fun name m b _ hb => .inr ?_, ?_, ?_, ?_, ?_, ?_⟩
  · have hmem : (name, b) = ("a", { command := some "/bin/a" }) := by
      simpa [servicePlan] using IndexMap.get?_eq_some_iff.mp hb
    obtain ⟨-, rfl⟩ := Prod.mk.inj hmem
    rfl
  · intro _ _ _ h; cases h
  · intro _ _ _ h; cases h
  · intro _ _ h; cases h
  · intro _ _ _ h; cases h
  · intro _ _ _ h; cases h

/-- The overlay disables a service that is enabled. -/
theorem not_keeps_of_enabled :
    ¬Node.yaml.Keeps (servicePlan { startup := .enabled }) summaryDoc := by
  rintro ⟨layer, hl, hk⟩
  have hs := ((keepsUnder_iff (isOverlay_summaryDoc _) hl).mp hk).1
  have hentry : Node.yaml.serviceEntry summaryDoc "a" = some summaryEntry := by
    exact Option.bind_eq_some_iff.mpr ⟨.map [("summary", .scalar "x")], rfl, Node.mapping_map _⟩
  rcases hs "a" summaryEntry { startup := .enabled } hentry rfl ServiceField.startup rfl
    with hm | hd
  · exact hm (by decide +kernel)
  · cases hd

end Yaml

end Vigil
