import Vigil.Alert.Delivery
import Vigil.Alert.Payload
import Vigil.NoProxy

/-!
# What an alert sends

The request of `http_send` and the proxy decision of its client (`alert/delivery/send.rs`,
`alert/delivery/client.rs`, and `build_http_client` of `tls/proxy.rs`), as they come from the
configuration of an alert and the environment of the daemon.

The URL, the labels, and the fields go through `resolve`, but the values of the headers, the proxy,
and the list of hosts that bypass it do not. `resolvesEverywhere_iff` says for which configurations
the alert is sent as if every text of the form `env:VAR` had been replaced beforehand
(`AlertConfig.resolved`): for those that have no such text in the three places.
-/

namespace Vigil

/-- The start of a URL with a query. -/
def queryStart : String := "http://proxy/?"

/-- The libraries that `http_send` and `build_client` use. -/
structure HttpLibrary (υ : Type) where
  /-- The URL of a text. -/
  parseUrl : String → Option υ
  /-- The payload that a template makes. -/
  render : String → TemplateContext → Option Value
  /-- A file of certificates can be loaded. -/
  loadsPem : String → Bool
  /-- The client's TLS can be set up. -/
  builds : Bool
  /-- A relative URL needs a base. -/
  parseUrl_relative : parseUrl "proxy" = none
  /-- An absolute URL may have a query. -/
  parseUrl_query : ∀ query : List Char, (query.all fun c => c.isAlpha || c = ',') →
    (parseUrl (String.ofList (queryStart.toList ++ query))).isSome

/-- Where a client sends a request for a host. -/
inductive ProxyDecision (υ : Type)
  /-- `reqwest` decides, as it does without a configured proxy. -/
  | system
  | direct
  | via (proxy : υ)
  deriving DecidableEq

/-- A client. -/
inductive HttpClient (υ : Type)
  /-- `Client::new()`. -/
  | default
  /-- A client with a proxy and the entries that bypass it, or without a proxy of its own. -/
  | built (proxy : Option (υ × List (List Char)))

/-- The proxy decision of a client. -/
def HttpClient.proxyFor {υ : Type} : HttpClient υ → List Char → ProxyDecision υ
  | built (some (proxy, entries)), host =>
    if Tls.noProxyMatches host entries then .direct else .via proxy
  | _, _ => .system

/-- The variables that name a proxy. -/
def proxyVars : List String :=
  ["HTTPS_PROXY", "https_proxy", "ALL_PROXY", "all_proxy", "HTTP_PROXY", "http_proxy"]

section Client

variable {υ : Type} (lib : HttpLibrary υ) (env : String → Option String) (cfg : AlertConfig)

/-- The proxy of a client: the one that is configured, or that of the first variable with a
text. -/
def effectiveProxy : Option String :=
  cfg.proxy.or ((proxyVars.filterMap env).find? fun v => v ≠ "")

/-- The files of certificates can be loaded, and the client's TLS can be set up. -/
def clientBuilds : Bool :=
  cfg.tlsCa.all lib.loadsPem && cfg.proxyCa.all lib.loadsPem && lib.builds

/-- `build_http_client`, with the settings of `build_client`. -/
def buildHttpClient : Option (HttpClient υ) :=
  if clientBuilds lib cfg then
    match effectiveProxy env cfg with
    | none => some (.built none)
    | some url => do
      let proxy ← lib.parseUrl url
      some (.built (some (proxy, Tls.parseNoProxy (cfg.noProxy.map String.toList))))
  else none

/-- `build_client`. -/
def buildClient : HttpClient υ := (buildHttpClient lib env cfg).getD .default

end Client

/-- A request of `http_send`, as it is handed to the client. -/
structure HttpRequest where
  url : String
  headers : List (String × String)
  body : Value

/-- A request, and the proxy decision for every host that it leads to. -/
structure Outgoing (υ : Type) where
  request : HttpRequest
  proxyFor : List Char → ProxyDecision υ

/-- What an alert sends, if anything. -/
def outgoing {υ : Type} (lib : HttpLibrary υ) (res : String → String)
    (env : String → Option String) (stamp : Stamp) (check : String) (status : CheckStatus)
    (cfg : AlertConfig) : Option (Outgoing υ) :=
  let url := res cfg.url
  if url = "" then none
  else some {
    request := {
      url
      headers := ("Content-Type", cfg.format.contentType) :: cfg.headers.entries
      body := formatPayload lib.render res stamp check status cfg }
    proxyFor := (buildClient lib env cfg).proxyFor }

namespace AlertConfig

variable {υ : Type} (lib : HttpLibrary υ) (cfg : AlertConfig)

/-- The configuration with the current values in all the places where `env:VAR` is documented. -/
def resolved (env : String → Option String) : AlertConfig :=
  { cfg with
    url := resolve env cfg.url
    headers := cfg.headers.mapValues (resolve env)
    labels := cfg.labels.mapValues (resolve env)
    sendInfoFields := cfg.sendInfoFields.mapValues (resolve env)
    proxy := cfg.proxy.map (resolve env)
    noProxy := cfg.noProxy.map (resolve env) }

/-- The configured values get into what the alert sends by the current values of their variables
only: the alert is sent as one whose configuration has these values, and has them taken as they
are. -/
def ResolvesEverywhere : Prop :=
  ∀ env stamp check status, outgoing lib (resolve env) env stamp check status cfg =
    outgoing lib id env stamp check status (cfg.resolved env)

end AlertConfig

/-- A text of the form `env:VAR`. -/
def IsReference (val : String) : Prop := "env:".toList <+: val.toList

instance (val : String) : Decidable (IsReference val) :=
  inferInstanceAs (Decidable ("env:".toList <+: val.toList))

/-- There is no reference in the places that do not go through `resolve`. The proxy and the list of
hosts are used only where a client with a proxy is built. -/
structure AlertConfig.NoReference {υ : Type} (lib : HttpLibrary υ) (cfg : AlertConfig) : Prop where
  headers : ∀ e ∈ cfg.headers.entries, ¬IsReference e.2
  proxy : clientBuilds lib cfg = true → ∀ p, cfg.proxy = some p → ¬IsReference p
  noProxy : clientBuilds lib cfg = true → (∀ p, cfg.proxy = some p → (lib.parseUrl p).isSome) →
    ∀ n, cfg.noProxy = some n → ¬IsReference n

/-! ## Resolution -/

section Resolve

variable {env : String → Option String} {val : String}

/-- A text that is not a reference stands for itself. -/
theorem resolve_of_not_isReference (h : ¬IsReference val) : resolve env val = val := by
  unfold resolve
  split
  · next var hvar =>
    obtain ⟨pre, hpre, heq⟩ := List.dropPrefix?_eq_some_iff.mp hvar
    exact absurd ⟨var, (eq_of_beq heq ▸ hpre).symm⟩ h
  · rfl

/-- A reference stands for the value of its variable. -/
theorem resolve_const_of_isReference {value : String} (h : IsReference val) :
    resolve (fun _ => some value) val = value := by
  obtain ⟨var, hvar⟩ := h
  have hdrop : val.toList.dropPrefix? "env:".toList = some var :=
    List.dropPrefix?_eq_some_iff.mpr ⟨_, hvar.symm, BEq.rfl⟩
  simp only [resolve, hdrop, Option.getD_some]

/-- A text is not resolved to nothing where the variables have values. -/
theorem resolve_const_ne_empty {value : String} (hvalue : value ≠ "") (hval : val ≠ "") :
    resolve (fun _ => some value) val ≠ "" := by
  by_cases h : IsReference val
  · rw [resolve_const_of_isReference h]
    exact hvalue
  · rw [resolve_of_not_isReference h]
    exact hval

/-- Texts that are not references stand for themselves. -/
theorem mapValues_resolve {m : IndexMap String String} (h : ∀ e ∈ m.entries, ¬IsReference e.2) :
    m.mapValues (resolve env) = m := by
  have hentries : m.entries.map (fun e => (e.1, resolve env e.2)) = m.entries :=
    (List.map_congr_left fun e he => by rw [resolve_of_not_isReference (h e he), id]).trans
      (List.map_id _)
  cases m
  simpa [IndexMap.mapValues] using hentries

end Resolve

section Equality

variable {υ : Type} {lib : HttpLibrary υ} {env : String → Option String} {stamp : Stamp}
  {check : String} {status : CheckStatus} {cfg : AlertConfig}

/-- Whether a client is built does not depend on the resolution. -/
@[simp] theorem clientBuilds_resolved :
    clientBuilds lib (cfg.resolved env) = clientBuilds lib cfg := rfl

/-- The body is that of the resolved configuration. -/
theorem formatPayload_resolved :
    formatPayload lib.render (resolve env) stamp check status cfg =
      formatPayload lib.render id stamp check status (cfg.resolved env) :=
  formatPayload_eq rfl rfl (IndexMap.mapValues_id _).symm (IndexMap.mapValues_id _).symm

/-- Nothing is sent to an empty URL. -/
theorem outgoing_of_empty {res : String → String} (h : res cfg.url = "") :
    outgoing lib res env stamp check status cfg = none := by
  simp only [outgoing, h, if_true]

/-- An alert with a URL is sent. -/
theorem outgoing_of_ne {res : String → String} (h : res cfg.url ≠ "") :
    outgoing lib res env stamp check status cfg = some {
      request := {
        url := res cfg.url
        headers := ("Content-Type", cfg.format.contentType) :: cfg.headers.entries
        body := formatPayload lib.render res stamp check status cfg }
      proxyFor := (buildClient lib env cfg).proxyFor } := by
  simp only [outgoing, h, if_false]

/-- The client is that of the resolved configuration, where the proxy and the list of hosts have no
reference. -/
theorem buildClient_resolved (h : cfg.NoReference lib) :
    buildClient lib env cfg = buildClient lib env (cfg.resolved env) := by
  unfold buildClient buildHttpClient
  rw [clientBuilds_resolved]
  cases hbuilds : clientBuilds lib cfg with
  | false => rfl
  | true =>
    -- The list of hosts matters only when there is a proxy and it is a URL.
    have hproxy : cfg.proxy.map (resolve env) = cfg.proxy := by
      cases hp : cfg.proxy with
      | none => rfl
      | some p => rw [Option.map_some, resolve_of_not_isReference (h.proxy hbuilds p hp)]
    have heffective : effectiveProxy env (cfg.resolved env) = effectiveProxy env cfg := by
      unfold effectiveProxy
      rw [← hproxy]
      rfl
    rw [heffective]
    cases heff : effectiveProxy env cfg with
    | none => rfl
    | some url =>
      cases hurl : lib.parseUrl url with
      | none => simp [hurl]
      | some proxy =>
        have hnoProxy : cfg.noProxy.map (resolve env) = cfg.noProxy := by
          cases hn : cfg.noProxy with
          | none => rfl
          | some n =>
            rw [Option.map_some, resolve_of_not_isReference (h.noProxy hbuilds ?_ n hn)]
            intro p hp
            rw [effectiveProxy, hp, Option.some_or, Option.some.injEq] at heff
            rw [heff, hurl]
            rfl
        have hresolved : (cfg.resolved env).noProxy = cfg.noProxy := hnoProxy
        rw [hresolved]

/-- What is sent is that of the resolved configuration, where no reference is left as it is. -/
theorem outgoing_eq_of_noReference (h : cfg.NoReference lib) :
    outgoing lib (resolve env) env stamp check status cfg =
      outgoing lib id env stamp check status (cfg.resolved env) := by
  by_cases hurl : resolve env cfg.url = ""
  · have hurl' : id (cfg.resolved env).url = "" := hurl
    rw [outgoing_of_empty hurl, outgoing_of_empty hurl']
  · have hurl' : id (cfg.resolved env).url ≠ "" := hurl
    have hheaders : (cfg.resolved env).headers = cfg.headers := mapValues_resolve h.headers
    rw [outgoing_of_ne hurl, outgoing_of_ne hurl', formatPayload_resolved, buildClient_resolved h,
      hheaders]
    rfl

/-- A client whose proxy is a URL uses it. -/
theorem proxyFor_buildClient_of_some (hbuilds : clientBuilds lib cfg = true) {url : String}
    (heff : effectiveProxy env cfg = some url) {proxy : υ} (hurl : lib.parseUrl url = some proxy)
    (host : List Char) : (buildClient lib env cfg).proxyFor host =
      if Tls.noProxyMatches host (Tls.parseNoProxy (cfg.noProxy.map String.toList)) then .direct
      else .via proxy := by
  simp [buildClient, buildHttpClient, hbuilds, heff, hurl, HttpClient.proxyFor]

/-- A client whose proxy is not a URL is the default one. -/
theorem proxyFor_buildClient_of_none (hbuilds : clientBuilds lib cfg = true) {url : String}
    (heff : effectiveProxy env cfg = some url) (hurl : lib.parseUrl url = none)
    (host : List Char) : (buildClient lib env cfg).proxyFor host = .system := by
  simp [buildClient, buildHttpClient, hbuilds, heff, hurl, HttpClient.proxyFor]

/-- Without a proxy in the configuration it is that of the variables. -/
theorem effectiveProxy_of_none {value : String} (hvalue : value ≠ "") (hproxy : cfg.proxy = none) :
    effectiveProxy (fun _ => some value) cfg = some value := by
  simp [effectiveProxy, hproxy, proxyVars, hvalue]

end Equality

/-! ## References that are left -/

section Converse

variable {υ : Type} {lib : HttpLibrary υ} {cfg : AlertConfig}

/-- The parts of what is sent, in an environment in which all variables have one value. -/
theorem AlertConfig.ResolvesEverywhere.parts (h : cfg.ResolvesEverywhere lib) (hurl : cfg.url ≠ "")
    {value : String} (hvalue : value ≠ "") :
    cfg.headers.entries =
        (cfg.headers.mapValues (resolve fun _ => some value)).entries ∧
      (buildClient lib (fun _ => some value) cfg).proxyFor =
        (buildClient lib (fun _ => some value) (cfg.resolved fun _ => some value)).proxyFor := by
  have heq := h (fun _ => some value) ⟨"", "", "", ""⟩ "" .up
  have hne := resolve_const_ne_empty hvalue hurl
  have hne' : id (cfg.resolved fun _ => some value).url ≠ "" := hne
  rw [outgoing_of_ne hne, outgoing_of_ne hne'] at heq
  simp only [Option.some.injEq, Outgoing.mk.injEq, HttpRequest.mk.injEq, List.cons.injEq] at heq
  exact ⟨heq.1.2.1.2, heq.2⟩

/-- If everything that is sent is resolved and there is an address, no header is a reference. -/
theorem AlertConfig.ResolvesEverywhere.headers (h : cfg.ResolvesEverywhere lib)
    (hurl : cfg.url ≠ "") : ∀ e ∈ cfg.headers.entries, ¬IsReference e.2 := by
  intro e he href
  have hvalue : ("proxy" : String) ≠ "" := by decide
  obtain ⟨hheaders, -⟩ := h.parts hurl hvalue
  -- The header is sent as it is and should be the value, so that it would be `proxy`.
  obtain ⟨k, hk⟩ := List.mem_iff_getElem?.mp he
  have hk' := hk
  rw [hheaders, IndexMap.entries_mapValues, List.getElem?_map, hk, Option.map_some,
    resolve_const_of_isReference href] at hk'
  have hval : "proxy" = e.2 := congrArg Prod.snd (Option.some.inj hk')
  rw [← hval] at href
  simp [IsReference] at href

/-- The text of a proxy with a query. -/
def proxyText (query : List Char) : String := String.ofList (queryStart.toList ++ query)

/-- The text of a proxy is not empty. -/
theorem proxyText_ne_empty (query : List Char) : proxyText query ≠ "" := by
  intro h
  have hlist := congrArg String.toList h
  rw [proxyText, String.toList_ofList, String.toList_empty] at hlist
  exact absurd (List.append_eq_nil_iff.mp hlist).1 (by decide +kernel)

/-- The proxy is not a reference, where a client is built. -/
theorem AlertConfig.ResolvesEverywhere.proxy (h : cfg.ResolvesEverywhere lib) (hurl : cfg.url ≠ "")
    (hbuilds : clientBuilds lib cfg = true) {p : String} (hp : cfg.proxy = some p) :
    ¬IsReference p := by
  intro href
  have hactual : ∀ value : String, effectiveProxy (fun _ => some value) cfg = some p := by
    intro value
    rw [effectiveProxy, hp, Option.some_or]
  have hideal : ∀ value : String, effectiveProxy (fun _ => some value)
      (cfg.resolved fun _ => some value) = some value := by
    intro value
    simp only [effectiveProxy, AlertConfig.resolved, hp, Option.map_some, Option.some_or,
      resolve_const_of_isReference href]
  cases hparse : lib.parseUrl p with
  | some proxy =>
    -- With a value that is not a URL the client should be the default one, and it is not.
    have hvalue : ("proxy" : String) ≠ "" := by decide
    have hhost := congrFun (h.parts hurl hvalue).2 []
    have ha := proxyFor_buildClient_of_some hbuilds (hactual "proxy") hparse []
    have hi := proxyFor_buildClient_of_none (clientBuilds_resolved.trans hbuilds) (hideal "proxy")
      lib.parseUrl_relative []
    rw [ha, hi] at hhost
    split_ifs at hhost
  | none =>
    -- With a URL it should not be the default one, and it is.
    obtain ⟨proxy, hproxy⟩ := Option.isSome_iff_exists.mp (lib.parseUrl_query [] rfl)
    have hhost := congrFun (h.parts hurl (proxyText_ne_empty [])).2 []
    have ha := proxyFor_buildClient_of_none hbuilds (hactual (proxyText [])) hparse []
    have hi := proxyFor_buildClient_of_some (clientBuilds_resolved.trans hbuilds)
      (hideal (proxyText [])) hproxy []
    rw [ha, hi] at hhost
    split_ifs at hhost

/-- The list of hosts is not a reference, where a client with a proxy is built. -/
theorem AlertConfig.ResolvesEverywhere.noProxy (h : cfg.ResolvesEverywhere lib)
    (hurl : cfg.url ≠ "") (hbuilds : clientBuilds lib cfg = true)
    (hparse : ∀ p, cfg.proxy = some p → (lib.parseUrl p).isSome) {n : String}
    (hn : cfg.noProxy = some n) : ¬IsReference n := by
  intro href
  -- With a list that names the host or not, the decision should be the one or the other.
  have hdecides : ∀ query : List Char, (query.all fun c => c.isAlpha || c = ',') = true →
      Tls.noProxyMatches ['a'] (Tls.parseNoProxy (some n.toList)) =
        Tls.noProxyMatches ['a'] (Tls.parseNoProxy (some (proxyText query).toList)) := by
    intro query hquery
    obtain ⟨url, hactual, hideal, hsome⟩ : ∃ url,
        effectiveProxy (fun _ => some (proxyText query)) cfg = some url ∧
          effectiveProxy (fun _ => some (proxyText query))
            (cfg.resolved fun _ => some (proxyText query)) = some url ∧
          (lib.parseUrl url).isSome := by
      cases hp : cfg.proxy with
      | none =>
        have hp' : (cfg.resolved fun _ => some (proxyText query)).proxy = none := by
          rw [AlertConfig.resolved, hp]
          rfl
        exact ⟨_, effectiveProxy_of_none (proxyText_ne_empty query) hp,
          effectiveProxy_of_none (proxyText_ne_empty query) hp', lib.parseUrl_query query hquery⟩
      | some p =>
        have hliteral := h.proxy hurl hbuilds hp
        refine ⟨p, ?_, ?_, hparse p hp⟩
        · rw [effectiveProxy, hp, Option.some_or]
        · simp only [effectiveProxy, AlertConfig.resolved, hp, Option.map_some, Option.some_or,
            resolve_of_not_isReference hliteral]
    obtain ⟨proxy, hproxy⟩ := Option.isSome_iff_exists.mp hsome
    -- The actual client has the list as it is configured, and the ideal one has the value.
    have hhost := congrFun (h.parts hurl (proxyText_ne_empty query)).2 ['a']
    have hlist : (cfg.resolved fun _ => some (proxyText query)).noProxy =
        some (proxyText query) := by
      simp only [AlertConfig.resolved, hn, Option.map_some, resolve_const_of_isReference href]
    rw [proxyFor_buildClient_of_some hbuilds hactual hproxy,
      proxyFor_buildClient_of_some (clientBuilds_resolved.trans hbuilds) hideal hproxy, hn, hlist,
      Option.map_some, Option.map_some] at hhost
    split_ifs at hhost with hm hm' hm'
    · rw [hm, hm']
    · rw [Bool.eq_false_iff.mpr hm, Bool.eq_false_iff.mpr hm']
  have hnamed := hdecides [',', 'a'] rfl
  have hunnamed := hdecides [] rfl
  rw [hnamed, proxyText, proxyText, String.toList_ofList, String.toList_ofList] at hunnamed
  exact absurd hunnamed (by decide +kernel)

end Converse

/-- The values of an alert are resolved everywhere if and only if the alert has no URL, or no
reference in a header, and, where a client with a proxy is built, none in the proxy and the list of
hosts. -/
theorem resolvesEverywhere_iff {υ : Type} (lib : HttpLibrary υ) (cfg : AlertConfig) :
    cfg.ResolvesEverywhere lib ↔ cfg.url = "" ∨ cfg.NoReference lib := by
  constructor
  · intro h
    refine or_iff_not_imp_left.mpr fun hurl => ⟨h.headers hurl, ?_, ?_⟩
    · intro hbuilds p hp
      exact h.proxy hurl hbuilds hp
    · intro hbuilds hparse n hn
      exact h.noProxy hurl hbuilds hparse hn
  · rintro (hurl | h) env stamp check status
    · have hempty : resolve env cfg.url = "" := by
        rw [hurl]
        rfl
      have hempty' : id (cfg.resolved env).url = "" := hempty
      rw [outgoing_of_empty hempty, outgoing_of_empty hempty']
    · exact outgoing_eq_of_noReference h

/-- A library that takes a text with a scheme for a URL. -/
def schemeLibrary : HttpLibrary String where
  parseUrl text := if "http://".toList <+: text.toList then some text else none
  render _ _ := none
  loadsPem _ := true
  builds := true
  parseUrl_relative := by simp
  parseUrl_query query _ := by
    rw [String.toList_ofList, if_pos ⟨"proxy/?".toList ++ query, by simp [queryStart]⟩]
    rfl

/-- An alert with a token in a header, and a list of hosts. -/
def tokenAlert : AlertConfig where
  url := "http://alerts/"
  headers := (∅ : IndexMap String String).insert "Authorization" "env:TOKEN"
  proxy := some "http://proxy/"
  noProxy := some "env:NO_PROXY"

/-- The header is sent as it is configured, and the request does not bypass the proxy. -/
theorem not_resolvesEverywhere_token :
    (∃ out, outgoing schemeLibrary (resolve fun _ => some "alerts") (fun _ => some "alerts")
        ⟨"", "", "", ""⟩ "c" .down tokenAlert = some out ∧
      ("Authorization", "env:TOKEN") ∈ out.request.headers ∧
      out.proxyFor "alerts".toList = .via "http://proxy/") ∧
    ¬tokenAlert.ResolvesEverywhere schemeLibrary := by
  have hurl : tokenAlert.url ≠ "" := by decide
  refine ⟨⟨_, outgoing_of_ne (resolve_const_ne_empty (by decide) hurl), ?_, ?_⟩, fun h => ?_⟩
  · exact List.mem_cons_of_mem _ (List.mem_singleton_self _)
  · have hscheme : "http://".toList <+: "http://proxy/".toList := by decide
    have hparse : schemeLibrary.parseUrl "http://proxy/" = some "http://proxy/" := by
      dsimp only [schemeLibrary]
      rw [if_pos hscheme]
    have hvia : (buildClient schemeLibrary (fun _ => some "alerts") tokenAlert).proxyFor
        "alerts".toList = _ := proxyFor_buildClient_of_some rfl rfl hparse _
    exact hvia.trans (if_neg (by decide +kernel))
  · have hno := h.headers hurl ("Authorization", "env:TOKEN") (List.mem_singleton_self _)
    exact hno (by decide +kernel)

end Vigil
