import Vigil.Duration
import Vigil.Lib.FormUrlEncoded

/-!
# Filters by name

The names that a client asks for, on their way to the server. `names_query` of
`client/transport/http.rs` and the requests of `client/mod.rs` put them into the query of a path,
joined by commas and as they are. On the other side, `api/handlers/mod.rs` has the fields of the
query decoded (`Query<NamesQuery>`, `Query<LogsQuery>`), and `parse_names` and `parse_services`
split them at the commas.

The decoder of queries is a library's (`FormUrlEncoded.Decoder`). What the library that sends the
request refuses, or replaces by escapes, is not looked at. `received_iff` says which names arrive
as they were sent: those that no layer takes for syntax of its own.
-/

namespace Vigil

open FormUrlEncoded (Decoder Literal hasEscape)
open Text (trim)

/-! ## The client -/

namespace Client

/-- `names.join(",")`. -/
def joinNames (names : List (List Char)) : List Char := [','].intercalate names

/-- `names_query`. -/
def namesQuery (names : List (List Char)) : List Char :=
  if names.isEmpty then [] else "?names=".toList ++ joinNames names

/-- The path of `list_services`. -/
def listServicesPath (names : List (List Char)) : List Char :=
  "/v1/services".toList ++ namesQuery names

/-- The path of `list_checks`. -/
def listChecksPath (names : List (List Char)) : List Char := "/v1/checks".toList ++ namesQuery names

/-- The path of `list_alerts`. -/
def listAlertsPath (names : List (List Char)) : List Char := "/v1/alerts".toList ++ namesQuery names

/-- The path of `list_logs`. -/
def listLogsPath (services : List (List Char)) (n : Option UInt64) : List Char :=
  let params := (if services.isEmpty then [] else ["services=".toList ++ joinNames services]) ++
    (n.map fun n => "n=".toList ++ Nat.toDigits 10 n.toNat).toList
  let query := if params.isEmpty then [] else '?' :: ['&'].intercalate params
  "/v1/logs".toList ++ query

/-- The path of `follow_logs`. -/
def followLogsPath (services : List (List Char)) : List Char :=
  if services.isEmpty then "/v1/logs/follow".toList
  else "/v1/logs/follow?services=".toList ++ joinNames services

end Client

/-! ## The server -/

/-- `NamesQuery`. -/
structure NamesQuery where
  names : Option (List Char)
  deriving DecidableEq, Repr

/-- `LogFormat`. -/
inductive LogFormat
  | json
  | text
  | ndjson
  deriving DecidableEq, Repr

/-- `LogsQuery`. -/
structure LogsQuery where
  services : Option (List Char)
  n : Option ℕ
  format : Option LogFormat
  deriving DecidableEq, Repr

/-- The body of `parse_names` and of `parse_services`. -/
def splitNames (field : Option (List Char)) : List (List Char) :=
  (((field.getD []).splitOn ',').map trim).filter (· ≠ [])

/-- `parse_names`. -/
def parseNames (q : NamesQuery) : List (List Char) := splitNames q.names

/-- `parse_services`. -/
def parseServices (q : LogsQuery) : List (List Char) := splitNames q.services

/-- `str::parse::<usize>`: digits, perhaps after a plus sign. -/
def parseUsize (s : List Char) : Option ℕ :=
  let ds := (Text.stripPrefix '+' s).getD s
  if ds ≠ [] ∧ ds.all Char.isDigit ∧ digitsValue ds < 2^64 then some (digitsValue ds) else none

/-- The variants of `LogFormat`, in lower case. -/
def LogFormat.parse (s : List Char) : Option LogFormat :=
  if s = "json".toList then some .json
  else if s = "text".toList then some .text
  else if s = "ndjson".toList then some .ndjson
  else none

/-- The value of a field in a derived struct: none if no pair has its name, and an error if several
have. -/
def queryField (key : List Char) (pairs : List (List Char × List Char)) :
    Option (Option (List Char)) :=
  match pairs.filter fun p => decide (p.1 = key) with
  | [] => some none
  | [p] => some (some p.2)
  | _ => none

/-- A value that may be absent, and is read otherwise. -/
def readOptional {α : Type} (read : List Char → Option α) : Option (List Char) → Option (Option α)
  | none => some none
  | some v => (read v).map some

/-- The derived `Deserialize` of `NamesQuery`. -/
def NamesQuery.fromPairs (pairs : List (List Char × List Char)) : Option NamesQuery :=
  (queryField "names".toList pairs).map fun names => { names }

/-- The derived `Deserialize` of `LogsQuery`. -/
def LogsQuery.fromPairs (pairs : List (List Char × List Char)) : Option LogsQuery := do
  let services ← queryField "services".toList pairs
  let n ← (queryField "n".toList pairs).bind (readOptional parseUsize)
  let format ← (queryField "format".toList pairs).bind (readOptional LogFormat.parse)
  return { services, n, format }

section Receive

variable (D : Decoder)

/-- The names and values in the query of a path: `uri.query().unwrap_or_default()`, decoded. -/
def queryPairs (path : List Char) : List (List Char × List Char) :=
  D.parse ((FormUrlEncoded.query path).getD [])

/-- The names that a handler with `Query<NamesQuery>` filters by, if it does not reject the
query. -/
def receivedNames (path : List Char) : Option (List (List Char)) :=
  (NamesQuery.fromPairs (queryPairs D path)).map parseNames

/-- The services that a handler with `Query<LogsQuery>` filters by, if it does not reject the
query. -/
def receivedServices (path : List Char) : Option (List (List Char)) :=
  (LogsQuery.fromPairs (queryPairs D path)).map parseServices

end Receive

/-! ## Which names arrive -/

/-- No layer takes anything in the name for syntax of its own: it is a name, without white space at
its ends, without a comma, an `&`, and a `#`, and it stands for itself in a query. -/
structure Survives (name : List Char) : Prop where
  ne_nil : name ≠ []
  trimmed : trim name = name
  comma : ',' ∉ name
  ampersand : '&' ∉ name
  hash : '#' ∉ name
  literal : Literal name

instance (name : List Char) : Decidable (Survives name) :=
  decidable_of_iff (name ≠ [] ∧ trim name = name ∧ ',' ∉ name ∧ '&' ∉ name ∧ '#' ∉ name ∧
      Literal name)
    ⟨fun h => ⟨h.1, h.2.1, h.2.2.1, h.2.2.2.1, h.2.2.2.2.1, h.2.2.2.2.2⟩,
      fun h => ⟨h.ne_nil, h.trimmed, h.comma, h.ampersand, h.hash, h.literal⟩⟩

open Client (joinNames)

/-! ### Lists of names -/

/-- What is split is part of the text, once it is joined again. -/
theorem joinNames_splitNames_sublist (t : List Char) :
    (joinNames (splitNames (some t))).Sublist t := by
  have h := Text.intercalate_sublist ',' (t.splitOn ',')
  rwa [List.intercalate_splitOn] at h

/-- What is split is trimmed, and has no comma. -/
theorem of_mem_splitNames {field : Option (List Char)} {name : List Char}
    (h : name ∈ splitNames field) : name ≠ [] ∧ trim name = name ∧ ',' ∉ name := by
  obtain ⟨hmem, hne⟩ := List.mem_filter.mp h
  obtain ⟨part, hpart, rfl⟩ := List.mem_map.mp hmem
  refine ⟨of_decide_eq_true hne, Text.trim_trim part, fun hc => ?_⟩
  exact Text.notMem_of_mem_splitOn hpart ((Text.trim_sublist part).subset hc)

/-- Names that are trimmed and have no comma are split as they were joined. -/
theorem splitNames_joinNames {names : List (List Char)}
    (h : ∀ name ∈ names, name ≠ [] ∧ trim name = name ∧ ',' ∉ name) :
    splitNames (some (joinNames names)) = names := by
  by_cases hnil : names = []
  · subst hnil
    rfl
  have htrim : names.map trim = names.map id := List.map_congr_left fun name hn => (h name hn).2.1
  rw [splitNames, Option.getD_some, joinNames,
    List.splitOn_intercalate ',' (fun name hn => (h name hn).2.2) hnil, htrim, List.map_id]
  exact List.filter_eq_self.mpr fun name hn => decide_eq_true (h name hn).1

/-- A joined text has what the names have, and commas. -/
theorem mem_joinNames {c : Char} (hc : c ≠ ',') :
    ∀ {names : List (List Char)}, c ∈ joinNames names ↔ ∃ name ∈ names, c ∈ name
  | [] => by simp [joinNames]
  | [name] => by simp [joinNames]
  | name :: next :: names => by
    have ih : c ∈ joinNames (next :: names) ↔ ∃ name ∈ next :: names, c ∈ name :=
      mem_joinNames hc
    rw [joinNames] at ih ⊢
    rw [List.intercalate_cons_of_ne_nil (List.cons_ne_nil _ _), List.mem_append, List.mem_append,
      ih, List.mem_singleton]
    simp [hc]

/-- An escape in a joined text is one in a name. -/
theorem hasEscape_joinNames : ∀ names : List (List Char),
    hasEscape (joinNames names) = names.any hasEscape
  | [] => rfl
  | [name] => by simp [joinNames]
  | name :: next :: names => by
    have ih := hasEscape_joinNames (next :: names)
    rw [joinNames] at ih ⊢
    rw [List.intercalate_cons_of_ne_nil (List.cons_ne_nil _ _), List.append_assoc,
      List.singleton_append, FormUrlEncoded.hasEscape_append_cons (by decide) rfl, ih]
    rfl

/-- A joined text stands for itself if the names do. -/
theorem literal_joinNames {names : List (List Char)} :
    Literal (joinNames names) ↔ ∀ name ∈ names, Literal name := by
  have hplus : '+' ∈ joinNames names ↔ ∃ name ∈ names, '+' ∈ name := mem_joinNames (by decide)
  rw [Literal, hplus, hasEscape_joinNames, List.any_eq_false]
  constructor
  · rintro ⟨h₁, h₂⟩ name hn
    exact ⟨fun hc => h₁ ⟨name, hn, hc⟩, by simpa using h₂ name hn⟩
  · intro h
    refine ⟨?_, fun name hn => by simpa using (h name hn).2⟩
    rintro ⟨name, hn, hc⟩
    exact (h name hn).1 hc

/-! ### What the server reads -/

/-- The names that come out of a query as they were put in survive: none is cut off, replaced or
split. -/
theorem survives_of_splitNames (D : Decoder) {names : List (List Char)}
    (h : splitNames (some (D.decode ((joinNames names).takeWhile FormUrlEncoded.isPlain))) =
      names) : ∀ name ∈ names, Survives name := by
  -- Each layer makes the text shorter, if it makes any change.
  have hsub := joinNames_splitNames_sublist
    (D.decode ((joinNames names).takeWhile FormUrlEncoded.isPlain))
  rw [h] at hsub
  have hdecode := D.length_decode_le ((joinNames names).takeWhile FormUrlEncoded.isPlain)
  have htake := List.takeWhile_prefix (l := joinNames names) FormUrlEncoded.isPlain
  have hwhole : (joinNames names).takeWhile FormUrlEncoded.isPlain = joinNames names :=
    htake.eq_of_length_le (hsub.length_le.trans hdecode)
  rw [hwhole] at h hsub hdecode
  have hsame : D.decode (joinNames names) = joinNames names := (hsub.eq_of_length_le hdecode).symm
  have hlit : Literal (joinNames names) := by_contra fun hlit => D.decode_ne _ hlit hsame
  have hplain := List.takeWhile_eq_self_iff.mp hwhole
  intro name hname
  have hsplit : name ∈ splitNames (some (D.decode (joinNames names))) := h.symm ▸ hname
  obtain ⟨hne, htrim, hcomma⟩ := of_mem_splitNames hsplit
  refine ⟨hne, htrim, hcomma, fun hc => ?_, fun hc => ?_, literal_joinNames.mp hlit name hname⟩
  · exact absurd (hplain '&' ((mem_joinNames (by decide)).mpr ⟨name, hname, hc⟩)) (by decide)
  · exact absurd (hplain '#' ((mem_joinNames (by decide)).mpr ⟨name, hname, hc⟩)) (by decide)

/-- Names that survive are joined to a value in which nothing is syntax of the query, and are split
again as they were. -/
theorem joinNames_of_survives (D : Decoder) {names : List (List Char)}
    (h : ∀ name ∈ names, Survives name) : '&' ∉ joinNames names ∧ '#' ∉ joinNames names ∧
      splitNames (some (D.decode (joinNames names))) = names := by
  have notMem : ∀ c, c ≠ ',' → (∀ name ∈ names, c ∉ name) → c ∉ joinNames names := by
    intro c hc hall hmem
    obtain ⟨name, hname, hmem⟩ := (mem_joinNames hc).mp hmem
    exact hall name hname hmem
  refine ⟨notMem '&' (by decide) fun name hn => (h name hn).ampersand,
    notMem '#' (by decide) fun name hn => (h name hn).hash, ?_⟩
  rw [D.decode_of_literal _ (literal_joinNames.mpr fun name hn => (h name hn).literal)]
  exact splitNames_joinNames fun name hn =>
    ⟨(h name hn).ne_nil, (h name hn).trimmed, (h name hn).comma⟩

/-- A field that the first pair has is read from it, if it is read at all. -/
theorem eq_of_queryField {key v : List Char} {more : List (List Char × List Char)}
    {field : Option (List Char)} (h : queryField key ((key, v) :: more) = some field) :
    field = some v := by
  rw [queryField, List.filter_cons_of_pos (by simp)] at h
  split at h
  · next heq => cases heq
  · next heq =>
    obtain ⟨rfl, -⟩ := List.cons.inj heq
    exact (Option.some.inj h).symm
  · cases h

/-- A path without a question mark has no pairs. -/
theorem queryPairs_of_notMem (D : Decoder) {path : List Char} (h : '?' ∉ path) :
    queryPairs D path = [] := by
  rw [queryPairs, FormUrlEncoded.query_of_notMem h, Option.getD_none, D.parse_nil]

/-- The pairs of a query that is written after a path, if there is no fragment in it. -/
theorem queryPairs_append (D : Decoder) {base s : List Char} (hquestion : '?' ∉ base)
    (hhash : '#' ∉ base) (hs : '#' ∉ s) : queryPairs D (base ++ '?' :: s) = D.parse s := by
  rw [queryPairs, FormUrlEncoded.query_append_of_notMem hquestion hhash hs, Option.getD_some]

/-- The first of the pairs, whatever is in its value. -/
theorem exists_queryPairs (D : Decoder) {base name tail : List Char} (hquestion : '?' ∉ base)
    (hhash : '#' ∉ base) (hname : FormUrlEncoded.IsName name) (value : List Char)
    (htail : tail = [] ∨ ∃ s, tail = '&' :: s) :
    ∃ more, queryPairs D (base ++ '?' :: (name ++ '=' :: value ++ tail)) =
      (name, D.decode (value.takeWhile FormUrlEncoded.isPlain)) :: more := by
  rw [queryPairs, FormUrlEncoded.query_append hquestion hhash, Option.getD_some]
  exact D.exists_parse hname value htail

/-- There is no syntax in the name of the field `names`. -/
theorem isName_names : FormUrlEncoded.IsName "names".toList :=
  ⟨by decide, by decide, by decide, by decide⟩

/-- There is none in that of the field `services`. -/
theorem isName_services : FormUrlEncoded.IsName "services".toList :=
  ⟨by decide, by decide, by decide, by decide⟩

/-- There is none in that of the field `n`. -/
theorem isName_n : FormUrlEncoded.IsName "n".toList :=
  ⟨by decide, by decide, by decide, by decide⟩

/-- What a number is printed with are decimal digits. -/
theorem mem_toDigits {n : ℕ} {c : Char} (h : c ∈ Nat.toDigits 10 n) : c.isDigit = true :=
  Nat.isDigit_of_mem_toDigits (by decide) (by decide) h

/-- A number is read as it is written. -/
theorem parseUsize_toDigits (n : UInt64) : parseUsize (Nat.toDigits 10 n.toNat) = some n.toNat := by
  have hplus : '+' ∉ Nat.toDigits 10 n.toNat := fun h => absurd (mem_toDigits h) (by decide)
  have hstrip : Text.stripPrefix '+' (Nat.toDigits 10 n.toNat) = none := by
    refine Option.eq_none_iff_forall_ne_some.mpr fun rest h => hplus ?_
    rw [Text.stripPrefix_eq_some_iff.mp h]
    exact List.mem_cons_self
  have hvalue : digitsValue (Nat.toDigits 10 n.toNat) = n.toNat := by
    have h := Nat.ofDigitChars_ten_toDigits (n := n.toNat)
    rwa [Nat.ofDigitChars_eq_foldl] at h
  rw [parseUsize, hstrip, Option.getD_none, hvalue, if_pos]
  refine ⟨Nat.toDigits_ne_nil, ?_, n.toNat_lt⟩
  exact List.all_eq_true.mpr fun c hc => mem_toDigits hc

/-- What is not syntax of a query is not in the digits of a number. -/
theorem notMem_toDigits {n : ℕ} {c : Char} (hc : c.isDigit = false) : c ∉ Nat.toDigits 10 n := by
  intro h
  rw [mem_toDigits h] at hc
  cases hc

/-- The decoder leaves the digits of a number as they are. -/
theorem decode_toDigits (D : Decoder) (n : ℕ) :
    D.decode (Nat.toDigits 10 n) = Nat.toDigits 10 n :=
  D.decode_of_literal _ (FormUrlEncoded.literal_of_notMem (notMem_toDigits (by decide))
    (notMem_toDigits (by decide)))

/-- What follows the services in the query of `list_logs`. -/
def logsTail : Option UInt64 → List Char
  | none => []
  | some n => '&' :: ("n".toList ++ '=' :: Nat.toDigits 10 n.toNat)

/-- What follows the services is nothing, or another pair behind an `&`. -/
theorem logsTail_cases (n : Option UInt64) : logsTail n = [] ∨ ∃ s, logsTail n = '&' :: s := by
  cases n with
  | none => exact .inl rfl
  | some n => exact .inr ⟨_, rfl⟩

/-- What follows the services has no fragment in it. -/
theorem hash_notMem_logsTail (n : Option UInt64) : '#' ∉ logsTail n := by
  cases n with
  | none => exact List.not_mem_nil
  | some n => simp [logsTail, notMem_toDigits (c := '#') (by decide)]

/-- Pairs with the services and a printed number are read as a query with this number. -/
theorem LogsQuery.fromPairs_of_n {pairs : List (List Char × List Char)}
    {services : Option (List Char)} {n : UInt64}
    (hservices : queryField "services".toList pairs = some services)
    (hn : queryField "n".toList pairs = some (some (Nat.toDigits 10 n.toNat)))
    (hformat : queryField "format".toList pairs = some none) :
    LogsQuery.fromPairs pairs = some ⟨services, some n.toNat, none⟩ := by
  have hread : readOptional parseUsize (some (Nat.toDigits 10 n.toNat)) = some (some n.toNat) := by
    rw [readOptional, parseUsize_toDigits, Option.map_some]
  rw [LogsQuery.fromPairs, hservices, hn, hformat, Option.bind_some, hread]
  rfl

/-- The fields of the query of `list_logs`, if nothing in the services ends them. -/
theorem LogsQuery.exists_fromPairs (D : Decoder) {services : List Char} (h : '&' ∉ services)
    (n : Option UInt64) :
    ∃ n', LogsQuery.fromPairs (D.parse ("services".toList ++ '=' :: services ++ logsTail n)) =
      some ⟨some (D.decode services), n', none⟩ := by
  cases n with
  | none =>
    rw [logsTail, List.append_nil, D.parse_single isName_services h]
    exact ⟨none, rfl⟩
  | some n =>
    rw [logsTail, D.parse_append isName_services h,
      D.parse_single isName_n (notMem_toDigits (by decide)), decode_toDigits]
    exact ⟨some n.toNat, LogsQuery.fromPairs_of_n rfl rfl rfl⟩

section Requests

variable (D : Decoder) {base : List Char} (hquestion : '?' ∉ base) (hhash : '#' ∉ base)
include hquestion hhash

/-- The names in the query of `names_query` arrive as they were sent if and only if they survive. -/
theorem receivedNames_eq_iff (names : List (List Char)) :
    receivedNames D (base ++ Client.namesQuery names) = some names ↔
      ∀ name ∈ names, Survives name := by
  by_cases hnil : names = []
  · subst hnil
    have hpath : base ++ Client.namesQuery [] = base := List.append_nil base
    rw [hpath, receivedNames, queryPairs_of_notMem D hquestion]
    exact iff_of_true rfl (List.forall_mem_nil _)
  have hpath : base ++ Client.namesQuery names =
      base ++ '?' :: ("names".toList ++ '=' :: joinNames names) := by
    rw [Client.namesQuery, if_neg (by simpa using hnil)]
    rfl
  rw [hpath]
  constructor
  · intro h
    obtain ⟨more, hmore⟩ :=
      exists_queryPairs D hquestion hhash isName_names (joinNames names) (.inl rfl)
    rw [List.append_nil] at hmore
    rw [receivedNames, hmore] at h
    obtain ⟨q, hq, hnames⟩ := Option.map_eq_some_iff.mp h
    obtain ⟨field, hfield, rfl⟩ := Option.map_eq_some_iff.mp hq
    rw [parseNames, eq_of_queryField hfield] at hnames
    exact survives_of_splitNames D hnames
  · intro h
    obtain ⟨hand, hhash', hsplit⟩ := joinNames_of_survives D h
    have hwhole : '#' ∉ "names".toList ++ '=' :: joinNames names := by simp [hhash']
    rw [receivedNames, queryPairs_append D hquestion hhash hwhole,
      D.parse_single isName_names hand]
    exact congrArg some hsplit

/-- The services in the query of `list_logs`, or of `follow_logs`, arrive as they were sent if and
only if they survive. -/
theorem receivedServices_eq_iff (names : List (List Char)) (n : Option UInt64) :
    receivedServices D
        (base ++ '?' :: ("services".toList ++ '=' :: joinNames names ++ logsTail n)) = some names ↔
      ∀ name ∈ names, Survives name := by
  constructor
  · intro h
    obtain ⟨more, hmore⟩ :=
      exists_queryPairs D hquestion hhash isName_services (joinNames names) (logsTail_cases n)
    rw [receivedServices, hmore] at h
    obtain ⟨q, hq, hnames⟩ := Option.map_eq_some_iff.mp h
    obtain ⟨field, hfield, hq⟩ := Option.bind_eq_some_iff.mp hq
    have hservices : q.services = field := by
      obtain ⟨_, -, hq⟩ := Option.bind_eq_some_iff.mp hq
      obtain ⟨_, -, hq⟩ := Option.bind_eq_some_iff.mp hq
      rw [← Option.some.inj hq]
    rw [parseServices, hservices, eq_of_queryField hfield] at hnames
    exact survives_of_splitNames D hnames
  · intro h
    obtain ⟨hand, hhash', hsplit⟩ := joinNames_of_survives D h
    have hwhole : '#' ∉ "services".toList ++ '=' :: joinNames names ++ logsTail n := by
      simp [hhash', hash_notMem_logsTail n]
    obtain ⟨n', hfields⟩ := LogsQuery.exists_fromPairs D hand n
    rw [receivedServices, queryPairs_append D hquestion hhash hwhole, hfields]
    exact congrArg some hsplit

end Requests

/-- Without services, the query of `list_logs` has at most its number. -/
theorem receivedServices_nil (D : Decoder) (n : Option UInt64) :
    receivedServices D (Client.listLogsPath [] n) = some [] := by
  cases n with
  | none =>
    have hpath : Client.listLogsPath [] none = "/v1/logs".toList := rfl
    rw [hpath, receivedServices, queryPairs_of_notMem D (by decide)]
    rfl
  | some n =>
    have hpath : Client.listLogsPath [] (some n) =
        "/v1/logs".toList ++ '?' :: ("n".toList ++ '=' :: Nat.toDigits 10 n.toNat) := by
      unfold Client.listLogsPath
      simp only [Option.map_some]
      generalize Nat.toDigits 10 n.toNat = digits
      exact congrArg (fun query => "/v1/logs".toList ++ '?' :: query) List.intercalate_singleton
    have hwhole : '#' ∉ "n".toList ++ '=' :: Nat.toDigits 10 n.toNat := by
      simp [notMem_toDigits (c := '#') (by decide)]
    rw [hpath, receivedServices, queryPairs_append D (by decide) (by decide) hwhole,
      D.parse_single isName_n (notMem_toDigits (by decide)), decode_toDigits,
      LogsQuery.fromPairs_of_n (n := n) rfl rfl rfl]
    rfl

/-- With services, the query of `list_logs` begins with them. -/
theorem listLogsPath_eq {names : List (List Char)} (h : names ≠ []) (n : Option UInt64) :
    Client.listLogsPath names n = "/v1/logs".toList ++
      '?' :: ("services".toList ++ '=' :: joinNames names ++ logsTail n) := by
  have hempty : names.isEmpty = false := by simpa using h
  unfold Client.listLogsPath
  simp only [hempty]
  cases n with
  | none =>
    rw [logsTail, List.append_nil]
    exact congrArg (fun query => "/v1/logs".toList ++ '?' :: query) List.intercalate_singleton
  | some n =>
    have hpair : ∀ a b : List Char, ['&'].intercalate [a, b] = a ++ '&' :: b := by
      intro a b
      rw [List.intercalate_cons_cons, List.intercalate_singleton, List.append_assoc]
      rfl
    simp only [Option.map_some]
    rw [logsTail]
    generalize Nat.toDigits 10 n.toNat = digits
    exact congrArg (fun query => "/v1/logs".toList ++ '?' :: query) (hpair _ _)

/-- With services, the query of `follow_logs` is these. -/
theorem followLogsPath_eq {names : List (List Char)} (h : names ≠ []) :
    Client.followLogsPath names = "/v1/logs/follow".toList ++
      '?' :: ("services".toList ++ '=' :: joinNames names ++ logsTail none) := by
  have hempty : names.isEmpty = false := by simpa using h
  rw [Client.followLogsPath, hempty, logsTail, List.append_nil]
  rfl

/-- The names of a filter arrive as they were sent, in each of the requests that have one, if and
only if they survive. -/
theorem received_iff (D : Decoder) (names : List (List Char)) :
    (receivedNames D (Client.listServicesPath names) = some names ↔
      ∀ name ∈ names, Survives name) ∧
    (receivedNames D (Client.listChecksPath names) = some names ↔
      ∀ name ∈ names, Survives name) ∧
    (receivedNames D (Client.listAlertsPath names) = some names ↔
      ∀ name ∈ names, Survives name) ∧
    (∀ n, receivedServices D (Client.listLogsPath names n) = some names ↔
      ∀ name ∈ names, Survives name) ∧
    (receivedServices D (Client.followLogsPath names) = some names ↔
      ∀ name ∈ names, Survives name) := by
  refine ⟨receivedNames_eq_iff D (by decide) (by decide) names,
    receivedNames_eq_iff D (by decide) (by decide) names,
    receivedNames_eq_iff D (by decide) (by decide) names, fun n => ?_, ?_⟩
  · by_cases hnil : names = []
    · subst hnil
      exact iff_of_true (receivedServices_nil D n) (List.forall_mem_nil _)
    · rw [listLogsPath_eq hnil]
      exact receivedServices_eq_iff D (by decide) (by decide) names n
  · by_cases hnil : names = []
    · subst hnil
      have hpath : Client.followLogsPath [] = "/v1/logs/follow".toList := rfl
      rw [hpath, receivedServices, queryPairs_of_notMem D (by decide)]
      exact iff_of_true rfl (List.forall_mem_nil _)
    · rw [followLogsPath_eq hnil]
      exact receivedServices_eq_iff D (by decide) (by decide) names none

/-- A name with a comma arrives as two names, and one with an `&` is cut off there. -/
theorem not_received_comma :
    receivedNames FormUrlEncoded.standard (Client.listServicesPath ["a,b".toList]) =
        some ["a".toList, "b".toList] ∧
      receivedServices FormUrlEncoded.standard (Client.followLogsPath ["a&b".toList]) =
        some ["a".toList] ∧
      ¬ ∀ names : List (List Char), (∀ name ∈ names, name ≠ []) →
        receivedNames FormUrlEncoded.standard (Client.listServicesPath names) = some names := by
  have hcomma : receivedNames FormUrlEncoded.standard (Client.listServicesPath ["a,b".toList]) =
      some ["a".toList, "b".toList] := by
    decide +kernel
  refine ⟨hcomma, by decide +kernel, fun h => ?_⟩
  have hsame := h ["a,b".toList] (List.forall_mem_singleton.mpr (by decide))
  rw [hcomma] at hsame
  exact absurd hsame (by decide)

/-- A plus sign arrives as a blank, and an escape as the character that it stands for. -/
example : receivedNames FormUrlEncoded.standard (Client.listServicesPath ["a+b%63".toList]) =
    some ["a bc".toList] := by decide +kernel

end Vigil
