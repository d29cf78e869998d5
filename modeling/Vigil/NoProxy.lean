import Vigil.Duration
import Vigil.Lib.IpAddr
import Vigil.Lib.Text
import Vigil.Lib.Utf8

/-!
# Hosts that bypass the proxy

`no_proxy/mod.rs` of `vigil-types`, the matcher that all binaries are said to share, and the copy of
it in `tls/proxy.rs` of `vigild`. An entry of the list names a host or a domain, and in the shared
matcher also a range of addresses. The copy has no ranges, and it strips the port of a host without
regard to brackets and to the colons of an IPv6 address.

What a matcher decides is said in terms of the list: `Named` is that an entry names the host, and
`InRange` that the host is an address in a range. `Tls.noProxyMatches_eq_iff` says when the two
matchers decide alike.
-/

namespace Vigil

open Text

/-! ## What the matchers have in common -/

/-- `host.rsplit_once(':')`, with the part before the colon where the part after it has only digits,
and the host otherwise. -/
def cutPort (host : List Char) : List Char :=
  match rsplitOnce ':' host with
  | some (front, port) => if port.all Char.isDigit then front else host
  | none => host

/-- `entry.strip_prefix('.').unwrap_or(entry)`. -/
def stripDot (entry : List Char) : List Char := (stripPrefix '.' entry).getD entry

/-- `bare == e`, or `bare` ends with `e` and the byte before it is a dot. The lengths are those of
the UTF-8 text, and `&&` looks at the byte only where there is one. -/
def matchesName (bare e : List Char) : Bool :=
  let n := (Utf8.encode bare).length
  let k := (Utf8.encode e).length
  bare = e ||
    (k < n && (Utf8.encode bare)[n - k - 1]? = some (UInt8.ofNat 0x2E) && e.isSuffixOf bare)

/-! ## The shared matcher -/

namespace NoProxy

/-- `parse_no_proxy`. -/
def parseNoProxy : Option (List Char) → List (List Char)
  | none => []
  | some s => ((s.splitOn ',').map fun e => toAsciiLowercase (trim e)).filter fun e => e ≠ []

/-- `strip_port`. -/
def stripPort (host : List Char) : List Char :=
  match (stripPrefix '[' host).bind (splitOnce ']') with
  | some (inner, _) => inner
  | none => if 1 < host.count ':' then host else cutPort host

/-- `str::parse::<u32>`: digits, perhaps after a plus sign. -/
def parseU32 (s : List Char) : Option ℕ :=
  let ds := (stripPrefix '+' s).getD s
  if ds ≠ [] ∧ ds.all Char.isDigit ∧ digitsValue ds < 2^32 then some (digitsValue ds) else none

/-- Whether two addresses of `w` bits have the same first `prefixLen` bits, as `cidr_matches`
decides it for each of the two families. -/
def sameNetwork {w : ℕ} (prefixLen : ℕ) (host net : BitVec w) : Bool :=
  if w < prefixLen then false
  else if prefixLen = 0 then true
  else host >>> (w - prefixLen) = net >>> (w - prefixLen)

/-- `cidr_matches`. -/
def cidrMatches (ip : IpAddr) (entry : List Char) : Option Bool := do
  let (net, prefixLen) ← splitOnce '/' entry
  let prefixLen ← parseU32 prefixLen
  let net ← IpAddr.parse net
  some <|
    match ip, net with
    | .v4 host, .v4 net => sameNetwork prefixLen host net
    | .v6 host, .v6 net => sameNetwork prefixLen host net
    | _, _ => false

/-- `no_proxy_matches`. -/
def noProxyMatches (host : List Char) (entries : List (List Char)) : Bool :=
  if entries = [] then false
  else
    let bare := toAsciiLowercase (stripPort host)
    let hostIp := IpAddr.parse bare
    entries.any fun entry =>
      let e := stripDot entry
      match hostIp.bind fun ip => cidrMatches ip e with
      | some matched => matched
      | none => matchesName bare e

end NoProxy

/-! ## The matcher of `vigild` -/

namespace Tls

/-- `parse_no_proxy`. -/
def parseNoProxy : Option (List Char) → List (List Char)
  | none => []
  | some s => ((s.splitOn ',').map fun e => toAsciiLowercase (trim e)).filter fun e => e ≠ []

/-- `no_proxy_matches`. -/
def noProxyMatches (host : List Char) (entries : List (List Char)) : Bool :=
  if entries = [] then false
  else
    let bare := toAsciiLowercase (cutPort host)
    entries.any fun entry => matchesName bare (stripDot entry)

/-- The two copies of `parse_no_proxy` are the same. -/
theorem parseNoProxy_eq (list : Option (List Char)) :
    parseNoProxy list = NoProxy.parseNoProxy list := rfl

end Tls

/-! ## Names -/

/-- The host has this name, or is in the domain with this name. -/
def HasName (bare e : List Char) : Prop := bare = e ∨ ∃ sub, bare = sub ++ '.' :: e

/-- The last byte of the first part, by its distance from the end of the whole. -/
theorem getElem?_append_pred {α : Type*} {as : List α} (h : as ≠ []) (bs : List α) :
    (as ++ bs)[(as ++ bs).length - bs.length - 1]? = as.getLast? := by
  have hpos := List.length_pos_iff.mpr h
  rw [List.length_append, show as.length + bs.length - bs.length - 1 = as.length - 1 by omega,
    List.getElem?_append_left (by omega), List.getLast?_eq_getElem?]

/-- A text ends with a dot if its bytes end with that of a dot. -/
theorem exists_of_getLast?_encode {s : List Char}
    (h : (Utf8.encode s).getLast? = some (UInt8.ofNat 0x2E)) : ∃ sub, s = sub ++ ['.'] := by
  have hne : s ≠ [] := by
    rintro rfl
    cases h
  obtain ⟨sub, c, rfl⟩ := (List.eq_nil_or_concat s).resolve_left hne
  rw [List.concat_eq_append, Utf8.encode_append, List.getLast?_append] at h
  have hc : Utf8.encode [c] = String.utf8EncodeChar c := List.flatMap_singleton _ _
  rw [hc, List.getLast?_eq_some_getLast String.utf8EncodeChar_ne_nil, Option.some_or] at h
  have hmem : UInt8.ofNat 0x2E ∈ String.utf8EncodeChar c :=
    Option.some.inj h ▸ List.getLast_mem String.utf8EncodeChar_ne_nil
  obtain ⟨-, hdot⟩ := Utf8.eq_of_mem_utf8EncodeChar hmem (by decide)
  have hc' : c = '.' := Char.toNat_inj.mp hdot
  exact ⟨sub, by rw [List.concat_eq_append, hc']⟩

/-- The comparison of bytes is one of characters. -/
theorem matchesName_iff (bare e : List Char) : matchesName bare e = true ↔ HasName bare e := by
  unfold matchesName HasName
  simp only [Bool.or_eq_true, Bool.and_eq_true, decide_eq_true_eq]
  refine or_congr_right ⟨?_, ?_⟩
  · rintro ⟨⟨hlt, hdot⟩, hsuffix⟩
    obtain ⟨front, rfl⟩ := List.isSuffixOf_iff_suffix.mp hsuffix
    rw [Utf8.encode_append] at hlt hdot
    have hne : Utf8.encode front ≠ [] := by
      rintro hnil
      rw [hnil, List.nil_append] at hlt
      omega
    rw [getElem?_append_pred hne] at hdot
    obtain ⟨sub, rfl⟩ := exists_of_getLast?_encode hdot
    exact ⟨sub, by rw [List.append_assoc, List.singleton_append]⟩
  · rintro ⟨sub, rfl⟩
    have henc : Utf8.encode (sub ++ '.' :: e) =
        (Utf8.encode sub ++ [UInt8.ofNat 0x2E]) ++ Utf8.encode e := by
      rw [← List.singleton_append, ← List.append_assoc, Utf8.encode_append, Utf8.encode_append]
      rfl
    rw [henc, getElem?_append_pred (by simp)]
    refine ⟨⟨?_, List.getLast?_concat⟩, ?_⟩
    · rw [List.length_append, List.length_append, List.length_singleton]
      omega
    · exact List.isSuffixOf_iff_suffix.mpr ⟨sub ++ ['.'], by simp⟩

/-- An entry of the list, without its leading dot, names the host. -/
def Named (bare : List Char) (entries : List (List Char)) : Prop :=
  ∃ entry ∈ entries, HasName bare (stripDot entry)

/-- The host is an address, and an entry of the list is a range that it is in. -/
def InRange (bare : List Char) (entries : List (List Char)) : Prop :=
  ∃ ip, IpAddr.parse bare = some ip ∧
    ∃ entry ∈ entries, NoProxy.cidrMatches ip (stripDot entry) = some true

namespace NoProxy

/-- Two addresses are in the same network if their first bits are the same. -/
theorem sameNetwork_iff {w : ℕ} (prefixLen : ℕ) (host net : BitVec w) :
    sameNetwork prefixLen host net = true ↔
      prefixLen ≤ w ∧ ∀ i < prefixLen, host.getMsbD i = net.getMsbD i := by
  unfold sameNetwork
  split_ifs with hlt hzero
  · simp only [false_iff]
    omega
  · simp only [true_iff]
    exact ⟨by omega, by omega⟩
  rw [decide_eq_true_eq]
  constructor
  · intro h
    refine ⟨by omega, fun i hi => ?_⟩
    -- Bit `i` from the top is bit `prefixLen - 1 - i` of what the shift leaves.
    have hbit := congrArg (fun x => x.getLsbD (prefixLen - 1 - i)) h
    simp only [BitVec.getLsbD_ushiftRight] at hbit
    rw [show w - prefixLen + (prefixLen - 1 - i) = w - 1 - i by omega] at hbit
    rw [BitVec.getMsbD_eq_getLsbD, BitVec.getMsbD_eq_getLsbD, hbit]
  · rintro ⟨hle, h⟩
    apply BitVec.eq_of_getLsbD_eq
    intro j hj
    rw [BitVec.getLsbD_ushiftRight, BitVec.getLsbD_ushiftRight]
    by_cases hj' : j < prefixLen
    · have hbit := h (prefixLen - 1 - j) (by omega)
      rw [BitVec.getMsbD_eq_getLsbD, BitVec.getMsbD_eq_getLsbD,
        show w - 1 - (prefixLen - 1 - j) = w - prefixLen + j by omega,
        decide_eq_true (by omega : prefixLen - 1 - j < w), Bool.true_and, Bool.true_and] at hbit
      exact hbit
    · rw [BitVec.getLsbD_of_ge _ _ (by omega), BitVec.getLsbD_of_ge _ _ (by omega)]

/-- An address is not named by the text of a range: no address has a slash. -/
theorem cidrMatches_eq_none_of_hasName {bare e : List Char} {ip : IpAddr}
    (hip : IpAddr.parse bare = some ip) (h : HasName bare e) (ip' : IpAddr) :
    cidrMatches ip' e = none := by
  -- An address has no slash, and what is a suffix of it has none either.
  have hslash : '/' ∉ bare := by
    intro hmem
    have hchar := IpAddr.forall_isAddrChar_of_parse hip '/' hmem
    revert hchar
    decide
  have hnot : '/' ∉ e := by
    rcases h with rfl | ⟨sub, rfl⟩
    · exact hslash
    · exact fun hmem => hslash (List.mem_append_right _ (List.mem_cons_of_mem _ hmem))
  have hsplit : splitOnce '/' e = none := if_neg hnot
  unfold cidrMatches
  rw [hsplit]
  rfl

/-- The shared matcher: a name or a range of the list. -/
theorem noProxyMatches_iff (host : List Char) (entries : List (List Char)) :
    noProxyMatches host entries = true ↔
      Named (toAsciiLowercase (stripPort host)) entries ∨
        InRange (toAsciiLowercase (stripPort host)) entries := by
  unfold noProxyMatches Named InRange
  generalize toAsciiLowercase (stripPort host) = bare
  by_cases hnil : entries = []
  · simp [hnil]
  simp only [if_neg hnil, List.any_eq_true]
  cases hip : IpAddr.parse bare with
  | none =>
    simp only [Option.bind_none, matchesName_iff]
    exact ⟨.inl, fun h => h.resolve_right (by simp)⟩
  | some ip =>
    simp only [Option.bind_some, Option.some.injEq, exists_eq_left']
    -- Entry by entry: a range decides, and only an entry that is none is compared as a name.
    rw [← exists_or]
    refine exists_congr fun entry => ?_
    rw [← and_or_left]
    refine and_congr_right fun _ => ?_
    cases hcidr : cidrMatches ip (stripDot entry) with
    | none => simp [matchesName_iff]
    | some matched =>
      have hnot : ¬ HasName bare (stripDot entry) := by
        intro hname
        rw [cidrMatches_eq_none_of_hasName hip hname ip] at hcidr
        cases hcidr
      simp [hnot]

end NoProxy

/-- The matcher of `vigild`: a name of the list. -/
theorem Tls.noProxyMatches_iff (host : List Char) (entries : List (List Char)) :
    Tls.noProxyMatches host entries = true ↔ Named (toAsciiLowercase (cutPort host)) entries := by
  unfold Tls.noProxyMatches Named
  by_cases hnil : entries = []
  · simp [hnil]
  · simp only [if_neg hnil, List.any_eq_true, matchesName_iff]

/-! ## Ports -/

/-- The host ends with a colon and digits, or with a colon, after `front`. -/
def EndsWithPort (host front : List Char) : Prop :=
  ∃ port, host = front ++ ':' :: port ∧ ∀ c ∈ port, c.isDigit

/-- What `cutPort` cuts off is a port. -/
theorem cutPort_of_endsWithPort {host front : List Char} (h : EndsWithPort host front) :
    cutPort host = front := by
  obtain ⟨port, rfl, hport⟩ := h
  have hcolon : ':' ∉ port := fun hmem => absurd (hport ':' hmem) (by decide)
  unfold cutPort
  rw [rsplitOnce_eq_some_iff.mpr ⟨rfl, hcolon⟩]
  exact if_pos (List.all_eq_true.mpr hport)

/-- Without a port there is nothing to cut off. -/
theorem cutPort_of_not {host : List Char} (h : ∀ front, ¬ EndsWithPort host front) :
    cutPort host = host := by
  unfold cutPort
  split
  · next front port hsplit =>
    refine if_neg fun hall => h front ⟨port, (rsplitOnce_eq_some_iff.mp hsplit).1, ?_⟩
    exact List.all_eq_true.mp hall
  · rfl

/-- A host in brackets, with whatever follows the closing one. -/
def Bracketed (host : List Char) : Prop := ∃ inner rest, host = '[' :: (inner ++ ']' :: rest)

/-- A host with several colons, of which the last has only digits after it. -/
def EndsLikePort (host : List Char) : Prop :=
  1 < host.count ':' ∧ ∃ front, EndsWithPort host front

/-- A closing bracket is not cut off. -/
theorem mem_cutPort_of_bracketed {host : List Char} (h : Bracketed host) : ']' ∈ cutPort host := by
  obtain ⟨inner, rest, hhost⟩ := h
  have hmem : ']' ∈ host := by
    rw [hhost]
    simp
  by_cases hport : ∃ front, EndsWithPort host front
  · obtain ⟨front, hfront⟩ := hport
    rw [cutPort_of_endsWithPort hfront]
    obtain ⟨port, rfl, hport⟩ := hfront
    rcases List.mem_append.mp hmem with hmem | hmem
    · exact hmem
    · rcases List.mem_cons.mp hmem with hmem | hmem
      · exact absurd hmem (by decide)
      · exact absurd (hport ']' hmem) (by decide)
  · rwa [cutPort_of_not (not_exists.mp hport)]

/-- `strip_port` takes what is in the brackets. -/
theorem not_mem_stripPort_of_bracketed {host : List Char} (h : Bracketed host) :
    ']' ∉ NoProxy.stripPort host := by
  obtain ⟨inner, rest, rfl⟩ := h
  unfold NoProxy.stripPort
  rw [stripPrefix_eq_some_iff.mpr rfl, Option.bind_some]
  cases hsplit : splitOnce ']' (inner ++ ']' :: rest) with
  | none =>
    unfold splitOnce at hsplit
    rw [if_pos (by simp)] at hsplit
    cases hsplit
  | some parts => exact (splitOnce_eq_some_iff.mp hsplit).2

/-- `strip_port` of a host that is not in brackets. -/
theorem stripPort_of_not_bracketed {host : List Char} (h : ¬ Bracketed host) :
    NoProxy.stripPort host = if 1 < host.count ':' then host else cutPort host := by
  unfold NoProxy.stripPort
  split
  · next inner rest hbind =>
    obtain ⟨text, hprefix, hsplit⟩ := Option.bind_eq_some_iff.mp hbind
    rw [stripPrefix_eq_some_iff] at hprefix
    exact absurd ⟨inner, rest, hprefix.trans (congrArg _ (splitOnce_eq_some_iff.mp hsplit).1)⟩ h
  · rfl

/-- The two copies strip the port of a host alike, but for hosts in brackets and for those whose
last group looks like a port. -/
theorem cutPort_eq_stripPort_iff (host : List Char) :
    cutPort host = NoProxy.stripPort host ↔ ¬ (Bracketed host ∨ EndsLikePort host) := by
  by_cases hbr : Bracketed host
  -- The copy of `vigild` keeps the closing bracket, and the shared one does not.
  · refine iff_of_false (fun heq => ?_) (fun hnot => hnot (.inl hbr))
    exact not_mem_stripPort_of_bracketed hbr (heq ▸ mem_cutPort_of_bracketed hbr)
  rw [stripPort_of_not_bracketed hbr]
  unfold EndsLikePort
  by_cases hport : ∃ front, EndsWithPort host front
  · obtain ⟨front, hfront⟩ := hport
    rw [cutPort_of_endsWithPort hfront]
    split_ifs with hcount
    -- Several colons: the shared one takes the host for an address without a port.
    · refine iff_of_false ?_ (fun hnot => hnot (.inr ⟨hcount, front, hfront⟩))
      obtain ⟨port, rfl, -⟩ := hfront
      simp
    · simp [hbr, hcount]
  · rw [cutPort_of_not (not_exists.mp hport), ite_self]
    simp [hbr, hport]

/-! ## When the matchers agree -/

/-- When the two matchers decide alike on a host. Where they strip its port alike: if a range of the
list has the host, then the list names it as well. Where they do not: the list has an entry for the
text that `vigild` takes the host for, if and only if it has one for what the host is. -/
def Agrees (host : List Char) (entries : List (List Char)) : Prop :=
  let own := toAsciiLowercase (cutPort host)
  let bare := toAsciiLowercase (NoProxy.stripPort host)
  (¬ (Bracketed host ∨ EndsLikePort host) → InRange bare entries → Named bare entries) ∧
    (Bracketed host ∨ EndsLikePort host →
      (Named own entries ↔ Named bare entries ∨ InRange bare entries))

/-- The matcher of `vigild` and the shared one decide alike if and only if the list treats the host
as `Agrees` says. -/
theorem Tls.noProxyMatches_eq_iff (host : List Char) (list : Option (List Char)) :
    Tls.noProxyMatches host (Tls.parseNoProxy list) =
        NoProxy.noProxyMatches host (NoProxy.parseNoProxy list) ↔
      Agrees host (NoProxy.parseNoProxy list) := by
  rw [Tls.parseNoProxy_eq, Bool.eq_iff_iff, Tls.noProxyMatches_iff, NoProxy.noProxyMatches_iff]
  unfold Agrees
  have hports := cutPort_eq_stripPort_iff host
  by_cases hport : Bracketed host ∨ EndsLikePort host
  · exact ⟨fun h => ⟨fun hnot => absurd hport hnot, fun _ => h⟩, fun h => h.2 hport⟩
  · rw [hports.mpr hport]
    constructor
    · exact fun h => ⟨fun _ hrange => h.mpr (.inr hrange), fun hyes => absurd hyes hport⟩
    · exact fun h => ⟨.inl, fun hlisted => hlisted.elim id (h.1 hport)⟩

/-- `vigild` sends a request for `10.0.1.5` through the proxy where the list has `10.0.0.0/8`, and
the other binaries do not. -/
theorem not_matches_range :
    ¬ ∀ host list, Tls.noProxyMatches host (Tls.parseNoProxy list) =
      NoProxy.noProxyMatches host (NoProxy.parseNoProxy list) := by
  intro h
  exact absurd (h "10.0.1.5".toList (some "10.0.0.0/8".toList)) (by decide +kernel)

/-- The host of a URL has its brackets, and `vigild` does not take them off. -/
example : Tls.noProxyMatches "[::1]:443".toList ["::1".toList] = false ∧
    NoProxy.noProxyMatches "[::1]:443".toList ["::1".toList] = true := by decide +kernel

end Vigil
