import Vigil.NoProxy

/-!
# The rules of the shared matcher

What `no_proxy/mod.rs` says about itself: an entry of the list is a range of addresses, and is
compared with the host's first bits, or it is a name, and is that of the host or of a domain that
the host is in. `BareHost` is the part of the host that is compared, and `Allows` the rule for an
entry.

`NoProxy.Checked` is the matcher once more with the operations that may panic: a slice, an index, a
subtraction of unsigned integers, and a shift. `none` is a panic, and there is none
(`Checked.noProxyMatches_eq`).
-/

namespace Vigil

open Text

namespace NoProxy

/-! ## Operations that may panic -/

/-- `a - b` of unsigned integers. -/
def checkedSub (a b : ℕ) : Option ℕ := if b ≤ a then some (a - b) else none

/-- `x >> shift`. -/
def checkedShr {w : ℕ} (x : BitVec w) (shift : ℕ) : Option (BitVec w) :=
  if shift < w then some (x >>> shift) else none

/-- `s.find(c)`, the number of the bytes before. -/
def find (c : Char) : List Char → Option ℕ
  | [] => none
  | d :: s => if d = c then some 0 else (find c s).map (· + d.utf8Size)

/-- `s[..n]`, where `n` has to be the number of the bytes of some characters at the start. -/
def sliceTo : List Char → ℕ → Option (List Char)
  | [], n => if n = 0 then some [] else none
  | c :: s, n =>
    if n = 0 then some []
    else if c.utf8Size ≤ n then (sliceTo s (n - c.utf8Size)).map (c :: ·)
    else none

/-- A subtraction that stays at zero or above does not panic. -/
theorem checkedSub_of_le {a b : ℕ} (h : b ≤ a) : checkedSub a b = some (a - b) := if_pos h

/-- A shift by less than the width does not panic. -/
theorem checkedShr_of_lt {w shift : ℕ} (x : BitVec w) (h : shift < w) :
    checkedShr x shift = some (x >>> shift) := if_pos h

/-- Without the character there is no place of it. -/
theorem find_eq_none {c : Char} {s : List Char} (h : c ∉ s) : find c s = none := by
  induction s with
  | nil => rfl
  | cons d s ih =>
    obtain ⟨hne, hs⟩ := List.ne_and_not_mem_of_not_mem_cons h
    rw [find, if_neg (Ne.symm hne), ih hs]
    rfl

/-- The first place of a character is one to slice at. -/
theorem exists_sliceTo_find {c : Char} {a b : List Char} (h : c ∉ a) :
    ∃ n, find c (a ++ c :: b) = some n ∧ sliceTo (a ++ c :: b) n = some a := by
  induction a with
  | nil => exact ⟨0, if_pos rfl, by rw [List.nil_append, sliceTo, if_pos rfl]⟩
  | cons d a ih =>
    obtain ⟨hne, ha⟩ := List.ne_and_not_mem_of_not_mem_cons h
    obtain ⟨n, hfind, hslice⟩ := ih ha
    have hpos := d.utf8Size_pos
    refine ⟨n + d.utf8Size, ?_, ?_⟩
    · rw [List.cons_append, find, if_neg (Ne.symm hne), hfind]
      rfl
    · rw [List.cons_append, sliceTo, if_neg (by omega), if_pos (Nat.le_add_left _ _),
        Nat.add_sub_cancel, hslice]
      rfl

/-! ## The matcher with its panics -/

namespace Checked

/-- `strip_port`. -/
def stripPort (host : List Char) : Option (List Char) :=
  let unbracketed := if 1 < host.count ':' then host else cutPort host
  match stripPrefix '[' host with
  | some rest =>
    match find ']' rest with
    | some close => sliceTo rest close
    | none => some unbracketed
  | none => some unbracketed

/-- The comparison of a host with a name. The index is computed where the lengths allow it. -/
def matchesName (bare e : List Char) : Option Bool :=
  let n := (Utf8.encode bare).length
  let k := (Utf8.encode e).length
  if bare = e then some true
  else if k < n then do
    let i ← checkedSub n k
    let i ← checkedSub i 1
    let b ← (Utf8.encode bare)[i]?
    return b = UInt8.ofNat 0x2E && e.isSuffixOf bare
  else some false

/-- The comparison of two addresses of `w` bits. -/
def sameNetwork {w : ℕ} (prefixLen : ℕ) (host net : BitVec w) : Option Bool :=
  if w < prefixLen then some false
  else if prefixLen = 0 then some true
  else do
    let shift ← checkedSub w prefixLen
    let host ← checkedShr host shift
    let net ← checkedShr net shift
    return host = net

/-- `cidr_matches`. -/
def cidrMatches (ip : IpAddr) (entry : List Char) : Option (Option Bool) :=
  match splitOnce '/' entry with
  | none => some none
  | some (net, prefixLen) =>
    match parseU32 prefixLen, IpAddr.parse net with
    | some prefixLen, some net =>
      match ip, net with
      | .v4 host, .v4 net => (sameNetwork prefixLen host net).map some
      | .v6 host, .v6 net => (sameNetwork prefixLen host net).map some
      | _, _ => some (some false)
    | _, _ => some none

/-- The closure of `no_proxy_matches` on an entry. -/
def entryMatches (bare : List Char) (hostIp : Option IpAddr) (entry : List Char) : Option Bool := do
  let e := stripDot entry
  let range ← match hostIp with
    | some ip => cidrMatches ip e
    | none => some none
  match range with
  | some matched => return matched
  | none => matchesName bare e

/-- `no_proxy_matches`. -/
def noProxyMatches (host : List Char) (entries : List (List Char)) : Option Bool :=
  if entries = [] then some false
  else do
    let bare := toAsciiLowercase (← stripPort host)
    entries.anyM (entryMatches bare (IpAddr.parse bare))

/-- Every slice is at the first place of a bracket. -/
theorem stripPort_eq (host : List Char) : stripPort host = some (NoProxy.stripPort host) := by
  unfold stripPort NoProxy.stripPort
  cases stripPrefix '[' host with
  | none => rfl
  | some rest =>
    rw [Option.bind_some]
    by_cases hmem : ']' ∈ rest
    · obtain ⟨inner, after, hrest, hinner⟩ := List.eq_append_cons_of_mem hmem
      -- `find` returns the place of the first bracket, which is a character boundary.
      obtain ⟨n, hfind, hslice⟩ := exists_sliceTo_find (b := after) hinner
      rw [← hrest] at hfind hslice
      dsimp only
      rw [hfind, splitOnce_eq_some_iff.mpr ⟨hrest, hinner⟩]
      exact hslice
    · dsimp only
      rw [find_eq_none hmem, show splitOnce ']' rest = none from if_neg hmem]

/-- The index is that of a byte before the end. -/
theorem matchesName_eq (bare e : List Char) :
    matchesName bare e = some (Vigil.matchesName bare e) := by
  unfold matchesName Vigil.matchesName
  by_cases heq : bare = e
  · simp [heq]
  by_cases hlt : (Utf8.encode e).length < (Utf8.encode bare).length
  · have hi : (Utf8.encode bare).length - (Utf8.encode e).length - 1 <
        (Utf8.encode bare).length := by omega
    simp [heq, hlt, checkedSub_of_le hlt.le, checkedSub_of_le (Nat.sub_pos_of_lt hlt), hi]
  · simp [heq, hlt]

/-- The shift is not zero bits wide, because a length of zero has been dealt with before. -/
theorem sameNetwork_eq {w : ℕ} (prefixLen : ℕ) (host net : BitVec w) :
    sameNetwork prefixLen host net = some (NoProxy.sameNetwork prefixLen host net) := by
  unfold sameNetwork NoProxy.sameNetwork
  split_ifs with hlt hzero
  · rfl
  · rfl
  · have hshift : w - prefixLen < w := by omega
    rw [checkedSub_of_le (Nat.le_of_not_lt hlt)]
    simp only [Option.bind_eq_bind, Option.bind_some, checkedShr_of_lt _ hshift]
    rfl

/-- No comparison with a range panics. -/
theorem cidrMatches_eq (ip : IpAddr) (entry : List Char) :
    cidrMatches ip entry = some (NoProxy.cidrMatches ip entry) := by
  unfold cidrMatches NoProxy.cidrMatches
  cases splitOnce '/' entry with
  | none => rfl
  | some parts =>
    obtain ⟨net, prefixLen⟩ := parts
    simp only [Option.bind_eq_bind, Option.bind_some]
    cases parseU32 prefixLen with
    | none => rfl
    | some prefixLen =>
      cases IpAddr.parse net with
      | none => rfl
      | some net =>
        cases ip <;> cases net <;> simp [sameNetwork_eq]

/-- No entry's comparison panics. -/
theorem entryMatches_eq (bare : List Char) (hostIp : Option IpAddr) (entry : List Char) :
    entryMatches bare hostIp entry =
      some (match hostIp.bind fun ip => NoProxy.cidrMatches ip (stripDot entry) with
        | some matched => matched
        | none => Vigil.matchesName bare (stripDot entry)) := by
  unfold entryMatches
  cases hostIp with
  | none => exact matchesName_eq bare _
  | some ip =>
    simp only [cidrMatches_eq, Option.bind_eq_bind, Option.bind_some]
    cases NoProxy.cidrMatches ip (stripDot entry) with
    | none => exact matchesName_eq bare _
    | some matched => rfl

/-- A search with a test that never panics is a plain search. -/
theorem anyM_eq {α : Type*} {f : α → Option Bool} {g : α → Bool} (h : ∀ a, f a = some (g a))
    (l : List α) : l.anyM f = some (l.any g) := by
  induction l with
  | nil => rfl
  | cons a l ih =>
    rw [List.anyM, h, List.any_cons]
    cases g a with
    | true => rfl
    | false => exact ih

/-- The matcher does not panic, for any host and any list. -/
theorem noProxyMatches_eq (host : List Char) (entries : List (List Char)) :
    noProxyMatches host entries = some (NoProxy.noProxyMatches host entries) := by
  unfold noProxyMatches NoProxy.noProxyMatches
  split_ifs
  · rfl
  · rw [stripPort_eq]
    exact anyM_eq (fun entry => entryMatches_eq _ _ entry) entries

end Checked

/-! ## The rules -/

/-- The part of a host that is compared with the entries. -/
inductive BareHost : List Char → List Char → Prop
  /-- What is in brackets, up to the first closing one. -/
  | bracketed {inner : List Char} (h : ']' ∉ inner) (rest : List Char) :
    BareHost ('[' :: (inner ++ ']' :: rest)) inner
  /-- An address with several colons, which has no port. -/
  | colons {host : List Char} (hb : ¬ Bracketed host) (h : 1 < host.count ':') : BareHost host host
  /-- What is before a port. -/
  | port {host front : List Char} (hb : ¬ Bracketed host) (h : host.count ':' ≤ 1)
    (hport : EndsWithPort host front) : BareHost host front
  /-- A host without a port. -/
  | plain {host : List Char} (hb : ¬ Bracketed host) (h : host.count ':' ≤ 1)
    (hport : ∀ front, ¬ EndsWithPort host front) : BareHost host host

/-- The bare host is the one that `strip_port` returns. -/
theorem bareHost_iff {host bare : List Char} : BareHost host bare ↔ stripPort host = bare := by
  constructor
  · rintro (⟨hinner, rest⟩ | ⟨hb, h⟩ | ⟨hb, h, hport⟩ | ⟨hb, h, hport⟩)
    · unfold stripPort
      rw [stripPrefix_eq_some_iff.mpr rfl, Option.bind_some,
        splitOnce_eq_some_iff.mpr ⟨rfl, hinner⟩]
    · rw [stripPort_of_not_bracketed hb, if_pos h]
    · rw [stripPort_of_not_bracketed hb, if_neg (Nat.not_lt.mpr h), cutPort_of_endsWithPort hport]
    · rw [stripPort_of_not_bracketed hb, if_neg (Nat.not_lt.mpr h), cutPort_of_not hport]
  · rintro rfl
    by_cases hb : Bracketed host
    · obtain ⟨text, rest, rfl⟩ := hb
      -- The host's first closing bracket may come before this one.
      obtain ⟨inner, after, hsplit, hinner⟩ :=
        List.eq_append_cons_of_mem (show ']' ∈ text ++ ']' :: rest by simp)
      have hbare : stripPort ('[' :: (text ++ ']' :: rest)) = inner := by
        unfold stripPort
        rw [stripPrefix_eq_some_iff.mpr rfl, Option.bind_some,
          splitOnce_eq_some_iff.mpr ⟨hsplit, hinner⟩]
      rw [hbare, hsplit]
      exact .bracketed hinner after
    rw [stripPort_of_not_bracketed hb]
    split_ifs with h
    · exact .colons hb h
    · have h := Nat.le_of_not_lt h
      by_cases hport : ∃ front, EndsWithPort host front
      · obtain ⟨front, hport⟩ := hport
        rw [cutPort_of_endsWithPort hport]
        exact .port hb h hport
      · rw [cutPort_of_not (not_exists.mp hport)]
        exact .plain hb h (not_exists.mp hport)

/-- The entry is the network with the number of bits, `network/k`. -/
def IsRange (e : List Char) (net : IpAddr) (k : ℕ) : Prop :=
  ∃ network bits, e = network ++ '/' :: bits ∧ '/' ∉ network ∧
    IpAddr.parse network = some net ∧ parseU32 bits = some k

/-- Two addresses of the same family with the same first `k` bits. -/
def SamePrefix (ip net : IpAddr) (k : ℕ) : Prop :=
  match ip, net with
  | .v4 ip, .v4 net => k ≤ 32 ∧ ∀ i < k, ip.getMsbD i = net.getMsbD i
  | .v6 ip, .v6 net => k ≤ 128 ∧ ∀ i < k, ip.getMsbD i = net.getMsbD i
  | _, _ => False

/-- What an entry without its leading dot says of a bare host. A range decides on an address, and
everything else is a name. -/
def Allows (bare e : List Char) : Prop :=
  (∃ ip net k, IpAddr.parse bare = some ip ∧ IsRange e net k ∧ SamePrefix ip net k) ∨
    ((¬ ∃ ip net k, IpAddr.parse bare = some ip ∧ IsRange e net k) ∧ HasName bare e)

/-- The network and the number of bits of an entry, if it is a range. -/
def parseRange (e : List Char) : Option (IpAddr × ℕ) :=
  (splitOnce '/' e).bind fun parts =>
    (parseU32 parts.2).bind fun k => (IpAddr.parse parts.1).map fun net => (net, k)

/-- The comparison of `cidr_matches`. -/
def inSameRange (ip net : IpAddr) (k : ℕ) : Bool :=
  match ip, net with
  | .v4 ip, .v4 net => sameNetwork k ip net
  | .v6 ip, .v6 net => sameNetwork k ip net
  | _, _ => false

/-- An entry is read as the range that it is. -/
theorem parseRange_eq_some_iff {e : List Char} {net : IpAddr} {k : ℕ} :
    parseRange e = some (net, k) ↔ IsRange e net k := by
  unfold parseRange IsRange
  simp only [Option.bind_eq_some_iff, Option.map_eq_some_iff, Prod.mk.injEq, Prod.exists]
  constructor
  · rintro ⟨network, bits, hsplit, _, hbits, _, hnet, rfl, rfl⟩
    obtain ⟨heq, hmem⟩ := splitOnce_eq_some_iff.mp hsplit
    exact ⟨network, bits, heq, hmem, hnet, hbits⟩
  · rintro ⟨network, bits, heq, hmem, hnet, hbits⟩
    exact ⟨network, bits, splitOnce_eq_some_iff.mpr ⟨heq, hmem⟩, k, hbits, net, hnet, rfl, rfl⟩

/-- The comparison is one of the first bits. -/
theorem inSameRange_iff (ip net : IpAddr) (k : ℕ) :
    inSameRange ip net k = true ↔ SamePrefix ip net k := by
  cases ip with
  | v4 ip =>
    cases net with
    | v4 net => exact sameNetwork_iff k ip net
    | v6 net => simp [inSameRange, SamePrefix]
  | v6 ip =>
    cases net with
    | v4 net => simp [inSameRange, SamePrefix]
    | v6 net => exact sameNetwork_iff k ip net

/-- `cidr_matches` reads the entry and compares. -/
theorem cidrMatches_eq_map (ip : IpAddr) (e : List Char) :
    cidrMatches ip e = (parseRange e).map fun r => inSameRange ip r.1 r.2 := by
  unfold cidrMatches parseRange
  cases splitOnce '/' e with
  | none => rfl
  | some parts =>
    simp only [Option.bind_eq_bind, Option.bind_some]
    cases parseU32 parts.2 with
    | none => rfl
    | some k =>
      cases IpAddr.parse parts.1 with
      | none => rfl
      | some net => cases ip <;> cases net <;> rfl

/-- A name or a range allows a host if and only if the code says that it matches. -/
theorem allows_iff (bare e : List Char) :
    Allows bare e ↔ (match (IpAddr.parse bare).bind fun ip => cidrMatches ip e with
      | some matched => matched
      | none => Vigil.matchesName bare e) = true := by
  unfold Allows
  -- Only a range and an address are compared as such. Everything else is left to the name.
  cases hip : IpAddr.parse bare with
  | none => simp [matchesName_iff]
  | some ip =>
    simp only [Option.bind_some, cidrMatches_eq_map, Option.some.injEq,
      ← parseRange_eq_some_iff]
    cases parseRange e with
    | none => simp [matchesName_iff]
    | some r =>
      obtain ⟨net, k⟩ := r
      simp [inSameRange_iff]

end NoProxy

end Vigil
