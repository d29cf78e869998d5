import Vigil.Process.Unquoted

/-!
# The section of default arguments

What `parse_command` makes of a command with a section ` [ .. ]`. `Opens` says where the section is
and `closing` where its bracket is matched, both outside quotes, and `expectedArgv` is the argument
list without a lost word. `parse_command` looks for the closing bracket with a plain `rfind`, which
takes the last one, quoted or not, and does not look at what follows it.

`parseCommand_eq_expectedArgv_iff` says when this makes no difference: when there is nothing from
the matching bracket on but closing brackets that stand alone. The proof counts the characters that
the words keep.
-/

namespace Vigil.Process

open Text Scanner

/-! ## What a section is -/

/-- The section of the command `s` opens after `base`, with the first bracket outside quotes. -/
structure Opens (s base args : List Char) : Prop where
  /-- The bracket stands between `base` and `args`. -/
  split : s = base ++ (openNeedle ++ args)
  /-- It is not quoted and not after a backslash. -/
  unquoted : shell.after unquoted base = unquoted
  /-- There is none before it. -/
  first : ∀ base' args', s = base' ++ (openNeedle ++ args') →
    shell.after Process.unquoted base' = Process.unquoted → base.length ≤ base'.length

/-- The text up to the bracket that closes the section and the text after that bracket. Brackets
count outside quotes only. `nests` says whether a section in the section has a bracket of its own:
the source does not say, and nothing below depends on it. -/
def closing (nests : Bool) : Quoting → (depth : ℕ) → List Char → Option (List Char × List Char)
  | _, _, [] => none
  | q, depth, c :: s =>
    let closes := q = unquoted ∧ closeNeedle.isPrefixOf (c :: s)
    let opens := nests ∧ q = unquoted ∧ openNeedle.isPrefixOf (c :: s)
    if closes ∧ depth = 0 then some ([], s.tail)
    else
      let depth' := if closes then depth - 1 else if opens then depth + 1 else depth
      (closing nests (q.next c) depth' s).map fun split => (c :: split.1, split.2)

/-- The argument list that loses no word: the words before the section, those in it, and those
after it. -/
def expectedArgv (nests : Bool) (base args : List Char) : Option (List (List Char)) :=
  match closing nests unquoted 0 (' ' :: args) with
  | none => none
  | some (inside, after) =>
    match shellWords base, shellWords inside, shellWords after with
    | .ok ws₁, .ok ws₂, .ok ws₃ => some (ws₁ ++ ws₂ ++ ws₃)
    | _, _, _ => none

/-- The section has a matching bracket, and from there on the words of the command are brackets
that stand alone, all but one of them before the last ` ]`. -/
def OnlyBrackets (nests : Bool) (args : List Char) : Prop :=
  ∃ inside after n last, closing nests unquoted 0 (' ' :: args) = some (inside, after) ∧
    rfind closeNeedle (closeNeedle ++ after) = some last ∧
    shellWords ((closeNeedle ++ after).take last) = .ok (List.replicate n [']']) ∧
    shellWords (closeNeedle ++ after) = .ok (List.replicate (n + 1) [']'])

/-! ## What the source finds -/

/-- The needle with the bracket is there, and begins with no mark. -/
theorem openNeedle_head : openNeedle ≠ [] ∧ ∀ c ∈ openNeedle.head?, isMark c = false :=
  ⟨List.cons_ne_nil _ _, head?_cons_not_mark (by decide) _⟩

/-- The loop finds the length of the text before the bracket. -/
theorem findUnquoted_openNeedle (s : List Char) :
    findUnquoted s openNeedle = (textBefore openNeedle unquoted s).map List.length := by
  rw [findUnquoted, findUnquotedLoop_eq openNeedle_head.1 openNeedle_head.2]
  simp only [Nat.zero_add]

/-- The needle stands where the bracket does. -/
theorem stands_openNeedle {q : Quoting} {s base : List Char} :
    q.Stands s openNeedle base ↔
      (∃ args, s = base ++ (openNeedle ++ args)) ∧ shell.after q base = Process.unquoted := by
  constructor
  · rintro ⟨⟨args, rfl⟩, hq⟩
    exact ⟨⟨args, List.append_assoc _ _ _⟩, hq⟩
  · rintro ⟨⟨args, rfl⟩, hq⟩
    exact ⟨⟨args, List.append_assoc _ _ _⟩, hq⟩

/-- `find_unquoted` finds where the section opens. -/
theorem Opens.findUnquoted {s base args : List Char} (h : Opens s base args) :
    findUnquoted s openNeedle = some base.length := by
  have hfirst : ∀ base', Process.unquoted.Stands s openNeedle base' →
      base.length ≤ base'.length := by
    intro base' h'
    obtain ⟨⟨args', hs⟩, hq⟩ := stands_openNeedle.mp h'
    exact h.first base' args' hs hq
  have hstands := stands_openNeedle.mpr ⟨⟨args, h.split⟩, h.unquoted⟩
  rw [findUnquoted_openNeedle, textBefore_eq_some openNeedle_head.1 hstands hfirst,
    Option.map_some]

/-- Where `find_unquoted` finds the needle, a section opens. -/
theorem opens_of_findUnquoted {s : List Char} {n : ℕ} (h : findUnquoted s openNeedle = some n) :
    Opens s (s.take n) (s.drop (n + 3)) := by
  rw [findUnquoted_openNeedle] at h
  obtain ⟨base, hbase, rfl⟩ := Option.map_eq_some_iff.mp h
  obtain ⟨hstands, hfirst⟩ := of_textBefore hbase
  obtain ⟨⟨args, rfl⟩, hq⟩ := stands_openNeedle.mp hstands
  have htake : (base ++ (openNeedle ++ args)).take base.length = base := List.take_left' rfl
  have hdrop : (base ++ (openNeedle ++ args)).drop (base.length + 3) = args := by
    rw [← List.append_assoc]
    exact List.drop_left' (by simp [openNeedle])
  rw [htake, hdrop]
  refine ⟨rfl, hq, fun base' args' hs hq' => ?_⟩
  exact (hfirst base' (stands_openNeedle.mpr ⟨⟨args', hs⟩, hq'⟩)).length_le

/-- The matching bracket ends what is inside, which leaves the scanner outside quotes. -/
theorem split_of_closing {nests : Bool} :
    ∀ {s inside after : List Char} {q : Quoting} {depth : ℕ},
      closing nests q depth s = some (inside, after) →
      s = inside ++ (closeNeedle ++ after) ∧ shell.after q inside = unquoted
  | [], _, _, _, _, h => by cases h
  | c :: s, inside, after, q, depth, h => by
    simp only [closing] at h
    split_ifs at h with hclose
    · cases h
      obtain ⟨tail, htail⟩ := List.isPrefixOf_iff_prefix.mp hclose.1.2
      rw [← htail]
      refine ⟨?_, hclose.1.1⟩
      have hs : s = ']' :: tail := (List.cons.inj htail).2.symm
      rw [hs]
      rfl
    all_goals
      obtain ⟨⟨inside', after'⟩, hrec, heq⟩ := Option.map_eq_some_iff.mp h
      cases heq
      obtain ⟨hsplit, hq⟩ := split_of_closing hrec
      exact ⟨by rw [hsplit, List.cons_append], hq⟩

/-- The bracket that opens the section is not one that closes it. -/
theorem rfind_openNeedle (args : List Char) :
    rfind closeNeedle (openNeedle ++ args) = (rfind closeNeedle (' ' :: args)).map (· + 2) := by
  show rfind closeNeedle (' ' :: '[' :: ' ' :: args) = _
  rw [rfind, rfind]
  cases rfind closeNeedle (' ' :: args) <;> rfl

/-- A blank in front adds no word. -/
theorem commandWords_blank (s : List Char) : commandWords (' ' :: s) = commandWords s :=
  shell.words_cut (q := unquoted) rfl s

/-- Outside quotes the words before a blank end at it. -/
theorem commandWords_append_blank {before : List Char}
    (hq : shell.after unquoted before = unquoted) (rest : List Char) :
    commandWords (before ++ ' ' :: rest) = commandWords before ++ commandWords (' ' :: rest) := by
  have hcut : shell.reading (shell.after unquoted before) ' ' = .cut := by
    rw [hq]
    rfl
  have happ := shell.words_append_cut hcut rest
  rw [hq] at happ
  exact happ.trans (congrArg _ (commandWords_blank rest).symm)

/-- The slice that `parse_command` takes for the section, up to the bracket that it finds, has the
words of the text from the blank after the first bracket on. -/
theorem commandWords_defaults (opening last : ℕ) (args : List Char) :
    let defaults :=
      if opening + 3 ≤ opening + (last + 2) then
        args.take (opening + (last + 2) - (opening + 3)) else []
    commandWords defaults = commandWords ((' ' :: args).take last) ∧
      shell.after unquoted defaults = shell.after unquoted ((' ' :: args).take last) := by
  dsimp only
  cases last with
  | zero =>
    rw [if_neg (by omega)]
    exact ⟨rfl, rfl⟩
  | succ last =>
    rw [if_pos (by omega), List.take_succ_cons,
      show opening + (last + 1 + 2) - (opening + 3) = last by omega]
    exact ⟨(commandWords_blank _).symm, rfl⟩

/-- The section that `parse_command` takes goes up to the last closing bracket. -/
theorem exists_of_parseCommand {s base args : List Char} {argv : List (List Char)}
    (h : parseCommand s = .ok argv) (hopen : Opens (trim s) base args) :
    ∃ last, rfind closeNeedle (' ' :: args) = some last ∧
      ¬ (shell.after unquoted base).Open ∧
      ¬ (shell.after unquoted ((' ' :: args).take last)).Open ∧
      argv = commandWords base ++ commandWords ((' ' :: args).take last) := by
  have htail : (trim s).drop (base.length + 3) = args := by
    rw [hopen.split, ← List.append_assoc]
    exact List.drop_left' (by simp [openNeedle])
  have hbase : (trim s).take base.length = base := by
    rw [hopen.split]
    exact List.take_left' rfl
  unfold parseCommand at h
  simp only [hopen.findUnquoted, hbase] at h
  cases hlast : rfind closeNeedle (' ' :: args) with
  | none =>
    -- The last closing bracket of the command is before the section, if there is one.
    exfalso
    have hnone : rfind closeNeedle (openNeedle ++ args) = none := by
      rw [rfind_openNeedle, hlast]
      rfl
    cases hclose : rfind closeNeedle (trim s) with
    | none => simp [hclose] at h
    | some close =>
      rw [hopen.split] at hclose
      have hlt := lt_of_rfind_append hnone hclose
      rw [← hopen.split] at hclose
      simp [hclose, hlt] at h
  | some last =>
    -- It is not before the section, so that the order of the two is right.
    have hsome : rfind closeNeedle (openNeedle ++ args) = some (last + 2) := by
      rw [rfind_openNeedle, hlast]
      rfl
    have hclose : rfind closeNeedle (trim s) = some (base.length + (last + 2)) := by
      rw [hopen.split]
      exact rfind_append_of_some hsome base
    have hnot : ¬ base.length + (last + 2) < base.length := by omega
    obtain ⟨hwords, hafter⟩ := commandWords_defaults base.length last args
    -- What is left are the two calls of `shell_words`, the section's after the base's.
    simp only [hclose, if_neg hnot, htail] at h
    generalize (if base.length + 3 ≤ base.length + (last + 2) then
      args.take (base.length + (last + 2) - (base.length + 3)) else []) = defaults
      at h hwords hafter
    rw [shellWords_eq, shellWords_eq, hwords, hafter] at h
    by_cases hb : (shell.after unquoted base).Open
    · rw [if_pos hb] at h
      cases h
    by_cases hd : (shell.after unquoted ((' ' :: args).take last)).Open
    · rw [if_neg hb, if_pos hd] at h
      cases h
    rw [if_neg hb, if_neg hd] at h
    exact ⟨last, rfl, hb, hd, (Except.ok.inj h).symm⟩

/-! ## Counting what the words keep -/

/-- Moving an element from the front of a list to its end changes nothing only where all elements
are equal. -/
theorem eq_replicate_of_rotate {α : Type*} {x y : α} :
    ∀ {l : List α}, l ++ [y] = x :: l → l = List.replicate l.length x ∧ y = x
  | [], h => ⟨rfl, (List.cons.inj h).1⟩
  | z :: l, h => by
    obtain ⟨rfl, htail⟩ := List.cons.inj (h : z :: (l ++ [y]) = x :: z :: l)
    obtain ⟨hl, hy⟩ := eq_replicate_of_rotate htail
    exact ⟨by rw [List.length_cons, List.replicate_succ, ← hl], hy⟩

/-- The words from a closing bracket on: the bracket with what is attached to it, and the others. -/
theorem exists_commandWords_closeNeedle (after : List Char) :
    ∃ head others, commandWords (closeNeedle ++ after) = (']' :: head) :: others ∧
      commandWords after = nonempty [head] ++ others := by
  obtain ⟨head, tail, hfields⟩ := List.exists_cons_of_ne_nil (shell.fields_ne_nil unquoted after)
  refine ⟨head, nonempty tail, ?_, ?_⟩
  · have hcut : shell.fields unquoted (closeNeedle ++ after) =
        [] :: onHead [']'] (shell.fields unquoted after) := rfl
    rw [commandWords, Scanner.words, hcut, hfields]
    rfl
  · rw [commandWords, Scanner.words, hfields]
    exact nonempty_append [head] tail

/-- A closing bracket outside quotes is a kept character, and its blank another one where it is
after a backslash. -/
theorem kept_closeNeedle {q : Quoting} (hq : ¬ q.Open) (rest : List Char) :
    (q = unquoted ∧ shell.kept q (closeNeedle ++ rest) = ']' :: shell.kept unquoted rest) ∨
      2 ≤ (shell.kept q (closeNeedle ++ rest)).length := by
  obtain ⟨inSingle, inDouble, escaped⟩ := q
  obtain ⟨rfl, rfl⟩ : inSingle = false ∧ inDouble = false := by simpa [Quoting.Open] using hq
  cases escaped with
  | false =>
    exact .inl ⟨rfl, (shell.kept_cut (q := unquoted) rfl _).trans
      (shell.kept_keep (q := unquoted) rfl _)⟩
  | true =>
    right
    have hkept : shell.kept ⟨false, false, true⟩ (closeNeedle ++ rest) =
        ' ' :: ']' :: shell.kept unquoted rest :=
      (shell.kept_keep (q := ⟨false, false, true⟩) rfl _).trans
        (congrArg _ (shell.kept_keep (q := unquoted) rfl _))
    rw [hkept, List.length_cons, List.length_cons]
    omega

/-- A closing bracket with nothing after it is a word of its own. -/
theorem commandWords_closeNeedle_of_kept {rest : List Char} (h : shell.kept unquoted rest = []) :
    commandWords (closeNeedle ++ rest) = [[']']] := by
  obtain ⟨head, others, hall, hrest⟩ := exists_commandWords_closeNeedle rest
  rw [commandWords, shell.words_eq_nil_of_kept h] at hrest
  obtain ⟨hhead, hothers⟩ := List.append_eq_nil_iff.mp hrest.symm
  cases head with
  | nil => rw [hall, hothers]
  | cons c head => cases hhead

/-- If the words before the last bracket are those after the first one, then one character is kept
of the last bracket and what follows it. -/
theorem length_kept_of_commandWords_eq {after before rest : List Char}
    (hsplit : closeNeedle ++ after = before ++ (closeNeedle ++ rest))
    (heq : commandWords before = commandWords after) :
    (shell.kept (shell.after unquoted before) (closeNeedle ++ rest)).length = 1 := by
  obtain ⟨head, others, hall, hafter⟩ := exists_commandWords_closeNeedle after
  have hflat : ']' :: (commandWords after).flatten =
      (commandWords before).flatten ++
        shell.kept (shell.after unquoted before) (closeNeedle ++ rest) := by
    rw [hafter]
    calc ']' :: (nonempty [head] ++ others).flatten
        = (commandWords (closeNeedle ++ after)).flatten := by
          rw [hall, List.flatten_append, flatten_nonempty]
          simp
      _ = shell.kept unquoted (before ++ (closeNeedle ++ rest)) := by
          rw [hsplit]
          exact shell.flatten_words _ _
      _ = _ := by rw [shell.kept_append, commandWords, shell.flatten_words]
  have hlen := congrArg List.length hflat
  rw [heq, List.length_cons, List.length_append] at hlen
  omega

/-- The words before the last bracket are the words after the first one if and only if there are
only brackets that stand alone. -/
theorem commandWords_eq_iff {after before rest : List Char}
    (hsplit : closeNeedle ++ after = before ++ (closeNeedle ++ rest))
    (hbefore : ¬ (shell.after unquoted before).Open) :
    commandWords before = commandWords after ↔
      ∃ n, commandWords before = List.replicate n [']'] ∧
        commandWords (closeNeedle ++ after) = List.replicate (n + 1) [']'] := by
  obtain ⟨head, others, hall, hafter⟩ := exists_commandWords_closeNeedle after
  constructor
  · intro heq
    have hone := length_kept_of_commandWords_eq hsplit heq
    rcases kept_closeNeedle hbefore rest with ⟨hq, hkept⟩ | htwo
    · rw [hkept, List.length_cons] at hone
      have hnone : shell.kept unquoted rest = [] := List.eq_nil_of_length_eq_zero (by omega)
      have hlast : commandWords (closeNeedle ++ after) = commandWords before ++ [[']']] := by
        rw [← commandWords_closeNeedle_of_kept hnone, hsplit]
        exact commandWords_append_blank hq (']' :: rest)
      rw [hall, heq, hafter] at hlast
      -- Both sides have as many words, so that nothing is attached to the first bracket.
      have hhead : nonempty [head] = [] := by
        have hlen := congrArg List.length hlast
        simp only [List.length_cons, List.length_append, List.length_nil] at hlen
        exact List.eq_nil_of_length_eq_zero (by omega)
      have hnil : head = [] := by
        cases head with
        | nil => rfl
        | cons c head => cases hhead
      rw [hhead, List.nil_append, hnil] at hlast
      obtain ⟨hothers, -⟩ := eq_replicate_of_rotate hlast.symm
      refine ⟨others.length, ?_, ?_⟩
      · rw [heq, hafter, hhead, List.nil_append]
        exact hothers
      · rw [hall, hnil, List.replicate_succ, ← hothers]
    · omega
  · rintro ⟨n, hn, hn'⟩
    rw [hall, List.replicate_succ] at hn'
    obtain ⟨hhead, hothers⟩ := List.cons.inj hn'
    have hnil : head = [] := (List.cons.inj hhead).2
    rw [hn, hafter, hothers, hnil]
    rfl

/-! ## Lost words -/

/-- Up to the last bracket the words of the section are those up to the matching bracket and those
between the two. -/
theorem commandWords_take_last {inside after : List Char} {last : ℕ}
    (hq : shell.after unquoted inside = unquoted) :
    commandWords ((inside ++ (closeNeedle ++ after)).take (inside.length + last)) =
        commandWords inside ++ commandWords ((closeNeedle ++ after).take last) ∧
      shell.after unquoted ((inside ++ (closeNeedle ++ after)).take (inside.length + last)) =
        shell.after unquoted ((closeNeedle ++ after).take last) := by
  rw [List.take_length_add_append]
  cases last with
  | zero =>
    rw [List.take_zero, List.append_nil]
    exact ⟨(List.append_nil _).symm, hq⟩
  | succ last =>
    exact ⟨commandWords_append_blank hq _, by rw [shell.after_append, hq]⟩

/-- Of a command with a section that it accepts, `parse_command` gives the words before the section,
those in it, and those after it if and only if from the matching bracket on there are only brackets
that stand alone. -/
theorem parseCommand_eq_expectedArgv_iff (nests : Bool) {s base args : List Char}
    {argv : List (List Char)} (h : parseCommand s = .ok argv) (hopen : Opens (trim s) base args) :
    expectedArgv nests base args = some argv ↔ OnlyBrackets nests args := by
  obtain ⟨last, hlast, hb, hd, rfl⟩ := exists_of_parseCommand h hopen
  unfold expectedArgv OnlyBrackets
  cases hclose : closing nests unquoted 0 (' ' :: args) with
  | none =>
    refine ⟨(fun e => nomatch e), fun e => ?_⟩
    obtain ⟨inside, after, n, last', hsome, -⟩ := e
    cases hsome
  | some split =>
    obtain ⟨inside, after⟩ := split
    obtain ⟨hsplit, hq⟩ := split_of_closing hclose
    -- The last bracket is the matching one or one after it.
    obtain ⟨last', hlast'⟩ : ∃ i, rfind closeNeedle (closeNeedle ++ after) = some i :=
      exists_rfind (List.cons_ne_nil ' ' (']' :: after)) (List.prefix_append closeNeedle after)
    have hadd : last = inside.length + last' := by
      rw [hsplit, rfind_append_of_some hlast' inside] at hlast
      exact (Option.some.inj hlast).symm
    obtain ⟨hwords, hafter⟩ := @commandWords_take_last inside after last' hq
    rw [hsplit, hadd] at hd ⊢
    rw [hafter] at hd
    rw [hwords]
    obtain ⟨rest, hrest⟩ := (prefix_of_rfind hlast').2
    have hsplit' : closeNeedle ++ after =
        (closeNeedle ++ after).take last' ++ (closeNeedle ++ rest) := by
      rw [hrest, List.take_append_drop]
    -- What is between the two brackets is taken for part of the section.
    have hiff := commandWords_eq_iff hsplit' hd
    have hinside : shellWords inside = .ok (commandWords inside) :=
      shellWords_eq_ok.mpr ⟨by rw [hq]; decide, rfl⟩
    have hbase : shellWords base = .ok (commandWords base) := shellWords_eq_ok.mpr ⟨hb, rfl⟩
    have hopenIff : (shell.after unquoted (closeNeedle ++ after)).Open ↔
        (shell.after unquoted after).Open := Iff.rfl
    simp only [hinside, hbase]
    constructor
    · intro heq
      split at heq
      · next ws₁ ws₂ ws₃ h₁ h₂ h₃ =>
        cases h₁
        cases h₂
        obtain ⟨hnot, rfl⟩ := shellWords_eq_ok.mp h₃
        have hsame := Option.some.inj heq
        rw [List.append_assoc, List.append_cancel_left_eq, List.append_cancel_left_eq] at hsame
        obtain ⟨n, hn, hn'⟩ := hiff.mp hsame.symm
        exact ⟨inside, after, n, last', rfl, hlast', shellWords_eq_ok.mpr ⟨hd, hn.symm⟩,
          shellWords_eq_ok.mpr ⟨hnot, hn'.symm⟩⟩
      · cases heq
    · rintro ⟨inside', after', n, last'', heq, hfind, hn, hn'⟩
      cases heq
      cases hlast'.symm.trans hfind
      obtain ⟨-, hn⟩ := shellWords_eq_ok.mp hn
      obtain ⟨hnot, hn'⟩ := shellWords_eq_ok.mp hn'
      have hsame := hiff.mpr ⟨n, hn.symm, hn'.symm⟩
      rw [shellWords_eq_ok.mpr ⟨hopenIff.not.mp hnot, rfl⟩, hsame]
      simp only [List.append_assoc]

/-- A section that is the end of its command: no word is lost. -/
theorem parseCommand_closed_section :
    expectedArgv true "/bin/foo arg1".toList "--port 8080 ]".toList =
        some ["/bin/foo".toList, "arg1".toList, "--port".toList, "8080".toList] ↔
      OnlyBrackets true "--port 8080 ]".toList :=
  parseCommand_eq_expectedArgv_iff true (s := "/bin/foo arg1 [ --port 8080 ]".toList)
    (by decide +kernel) (opens_of_findUnquoted (n := 13) (by decide +kernel))

/-- The word after the section of `/bin/foo [ a ] b` is lost, whether or not brackets nest. -/
theorem lost_word_after_section :
    ¬ ∃ nests, ∀ s base args argv, parseCommand s = .ok argv → Opens (trim s) base args →
      expectedArgv nests base args = some argv := by
  rintro ⟨nests, h⟩
  have hargv := h "/bin/foo [ a ] b".toList "/bin/foo".toList "a ] b".toList
    ["/bin/foo".toList, "a".toList] (by decide +kernel)
    (opens_of_findUnquoted (n := 8) (by decide +kernel))
  revert hargv
  cases nests <;> decide +kernel

end Vigil.Process
