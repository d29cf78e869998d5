import Vigil.Process.Parse

/-!
# Quoting for `shell_words`

A word in single quotes, with every inner single quote written as `'\''`, is read back by
`shell_words` whatever its characters are, except that a word with no characters is lost: the
splitter knows that a word has begun from its buffer alone, and a pair of quotes puts nothing there.
-/

namespace Vigil.Process

open Scanner

/-- A character inside single quotes. -/
def quoteChar (c : Char) : List Char := if c = '\'' then ['\'', '\\', '\'', '\''] else [c]

/-- A word in single quotes, as for a POSIX shell. -/
def quote (w : List Char) : List Char := '\'' :: (w.flatMap quoteChar ++ ['\''])

/-- The words in single quotes with blanks between them. -/
def joinQuoted (ws : List (List Char)) : List Char := [' '].intercalate (ws.map quote)

/-- The flags inside single quotes. -/
def singleQuoted : Quoting := ⟨true, false, false⟩

/-- Inside single quotes every character but the single quote stands for itself. -/
theorem reading_singleQuoted {c : Char} (hc : c ≠ '\'') :
    shell.reading singleQuoted c = .keep ∧ shell.next singleQuoted c = singleQuoted := by
  simp [shell, Quoting.reading, Quoting.next, singleQuoted, hc]

/-- A character that is written inside single quotes is read back. -/
theorem fields_quoteChar (c : Char) (rest : List Char) :
    shell.fields singleQuoted (quoteChar c ++ rest) =
        onHead [c] (shell.fields singleQuoted rest) ∧
      shell.after singleQuoted (quoteChar c ++ rest) = shell.after singleQuoted rest := by
  unfold quoteChar
  split_ifs with hc
  · -- The quote closes, an escaped quote follows, and the quote opens again.
    subst hc
    exact ⟨rfl, rfl⟩
  · obtain ⟨hr, hn⟩ := reading_singleQuoted hc
    rw [List.singleton_append, shell.fields_keep hr, Scanner.after_cons, hn]
    exact ⟨rfl, rfl⟩

/-- A text that is written inside single quotes is read back. -/
theorem fields_flatMap_quoteChar (rest : List Char) : ∀ w : List Char,
    shell.fields singleQuoted (w.flatMap quoteChar ++ rest) =
        onHead w (shell.fields singleQuoted rest) ∧
      shell.after singleQuoted (w.flatMap quoteChar ++ rest) = shell.after singleQuoted rest
  | [] => ⟨(onHead_nil (shell.fields_ne_nil _ _)).symm, rfl⟩
  | c :: w => by
    obtain ⟨hf, ha⟩ := fields_flatMap_quoteChar rest w
    obtain ⟨hfc, hac⟩ := fields_quoteChar c (w.flatMap quoteChar ++ rest)
    rw [List.flatMap_cons, List.append_assoc, hfc, hf, hac, ha, onHead_onHead]
    exact ⟨rfl, rfl⟩

/-- A quoted word adds the word to the first field and leaves no quote open. -/
theorem fields_quote (w rest : List Char) :
    shell.fields unquoted (quote w ++ rest) = onHead w (shell.fields unquoted rest) ∧
      shell.after unquoted (quote w ++ rest) = shell.after unquoted rest := by
  obtain ⟨hf, ha⟩ := fields_flatMap_quoteChar ('\'' :: rest) w
  have hquote : quote w ++ rest = '\'' :: (w.flatMap quoteChar ++ '\'' :: rest) := by
    simp [quote]
  rw [hquote]
  exact ⟨hf, ha⟩

/-- The fields of quoted words are the words. -/
theorem fields_joinQuoted : ∀ (ws : List (List Char)), ws ≠ [] →
    shell.fields unquoted (joinQuoted ws) = ws ∧
      shell.after unquoted (joinQuoted ws) = unquoted
  | [], h => absurd rfl h
  | [w], _ => by
    obtain ⟨hf, ha⟩ := fields_quote w []
    rw [List.append_nil] at hf ha
    have hjoin : joinQuoted [w] = quote w := by simp [joinQuoted]
    rw [hjoin, hf, ha]
    exact ⟨by simp [onHead], rfl⟩
  | w :: v :: ws, _ => by
    obtain ⟨hf, ha⟩ := fields_joinQuoted (v :: ws) (List.cons_ne_nil v ws)
    obtain ⟨hfw, haw⟩ := fields_quote w (' ' :: joinQuoted (v :: ws))
    have hjoin : joinQuoted (w :: v :: ws) = quote w ++ ' ' :: joinQuoted (v :: ws) := by
      simp [joinQuoted]
    -- The closing quote has left the flags as they were, so that the blank cuts.
    have hcut : shell.fields unquoted (' ' :: joinQuoted (v :: ws)) = [] :: v :: ws := by
      rw [shell.fields_cut rfl]
      exact congrArg _ hf
    rw [hjoin, hfw, haw, hcut]
    exact ⟨by simp [onHead], ha⟩

/-- `shell_words` reads quoted words back, but for those with no characters. -/
theorem shellWords_joinQuoted (ws : List (List Char)) :
    shellWords (joinQuoted ws) = .ok (nonempty ws) := by
  rw [shellWords_eq_ok]
  by_cases h : ws = []
  · subst h
    -- No word at all, and not one empty field.
    exact ⟨by decide, rfl⟩
  · obtain ⟨hf, ha⟩ := fields_joinQuoted ws h
    exact ⟨by rw [ha]; decide, by rw [commandWords, Scanner.words, hf]⟩

/-- `shell_words` reads quoted words back if and only if none of them is the empty string. -/
theorem shellWords_joinQuoted_eq_iff (ws : List (List Char)) :
    shellWords (joinQuoted ws) = .ok ws ↔ [] ∉ ws := by
  rw [shellWords_joinQuoted, Except.ok.injEq, nonempty_eq_self]

/-- The argument list `echo`, an empty string, and `x` loses the empty string. -/
theorem not_round_trip_empty_word :
    ¬ ∀ ws : List (List Char), shellWords (joinQuoted ws) = .ok ws := by
  intro h
  have hws := h ["echo".toList, [], "x".toList]
  revert hws
  decide +kernel

end Vigil.Process
