import Vigil.Lib.Scanner
import Vigil.Lib.Text

/-!
# Command lines

`process_util/parse.rs`: `shell_words` splits a command into words, `find_unquoted` finds a text
outside quotes, and `parse_command` splits a command with a section ` [ .. ]` of default arguments.
A string is the list of its characters here, and positions count characters. The source counts
bytes, and all the positions that it finds are those of a blank, so that its slices are the same
(`findUnquotedBytes_eq`).

`shell_words` and `find_unquoted` follow the same three flags. They are the states of one scanner
(`shell`), and `shellWords_eq` says that the words are the nonempty fields that it reads.
-/

namespace Vigil.Process

open Text Scanner

/-! ## The functions of the source -/

/-- The flags of `shell_words` and of `find_unquoted`. -/
structure Quoting where
  /-- `in_single`. -/
  inSingle : Bool
  /-- `in_double`. -/
  inDouble : Bool
  /-- `escaped`: the last character is a backslash that counts. -/
  escaped : Bool
  deriving DecidableEq, Repr

/-- The flags at the start: all `false`. -/
def unquoted : Quoting := ⟨false, false, false⟩

/-- Why a command is rejected. -/
inductive CommandError
  /-- `unterminated quote in command: {s:?}`. -/
  | unterminated (s : List Char)
  /-- `unmatched '[' in command: {s:?}`. -/
  | unmatched (s : List Char)
  /-- `malformed default-args syntax in command: {s:?}`. -/
  | malformed (s : List Char)
  deriving DecidableEq, Repr

/-- The variables of `shell_words`. -/
structure Splitter where
  /-- `words`. -/
  words : List (List Char)
  /-- `current`. -/
  current : List Char
  /-- The three flags. -/
  quoting : Quoting
  deriving DecidableEq, Repr

/-- `' ' | '\t' | '\n' | '\r'`. -/
def isBlank (c : Char) : Bool := c = ' ' || c = '\t' || c = '\n' || c = '\r'

/-- The body of the loop of `shell_words`. -/
def shellWordsStep (st : Splitter) (c : Char) : Splitter :=
  let q := st.quoting
  if q.escaped then { st with current := st.current ++ [c], quoting := { q with escaped := false } }
  else if c = '\\' ∧ ¬ q.inSingle then { st with quoting := { q with escaped := true } }
  else if c = '\'' ∧ ¬ q.inDouble then { st with quoting := { q with inSingle := !q.inSingle } }
  else if c = '"' ∧ ¬ q.inSingle then { st with quoting := { q with inDouble := !q.inDouble } }
  else if isBlank c ∧ ¬ q.inSingle ∧ ¬ q.inDouble then
    if st.current = [] then st else { st with words := st.words ++ [st.current], current := [] }
  else { st with current := st.current ++ [c] }

/-- `shell_words`. -/
def shellWords (s : List Char) : Except CommandError (List (List Char)) :=
  let st := s.foldl shellWordsStep ⟨[], [], unquoted⟩
  if st.quoting.inSingle ∨ st.quoting.inDouble then .error (.unterminated s)
  else if st.current = [] then .ok st.words
  else .ok (st.words ++ [st.current])

/-- The loop of `find_unquoted` at position `i`, with the rest of the text from there. -/
def findUnquotedLoop (needle : List Char) : Quoting → ℕ → List Char → Option ℕ
  | _, _, [] => none
  | q, i, c :: s =>
    if q.escaped then findUnquotedLoop needle { q with escaped := false } (i + 1) s
    else if c = '\\' ∧ ¬ q.inSingle then
      findUnquotedLoop needle { q with escaped := true } (i + 1) s
    else if c = '\'' ∧ ¬ q.inDouble then
      findUnquotedLoop needle { q with inSingle := !q.inSingle } (i + 1) s
    else if c = '"' ∧ ¬ q.inSingle then
      findUnquotedLoop needle { q with inDouble := !q.inDouble } (i + 1) s
    else if ¬ q.inSingle ∧ ¬ q.inDouble ∧ needle.isPrefixOf (c :: s) then some i
    else findUnquotedLoop needle q (i + 1) s

/-- `find_unquoted`. -/
def findUnquoted (s needle : List Char) : Option ℕ := findUnquotedLoop needle unquoted 0 s

/-- The bracket that opens the section, with the blanks around it. -/
def openNeedle : List Char := [' ', '[', ' ']

/-- The bracket that closes the section, with the blank before it. -/
def closeNeedle : List Char := [' ', ']']

/-- `parse_command`. -/
def parseCommand (s : List Char) : Except CommandError (List (List Char)) :=
  let s := trim s
  match findUnquoted s openNeedle with
  | none => shellWords s
  | some opening =>
    match rfind closeNeedle s with
    | none => .error (.unmatched s)
    | some close =>
      if close < opening then .error (.malformed s)
      else do
        let base := s.take opening
        let defaultsStart := opening + 3
        let defaults :=
          if defaultsStart ≤ close then (s.drop defaultsStart).take (close - defaultsStart) else []
        let args ← shellWords base
        let more ← shellWords defaults
        .ok (args ++ more)

/-! ## The scanner of the flags -/

/-- The flags after a character. -/
def Quoting.next (q : Quoting) (c : Char) : Quoting :=
  if q.escaped then { q with escaped := false }
  else if c = '\\' ∧ ¬ q.inSingle then { q with escaped := true }
  else if c = '\'' ∧ ¬ q.inDouble then { q with inSingle := !q.inSingle }
  else if c = '"' ∧ ¬ q.inSingle then { q with inDouble := !q.inDouble }
  else q

/-- What a character is under the flags: part of the word, a mark, or a blank between words. -/
def Quoting.reading (q : Quoting) (c : Char) : Scanner.Reading :=
  if q.escaped then .keep
  else if c = '\\' ∧ ¬ q.inSingle then .skip
  else if c = '\'' ∧ ¬ q.inDouble then .skip
  else if c = '"' ∧ ¬ q.inSingle then .skip
  else if isBlank c ∧ ¬ q.inSingle ∧ ¬ q.inDouble then .cut
  else .keep

/-- The scanner that `shell_words` and `find_unquoted` run. -/
def shell : Scanner Quoting Char := ⟨Quoting.next, Quoting.reading⟩

/-- A quote is open. -/
def Quoting.Open (q : Quoting) : Prop := q.inSingle ∨ q.inDouble

instance (q : Quoting) : Decidable q.Open := inferInstanceAs (Decidable (_ ∨ _))

/-- The list with one element, or with none for an empty text. -/
def flush (current : List Char) : List (List Char) := nonempty [current]

/-- One step of `shell_words` is one step of the scanner. -/
theorem shellWordsStep_eq (st : Splitter) (c : Char) : shellWordsStep st c =
    match shell.reading st.quoting c with
    | .keep => ⟨st.words, st.current ++ [c], shell.next st.quoting c⟩
    | .skip => ⟨st.words, st.current, shell.next st.quoting c⟩
    | .cut => ⟨st.words ++ flush st.current, [], shell.next st.quoting c⟩ := by
  obtain ⟨words, current, q⟩ := st
  simp only [shellWordsStep, shell, Quoting.reading, Quoting.next]
  split_ifs <;> simp_all [flush, nonempty]

/-- The loop of `shell_words`: the words so far are followed by the fields that are not empty, the
first of which continues the current one. -/
theorem foldl_shellWordsStep : ∀ (s : List Char) (st : Splitter),
    let st' := s.foldl shellWordsStep st
    st'.quoting = shell.after st.quoting s ∧
      st'.words ++ flush st'.current =
        st.words ++ nonempty (onHead st.current (shell.fields st.quoting s))
  | [], st => ⟨rfl, by simp [onHead, flush]⟩
  | c :: s, st => by
    have ih := foldl_shellWordsStep s (shellWordsStep st c)
    rw [List.foldl_cons]
    rw [shellWordsStep_eq] at ih ⊢
    cases h : shell.reading st.quoting c with
    | keep =>
      rw [shell.fields_keep h, onHead_onHead]
      rw [h] at ih
      exact ih
    | skip =>
      rw [shell.fields_skip h]
      rw [h] at ih
      exact ih
    | cut =>
      rw [shell.fields_cut h]
      rw [h] at ih
      -- The current word is over, and is none if it is empty.
      refine ⟨ih.1, ih.2.trans ?_⟩
      rw [onHead_nil (shell.fields_ne_nil _ _), List.append_assoc]
      congr 1
      rw [onHead, List.append_nil]
      exact (nonempty_append [st.current] _).symm

/-- The words that the scanner reads in a command. -/
def commandWords (s : List Char) : List (List Char) := shell.words unquoted s

/-- `shell_words` gives the words that the scanner reads, unless a quote is left open. -/
theorem shellWords_eq (s : List Char) : shellWords s =
    if (shell.after unquoted s).Open then .error (.unterminated s) else .ok (commandWords s) := by
  obtain ⟨hq, hw⟩ := foldl_shellWordsStep s ⟨[], [], unquoted⟩
  rw [onHead_nil (shell.fields_ne_nil _ _)] at hw
  unfold shellWords
  dsimp only at hq hw ⊢
  rw [hq]
  change (if (shell.after unquoted s).Open then _ else _) = _
  split_ifs with hopen hcur
  · rfl
  -- Without a current word there is nothing to flush.
  · rw [hcur] at hw
    exact congrArg Except.ok ((List.append_nil _).symm.trans hw)
  · have hflush : flush (s.foldl shellWordsStep ⟨[], [], unquoted⟩).current =
        [(s.foldl shellWordsStep ⟨[], [], unquoted⟩).current] :=
      nonempty_eq_self.mpr (by simpa using hcur)
    rw [hflush] at hw
    exact congrArg Except.ok hw

/-- `shell_words` succeeds if and only if no quote is left open. -/
theorem shellWords_eq_ok {s : List Char} {ws : List (List Char)} :
    shellWords s = .ok ws ↔ ¬ (shell.after unquoted s).Open ∧ ws = commandWords s := by
  rw [shellWords_eq]
  split_ifs with h
  · exact ⟨(fun e => nomatch e), fun e => absurd h e.1⟩
  · exact ⟨fun e => ⟨h, (Except.ok.inj e).symm⟩, fun e => by rw [e.2]⟩

end Vigil.Process
