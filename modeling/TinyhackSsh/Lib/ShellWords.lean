import Mathlib.Tactic

/-! The words of a simple command by the quoting rules of the POSIX shell: single quotes,
double quotes and backslashes. Whatever else has a meaning of its own (operators, expansions,
patterns, comments, assignments) is refused, so that the words are those of every shell. -/

namespace ShellWords

inductive Mode
  | plain
  | single
  | double
  /-- after a backslash -/
  | escaped
  /-- after a backslash in double quotes -/
  | doubleEscaped
  deriving DecidableEq

/-- The words read to their end, and the word that has been begun. -/
structure State where
  words : List (List Char)
  word : Option (List Char)
  mode : Mode
  deriving DecidableEq

def State.push (s : State) (c : Char) : State := { s with word := some (s.word.getD [] ++ [c]) }

/-- A quote begins a word, even if nothing follows in it. -/
def State.enter (s : State) (mode : Mode) : State := { s with word := some (s.word.getD []), mode := mode }

def State.endWord (s : State) : State := ⟨s.words ++ s.word.toList, none, .plain⟩

/-- Characters that stand for themselves everywhere. -/
def isLiteral (c : Char) : Bool :=
  c.isAlphanum || c = '-' || c = '_' || c = '.' || c = '/' || c = ':' || c = ',' || c = '+' || c = '@' || c = '%'

def step (s : State) (c : Char) : Option State :=
  match s.mode with
  | .plain =>
    if c = '\'' then some (s.enter .single)
    else if c = '"' then some (s.enter .double)
    else if c = '\\' then some { s with mode := .escaped }
    else if c = ' ' ∨ c = '\t' then some s.endWord
    else if isLiteral c then some (s.push c)
    else none
  | .single => some (if c = '\'' then { s with mode := .plain } else s.push c)
  | .double =>
    if c = '"' then some { s with mode := .plain }
    else if c = '\\' then some { s with mode := .doubleEscaped }
    else if c = '$' ∨ c = '\x60' then none
    else some (s.push c)
  -- a backslash before a line feed joins the lines
  | .escaped => some { (if c = '\n' then s else s.push c) with mode := .plain }
  | .doubleEscaped =>
    some { (if c = '\n' then s
      else if c = '$' ∨ c = '\x60' ∨ c = '"' ∨ c = '\\' then s.push c
      else (s.push '\\').push c) with mode := .double }

def scan (s : State) (text : List Char) : Option State := text.foldlM step s

/-- The words of a command whose quotes are all closed. -/
def words (text : List Char) : Option (List (List Char)) :=
  (scan ⟨[], none, .plain⟩ text).bind fun s => if s.mode = .plain then some s.endWord.words else none

theorem scan_append (s : State) (text more : List Char) :
    scan s (text ++ more) = (scan s text).bind fun s => scan s more := List.foldlM_append

/-- Text within single quotes, written piece by piece: each piece may leave the quotes, if it
comes back to them and has put one character into the word. -/
theorem scan_pieces {piece : Char → List Char} {ws : List (List Char)}
    (h : ∀ w c, scan ⟨ws, some w, .single⟩ (piece c) = some ⟨ws, some (w ++ [c]), .single⟩) (w value : List Char) :
    scan ⟨ws, some w, .single⟩ (value.flatMap piece) = some ⟨ws, some (w ++ value), .single⟩ := by
  induction value generalizing w with
  | nil =>
    rw [List.append_nil]
    rfl
  | cons c value ih =>
    rw [List.flatMap_cons, scan_append, h, Option.bind_some, ih, List.append_assoc, List.singleton_append]

end ShellWords
