import Mathlib.Tactic

/-!
# Words of a POSIX shell

Token recognition and quoting on the bytes of a command, one byte after another. A word keeps for each of its bytes
whether it is quoted. Operators and expansions are not read: a command that has one outside quotes has no words here.
-/

namespace Errex.Foundation.Shell

abbrev Byte := UInt8

def newline : Byte := 0x0a

def doubleQuote : Byte := 0x22

def apostrophe : Byte := 0x27

def backslash : Byte := 0x5c

def isBlank (b : Byte) : Bool := b == 0x20 || b == 0x09

def isExpansion (b : Byte) : Bool := b == 0x24 || b == 0x60

def isOperator (b : Byte) : Bool :=
  b == 0x26 || b == 0x28 || b == 0x29 || b == 0x3b || b == 0x3c || b == 0x3e || b == 0x7c

/-- The bytes of a word without its quotes, each with whether it is quoted. -/
abbrev Word := List (Byte × Bool)

def quoted (text : List Byte) : Word := text.map fun b => (b, true)

def unquoted (text : List Byte) : Word := text.map fun b => (b, false)

inductive Mode where
  | plain
  | escape
  | single
  | double
  | doubleEscape
  | comment
  | ended
  deriving DecidableEq

structure State where
  mode : Mode
  word : Option Word
  words : List Word
  deriving DecidableEq

namespace State

def start : State := ⟨.plain, none, []⟩

def enter (s : State) (mode : Mode) : State := ⟨mode, some (s.word.getD []), s.words⟩

def push (s : State) (mode : Mode) (b : Byte) (isQuoted : Bool) : State :=
  ⟨mode, some (s.word.getD [] ++ [(b, isQuoted)]), s.words⟩

def delimit (s : State) (mode : Mode) : State := ⟨mode, none, s.words ++ s.word.toList⟩

def stepPlain (s : State) (b : Byte) : Option State :=
  if b = newline then some (s.delimit .ended)
  else if isBlank b then some (s.delimit .plain)
  else if b = backslash then some { s with mode := .escape }
  else if b = apostrophe then some (s.enter .single)
  else if b = doubleQuote then some (s.enter .double)
  else if b = 0x23 ∧ s.word = none then some { s with mode := .comment }
  else if isOperator b || isExpansion b then none
  else some (s.push .plain b false)

def step (s : State) (b : Byte) : Option State :=
  if b = 0 then none
  else
    match s.mode with
    | .plain => s.stepPlain b
    -- a backslash and a newline are removed before the text is split, so they begin no word
    | .escape => if b = newline then some { s with mode := .plain } else some (s.push .plain b true)
    | .single => if b = apostrophe then some { s with mode := .plain } else some (s.push .single b true)
    | .double =>
        if b = doubleQuote then some { s with mode := .plain }
        else if b = backslash then some { s with mode := .doubleEscape }
        else if isExpansion b then none
        else some (s.push .double b true)
    | .doubleEscape =>
        if b = newline then some { s with mode := .double }
        else if isExpansion b || b == doubleQuote || b == backslash then some (s.push .double b true)
        else some ((s.push .double backslash true).push .double b true)
    | .comment => if b = newline then some (s.delimit .ended) else some s
    | .ended => some s

def finish (s : State) : Option (List Word) :=
  match s.mode with
  | .plain | .comment | .ended => some (s.words ++ s.word.toList)
  | .escape | .single | .double | .doubleEscape => none

end State

open State

/-- The words of the first command line of a text. -/
def read (text : List Byte) : Option (List Word) := (text.foldlM step start).bind finish

example : read [0x61, 0x20, 0x27, 0x62, 0x20, 0x27, 0x5c, 0x63, 0x0a] =
    some [[(0x61, false)], [(0x62, true), (0x20, true), (0x63, true)]] := by decide

def escapeByte (b : Byte) : List Byte := if b = apostrophe then [apostrophe, backslash, apostrophe, apostrophe] else [b]

def quote (text : List Byte) : List Byte := apostrophe :: text.flatMap escapeByte ++ [apostrophe]

theorem quoted_cons (b : Byte) (text : List Byte) : quoted (b :: text) = (b, true) :: quoted text := rfl

theorem flatMap_escapeByte {text : List Byte} (clear : apostrophe ∉ text) : text.flatMap escapeByte = text := by
  induction text with
  | nil => rfl
  | cons b text ih =>
      rw [List.mem_cons, not_or] at clear
      rw [List.flatMap_cons, ih clear.2, escapeByte, if_neg (Ne.symm clear.1)]
      rfl

theorem step_escapeByte {b : Byte} (some_ : b ≠ 0) (word : Word) (words : List Word) :
    (escapeByte b).foldlM step ⟨.single, some word, words⟩ = some ⟨.single, some (word ++ [(b, true)]), words⟩ := by
  by_cases mark : b = apostrophe
  · subst mark
    rfl
  · rw [escapeByte, if_neg mark]
    simp [step, some_, mark, push]

theorem run_escaped {text : List Byte} (clear : 0 ∉ text) (word : Word) (words : List Word) :
    (text.flatMap escapeByte).foldlM step ⟨.single, some word, words⟩ =
      some ⟨.single, some (word ++ quoted text), words⟩ := by
  induction text generalizing word with
  | nil => simp [quoted]
  | cons b text ih =>
      rw [List.mem_cons, not_or] at clear
      rw [List.flatMap_cons, List.foldlM_append, step_escapeByte (Ne.symm clear.1)]
      refine (ih clear.2 (word ++ [(b, true)])).trans ?_
      rw [quoted_cons, List.append_assoc, List.singleton_append]

theorem run_quote {text : List Byte} (clear : 0 ∉ text) (word : Option Word) (words : List Word) :
    (quote text).foldlM step ⟨.plain, word, words⟩ = some ⟨.plain, some (word.getD [] ++ quoted text), words⟩ := by
  have opened : step ⟨.plain, word, words⟩ apostrophe = some ⟨.single, some (word.getD []), words⟩ := rfl
  have closed : ∀ w, step ⟨.single, some w, words⟩ apostrophe = some ⟨.plain, some w, words⟩ := fun _ => rfl
  rw [quote, List.cons_append, List.foldlM_cons, opened]
  refine Eq.trans ?_ (closed (word.getD [] ++ quoted text))
  rw [Option.bind_eq_bind, Option.bind_some, List.foldlM_append, run_escaped clear]
  simp

end Errex.Foundation.Shell
