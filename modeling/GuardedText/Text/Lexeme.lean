import GuardedText.Text.Bytes

/-!
# Lexemes of a document

A document is a row of lexemes whose texts, put together, are the document.
Seven punctuation characters stand alone.  Blanks, that is spaces and tabs, and
all other characters form runs that are as long as possible.  A carriage return
belongs to the line feed after it; anywhere else it is a lexeme of its own and
never part of a run.
-/

namespace GuardedText.Text

inductive Lexeme.Kind where
  | slash
  | star
  | hash
  | lessThan
  | greaterThan
  | bang
  | dash
  | newline
  | whitespace
  | text
deriving DecidableEq, Repr

structure Lexeme where
  kind : Lexeme.Kind
  text : List Char
deriving DecidableEq, Repr

namespace Lexeme

def punctuation? : Char → Option Kind
  | '/' => some .slash
  | '*' => some .star
  | '#' => some .hash
  | '<' => some .lessThan
  | '>' => some .greaterThan
  | '!' => some .bang
  | '-' => some .dash
  | _ => none

def isGap (char : Char) : Bool :=
  char == ' ' || char == '\t'

/-- Puts one character in front of a lexed text.  The character extends the
first lexeme if the two form one lexeme, and is a lexeme of its own if not. -/
def attach (char : Char) (lexemes : List Lexeme) : List Lexeme :=
  match punctuation? char with
  | some kind => ⟨kind, [char]⟩ :: lexemes
  | none =>
    if char = '\n' then ⟨.newline, [char]⟩ :: lexemes
    else if char = '\r' then
      match lexemes with
      | ⟨.newline, ['\n']⟩ :: rest => ⟨.newline, ['\r', '\n']⟩ :: rest
      | _ => ⟨.text, [char]⟩ :: lexemes
    else if isGap char then
      match lexemes with
      | ⟨.whitespace, run⟩ :: rest => ⟨.whitespace, char :: run⟩ :: rest
      | _ => ⟨.whitespace, [char]⟩ :: lexemes
    else
      match lexemes with
      | ⟨.text, run⟩ :: rest =>
        if run = ['\r'] then ⟨.text, [char]⟩ :: lexemes
        else ⟨.text, char :: run⟩ :: rest
      | _ => ⟨.text, [char]⟩ :: lexemes

def ofText (source : List Char) : List Lexeme :=
  source.foldr attach []

def textOf (lexemes : List Lexeme) : List Char :=
  lexemes.flatMap (·.text)

def spans (start : Nat) : List Lexeme → List (Lexeme × Nat × Nat)
  | [] => []
  | lexeme :: rest =>
    let stop := start + byteLength lexeme.text
    (lexeme, start, stop) :: spans stop rest

theorem textOf_attach (char : Char) (lexemes : List Lexeme) :
    textOf (attach char lexemes) = char :: textOf lexemes := by
  unfold attach
  repeat' split
  all_goals simp_all [textOf]

theorem textOf_ofText (source : List Char) : textOf (ofText source) = source := by
  induction source with
  | nil => rfl
  | cons char rest ih =>
    rw [show ofText (char :: rest) = attach char (ofText rest) from rfl,
      textOf_attach, ih]

end Lexeme

end GuardedText.Text
