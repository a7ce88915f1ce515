import GuardedText.Text.Lexeme

/-!
# Lines of a document

A newline lexeme ends a line and does not belong to it.  What stands after the
last newline is a line too, so a document has one line more than it has
newlines, and a document that ends in a newline has an empty last line.
-/

namespace GuardedText.Text

structure Row where
  lexemes : List Lexeme
  terminator : List Char
deriving DecidableEq, Repr

/-- The rows of a lexed text: the first one, which always exists, and the rest. -/
structure Rows where
  first : Row
  rest : List Row
deriving DecidableEq, Repr

namespace Rows

def empty : Rows := ⟨⟨[], []⟩, []⟩

def attach (lexeme : Lexeme) (rows : Rows) : Rows :=
  if lexeme.kind = .newline then
    ⟨⟨[], lexeme.text⟩, rows.first :: rows.rest⟩
  else
    ⟨⟨lexeme :: rows.first.lexemes, rows.first.terminator⟩, rows.rest⟩

def ofLexemes (lexemes : List Lexeme) : Rows :=
  lexemes.foldr attach empty

def toList (rows : Rows) : List Row :=
  rows.first :: rows.rest

end Rows

structure Line extends Row where
  number : Nat
  /-- Bytes of the document before the line. -/
  start : Nat
deriving DecidableEq, Repr

namespace Line

def text (line : Line) : List Char :=
  Lexeme.textOf line.lexemes

def stop (line : Line) : Nat :=
  line.start + byteLength line.text

def place (number start : Nat) : List Row → List Line
  | [] => []
  | row :: rest =>
    let size := byteLength (Lexeme.textOf row.lexemes) + byteLength row.terminator
    ⟨row, number, start⟩ :: place (number + 1) (start + size) rest

def ofText (source : List Char) : List Line :=
  place 1 0 (Rows.ofLexemes (Lexeme.ofText source)).toList

end Line

end GuardedText.Text
