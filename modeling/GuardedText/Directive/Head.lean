import GuardedText.Directive.Basic
import GuardedText.Text.Blank
import GuardedText.Text.Lexeme
import GuardedText.Text.Name

/-!
# Directive heads

The head of a directive is the opener of a comment, `/*#` with any number of
stars or `<!--#`, with a keyword right behind it.  The first head of a line
counts; an opener with another word behind it is text like any other.
-/

namespace GuardedText.Directive

open GuardedText.Text

structure Head where
  style : Style
  kind : Kind
  body : List Lexeme
deriving DecidableEq, Repr

namespace Head

def afterStars? : List Lexeme → Option (List Lexeme)
  | ⟨.star, _⟩ :: rest => afterStars? rest
  | ⟨.hash, _⟩ :: rest => some rest
  | _ => none

def opener? : List Lexeme → Option (Style × List Lexeme)
  | ⟨.slash, _⟩ :: ⟨.star, _⟩ :: rest => (afterStars? rest).map (.block, ·)
  | ⟨.lessThan, _⟩ :: ⟨.bang, _⟩ :: ⟨.dash, _⟩ :: ⟨.dash, _⟩ :: ⟨.hash, _⟩ :: rest =>
    some (.markup, rest)
  | _ => none

def keyword? : List Lexeme → Option (Kind × List Lexeme)
  | ⟨.text, word⟩ :: rest =>
    let tail := word.dropWhile Char.isAlpha
    if tail.head?.any isNameChar then none
    else
      (Kind.ofKeyword? (String.ofList (word.takeWhile Char.isAlpha))).map
        (·, ⟨.text, tail⟩ :: rest)
  | _ => none

def here? (lexemes : List Lexeme) : Option Head := do
  let (style, rest) ← opener? lexemes
  let (kind, body) ← keyword? rest
  return ⟨style, kind, body⟩

def find? : List Lexeme → Option Head
  | [] => none
  | lexeme :: rest => here? (lexeme :: rest) <|> find? rest

end Head

namespace Style

def closer : Style → List Lexeme.Kind
  | .block => [.star, .slash]
  | .markup => [.dash, .dash, .greaterThan]

def beforeCloser? (style : Style) : List Lexeme → Option (List Lexeme)
  | [] => none
  | lexeme :: rest =>
    if style.closer.isPrefixOf ((lexeme :: rest).map (·.kind)) then some []
    else (style.beforeCloser? rest).map (lexeme :: ·)

/-- The condition in the text between keyword and closer.  Stars in front of
the closer of a block comment belong to the comment. -/
def conditionText : Style → List Char → List Char
  | .block, body => trimEnd (dropEndWhile (· == '*') (trim body))
  | .markup, body => trim body

end Style

end GuardedText.Directive
