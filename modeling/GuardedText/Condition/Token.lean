import GuardedText.Text.Bytes
import GuardedText.Text.Name

/-!
# Tokens of a condition

The text of a condition is cut into pieces.  A piece is the longest token that
starts at its place.  Where no token starts, one character is a piece without a
token; a quote that is never closed makes such a piece of all the text after
it.  Between the pieces stand only spaces, tabs, carriage returns, line feeds
and form feeds.
-/

namespace GuardedText.Condition

open GuardedText.Text

inductive Token where
  | bang
  | conjunction
  | disjunction
  | openGroup
  | closeGroup
  | symbol (name : String)
  | number (text : String)
  | quoted (text : String)
  | operator (text : String)
deriving DecidableEq, Repr

namespace Token

def text : Token → String
  | .bang => "!"
  | .conjunction => "&&"
  | .disjunction => "||"
  | .openGroup => "("
  | .closeGroup => ")"
  | .symbol name => name
  | .number text => text
  | .quoted text => text
  | .operator text => text

def describe (token : Token) : String :=
  let text := token.text
  match token with
  | .symbol _ => s!"symbol `{text}`"
  | .number _ | .quoted _ => s!"literal `{text}`"
  | .operator _ => s!"operator `{text}`"
  | _ => s!"`{text}`"

/-- The tokens with one spelling.  A spelling stands before its own beginnings,
so that the first one that fits is the longest. -/
def fixed : List Token :=
  [.operator "===", .operator "!==", .operator "==", .operator "!=",
   .operator "<=", .operator ">=", .operator "<<", .operator ">>",
   .conjunction, .disjunction, .bang, .openGroup, .closeGroup] ++
  ["<", ">", "=", "+", "-", "*", "/", "%", "&", "|", "^", "~", "?", ":", ",",
   ".", "[", "]", "\x7b", "\x7d"].map .operator

def isSkipped (char : Char) : Bool :=
  char == ' ' || char == '\t' || char == '\r' || char == '\n' || char == '\x0c'

def isNumberChar (char : Char) : Bool :=
  char.isAlphanum || char == '_' || char == '.'

def isQuote (char : Char) : Bool :=
  char == '"' || char == '\''

def scan (first : Char) (rest : List Char) : List Char × Option Token :=
  if isNameStart first then
    let word := first :: rest.takeWhile isNameChar
    (word, some (.symbol (String.ofList word)))
  else if first.isDigit then
    let word := first :: rest.takeWhile isNumberChar
    (word, some (.number (String.ofList word)))
  else if isQuote first then
    if first ∈ rest then
      let word := first :: rest.takeWhile (· != first) ++ [first]
      (word, some (.quoted (String.ofList word)))
    else (first :: rest, none)
  else
    match fixed.find? (·.text.toList.isPrefixOf (first :: rest)) with
    | some token => (token.text.toList, some token)
    | none => ([first], none)

end Token

structure Piece where
  /-- Bytes of the condition before the piece. -/
  start : Nat
  text : List Char
  token? : Option Token
deriving DecidableEq, Repr

namespace Piece

def stop (piece : Piece) : Nat :=
  piece.start + byteLength piece.text

def ofText (start : Nat) : List Char → List Piece
  | [] => []
  | first :: rest =>
    if Token.isSkipped first then ofText (start + first.utf8Size) rest
    else
      let (text, token?) := Token.scan first rest
      ⟨start, text, token?⟩ ::
        ofText (start + byteLength text) (rest.drop (text.length - 1))
termination_by text => text.length
decreasing_by
  all_goals
    simp only [List.length_cons, List.length_drop]
    omega

end Piece

end GuardedText.Condition
