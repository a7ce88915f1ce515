import GuardedText.Symbols

/-!
# Conditions

A condition is true or false of a set of defined symbols.  The prefix operators
`-`, `+` and `~` can be written but mean nothing: such a condition is false
whatever its operand, and the operand is not looked at.
-/

namespace GuardedText

inductive Condition where
  | symbol (name : String)
  | not (operand : Condition)
  | and (left right : Condition)
  | or (left right : Condition)
  | unsupported (operator : String) (operand : Condition)
deriving DecidableEq, Repr

namespace Condition

structure Evaluation where
  value : Bool
  unsupported : List String
deriving DecidableEq, Repr

/-- Both sides of `&&` and `||` are evaluated even if the first decides. -/
def evaluate (symbols : Symbols) : Condition → Evaluation
  | .symbol name => ⟨symbols.contains name, []⟩
  | .not operand =>
    let inner := operand.evaluate symbols
    ⟨!inner.value, inner.unsupported⟩
  | .and left right =>
    let first := left.evaluate symbols
    let second := right.evaluate symbols
    ⟨first.value && second.value, first.unsupported ++ second.unsupported⟩
  | .or left right =>
    let first := left.evaluate symbols
    let second := right.evaluate symbols
    ⟨first.value || second.value, first.unsupported ++ second.unsupported⟩
  | .unsupported operator _ => ⟨false, [operator]⟩

def names : Condition → List String
  | .symbol name => [name]
  | .not operand => operand.names
  | .and left right => left.names ++ right.names
  | .or left right => left.names ++ right.names
  | .unsupported _ operand => operand.names

end Condition

end GuardedText
