import GuardedText.Condition.Token

/-!
# What can be wrong with a condition
-/

namespace GuardedText.Condition

inductive Problem where
  | strayText (text : String)
  | symbolExpected (found : Token)
  | strayToken (found : Token)
  | cutShort
deriving DecidableEq, Repr

def Problem.message : Problem → String
  | .strayText text => s!"unexpected character `{text}`"
  | .symbolExpected found =>
    let token := found.describe
    s!"expected a symbol name, found {token}"
  | .strayToken found =>
    let token := found.describe
    s!"unexpected {token}"
  | .cutShort => "unexpected end of condition"

inductive Fault where
  | missing
  | notWanted (found : String)
  /-- The condition breaks the grammar at a byte offset. -/
  | malformed (condition : String) (offset : Nat) (problem : Problem)
deriving DecidableEq, Repr

def Fault.message : Fault → String
  | .missing => "missing condition"
  | .notWanted found => s!"`else` does not take a condition, found `{found}`"
  | .malformed condition offset problem =>
    let detail := problem.message
    s!"invalid condition `{condition}` at offset {offset}: {detail}"

end GuardedText.Condition
