import GuardedText.Condition.Basic

/-!
# Printed conditions

A condition is printed with the parentheses that its structure needs and no
others: `||` binds weakest, then `&&`, then the prefix operators, and chains of
one operator group to the left.
-/

namespace GuardedText.Condition

def parenthesis (needed : Bool) (char : Char) : List Char :=
  if needed then [char] else []

/-- Writes a condition in front of a text.  An operator that binds weaker than
`least` needs parentheses: `||` binds with strength 1, `&&` with 2, the prefix
operators with 3. -/
def writeAt (least : Nat) : Condition → List Char → List Char
  | .symbol name, rest => name.toList ++ rest
  | .not operand, rest =>
    parenthesis (3 < least) '(' ++ '!' ::
      operand.writeAt 3 (parenthesis (3 < least) ')' ++ rest)
  | .and left right, rest =>
    parenthesis (2 < least) '(' ++ left.writeAt 2 (" && ".toList ++
      right.writeAt 3 (parenthesis (2 < least) ')' ++ rest))
  | .or left right, rest =>
    parenthesis (1 < least) '(' ++ left.writeAt 1 (" || ".toList ++
      right.writeAt 2 (parenthesis (1 < least) ')' ++ rest))
  | .unsupported operator operand, rest =>
    parenthesis (3 < least) '(' ++ operator.toList ++
      operand.writeAt 3 (parenthesis (3 < least) ')' ++ rest)

def print (condition : Condition) : String :=
  String.ofList (condition.writeAt 1 [])

end GuardedText.Condition
