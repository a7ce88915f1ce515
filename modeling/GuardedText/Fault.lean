import GuardedText.Condition.Fault
import GuardedText.Directive.Basic

/-!
# What can be wrong with a document
-/

namespace GuardedText

inductive Fault where
  | strayEnd (line : Nat)
  | strayBranch (line : Nat) (kind : BranchKind)
  | branchAfterElse (line : Nat) (kind : BranchKind)
  /-- The outermost block that is open at the end of the document. -/
  | openBlock (line : Nat)
  | openDirective (line : Nat)
  | tooDeep (line limit : Nat)
  | condition (line : Nat) (cause : Condition.Fault)
  | unsupportedOperator (line : Nat) (operator : String)
deriving DecidableEq, Repr

namespace Fault

def line : Fault → Nat
  | .strayEnd line | .strayBranch line _ | .branchAfterElse line _
  | .openBlock line | .openDirective line | .tooDeep line _
  | .condition line _ | .unsupportedOperator line _ => line

def isStructural : Fault → Bool
  | .condition _ _ | .unsupportedOperator _ _ => false
  | _ => true

def detail : Fault → String
  | .strayEnd _ => "`endif` without a matching `if`"
  | .strayBranch _ kind =>
    let keyword := kind.keyword
    s!"`{keyword}` without a matching `if`"
  | .branchAfterElse _ kind =>
    let keyword := kind.keyword
    s!"`{keyword}` after `else` in the same block"
  | .openBlock _ => "`if` is never closed by `endif`"
  | .openDirective _ => "directive comment is never closed"
  | .tooDeep _ limit => s!"blocks nested deeper than {limit} levels"
  | .condition _ cause => cause.message
  | .unsupportedOperator _ operator => s!"unsupported unary operator `{operator}`"

def message (fault : Fault) : String :=
  let line := fault.line
  let detail := fault.detail
  s!"line {line}: {detail}"

end Fault

end GuardedText
