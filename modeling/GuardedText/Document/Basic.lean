import GuardedText.Condition.Basic
import GuardedText.Directive.Basic

/-!
# Documents

A document is a list of nodes.  A node is a plain line or a block, and a block
has branches, each with a condition and a body of nodes of its own.  Nothing is
demanded of the branches here: which kinds follow each other, and which of them
have conditions, is decided where documents are assembled from statements.
-/

namespace GuardedText

mutual

inductive Node where
  | leaf (text : String) (line : Nat)
  | block (branches : List Branch)

structure Branch where
  kind : BranchKind
  condition? : Option Condition
  body : List Node
  line : Nat

end

structure Document where
  content : List Node

/-- Whether the branch is taken, if no earlier one is.  A branch without a
condition always is. -/
def Branch.evaluate (symbols : Symbols) (branch : Branch) : Condition.Evaluation :=
  match branch.condition? with
  | some condition => condition.evaluate symbols
  | none => ⟨true, []⟩

namespace Node

def line : Node → Nat
  | .leaf _ line => line
  | .block branches => (branches.head?.map (·.line)).getD 0

def isBlock : Node → Bool
  | .leaf _ _ => false
  | .block _ => true

end Node

def endsInElse (branches : List Branch) : Bool :=
  branches.getLast?.any (·.kind == .otherwise)

/-! ## Measures -/

mutual

def countBlocks : List Node → Nat
  | [] => 0
  | .leaf _ _ :: rest => countBlocks rest
  | .block branches :: rest => 1 + countBranchBlocks branches + countBlocks rest

def countBranchBlocks : List Branch → Nat
  | [] => 0
  | ⟨_, _, body, _⟩ :: rest => countBlocks body + countBranchBlocks rest

end

mutual

def depth : List Node → Nat
  | [] => 0
  | .leaf _ _ :: rest => depth rest
  | .block branches :: rest => max (1 + branchDepth branches) (depth rest)

def branchDepth : List Branch → Nat
  | [] => 0
  | ⟨_, _, body, _⟩ :: rest => max (depth body) (branchDepth rest)

end

namespace Document

def blockCount (document : Document) : Nat :=
  countBlocks document.content

def maxDepth (document : Document) : Nat :=
  depth document.content

end Document

end GuardedText
