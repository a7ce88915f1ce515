import GuardedText.Condition.Parser
import GuardedText.Document.Basic
import GuardedText.Statement

/-!
# From statements to documents

Statements are taken one at a time.  A stack holds the blocks that are open,
the innermost first; a finished block becomes a node of the branch around it.
Nodes and branches that have been read are kept with the latest first.
-/

namespace GuardedText

structure OpenBranch where
  kind : BranchKind
  condition? : Option Condition
  line : Nat
  body : List Node

def OpenBranch.close (branch : OpenBranch) : Branch :=
  ⟨branch.kind, branch.condition?, branch.body.reverse, branch.line⟩

structure OpenBlock where
  line : Nat
  earlier : List Branch
  current : OpenBranch

namespace OpenBlock

def push (node : Node) (block : OpenBlock) : OpenBlock :=
  { block with current := { block.current with body := node :: block.current.body } }

def continueWith (branch : OpenBranch) (block : OpenBlock) : OpenBlock :=
  ⟨block.line, block.current.close :: block.earlier, branch⟩

def close (block : OpenBlock) : Node :=
  .block (block.current.close :: block.earlier).reverse

end OpenBlock

structure Assembly where
  content : List Node
  blocks : List OpenBlock

namespace Assembly

def maxOpen : Nat := 256

def empty : Assembly := ⟨[], []⟩

def push (node : Node) : Assembly → Assembly
  | ⟨content, []⟩ => ⟨node :: content, []⟩
  | ⟨content, block :: outer⟩ => ⟨content, block.push node :: outer⟩

def readCondition (directive : Directive) : Except Fault Condition :=
  match directive.condition? with
  | some text => (Condition.parse text).mapError (.condition directive.line)
  | none => .error (.condition directive.line .missing)

/-- Opens a block.  The limit is checked before the condition is read. -/
def start (directive : Directive) (assembly : Assembly) : Except Fault Assembly :=
  if maxOpen ≤ assembly.blocks.length then .error (.tooDeep directive.line maxOpen)
  else do
    let condition ← readCondition directive
    let branch : OpenBranch := ⟨.ifTrue, some condition, directive.line, []⟩
    return { assembly with blocks := ⟨directive.line, [], branch⟩ :: assembly.blocks }

/-- Goes on with another branch of the innermost block.  The condition is read
before the branch's place in the block is checked. -/
def alternative (kind : BranchKind) (directive : Directive) :
    Assembly → Except Fault Assembly
  | ⟨_, []⟩ => .error (.strayBranch directive.line kind)
  | ⟨content, block :: outer⟩ => do
    let condition? ←
      if kind.takesCondition then some <$> readCondition directive else pure none
    if block.current.kind = .otherwise then
      .error (.branchAfterElse directive.line kind)
    else
      let branch : OpenBranch := ⟨kind, condition?, directive.line, []⟩
      return ⟨content, block.continueWith branch :: outer⟩

def finish (directive : Directive) : Assembly → Except Fault Assembly
  | ⟨_, []⟩ => .error (.strayEnd directive.line)
  | ⟨content, block :: outer⟩ => .ok (push block.close ⟨content, outer⟩)

def step (assembly : Assembly) : Statement → Except Fault Assembly
  | .plain text line => .ok (assembly.push (.leaf text line))
  | .directive directive =>
    match directive.kind with
    | .start .ifTrue => assembly.start directive
    | .start kind => assembly.alternative kind directive
    | .finish => assembly.finish directive

/-- The whole document.  Of several open blocks the outermost is at fault. -/
def toDocument (assembly : Assembly) : Except Fault Document :=
  match assembly.blocks.getLast? with
  | some block => .error (.openBlock block.line)
  | none => .ok ⟨assembly.content.reverse⟩

end Assembly

namespace Document

def ofStatements (statements : List Statement) : Except Fault Document := do
  (← statements.foldlM Assembly.step .empty).toDocument

end Document

end GuardedText
