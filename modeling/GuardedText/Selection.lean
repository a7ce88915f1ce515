import GuardedText.Document.Basic
import GuardedText.Fault

/-!
# Selecting the lines of a document

In every block the branches are tried in order, and the body of the first one
that is taken stands for the block.  Bodies that are not taken are not looked
into.  The walk over a document is a list of steps; a policy then decides
whether operators without a meaning are warnings or end the run at the first.
-/

namespace GuardedText

namespace Selection

inductive Step where
  | keep (text : String)
  | unsupported (line : Nat) (operator : String)
  | taken (line : Nat) (kind : BranchKind)
  | skipped (line : Nat)
deriving DecidableEq, Repr

/-- Tries the branches of the block at `line`.  The result is what was met on
the way and the body to go on with. -/
def choose (symbols : Symbols) (line : Nat) : List Branch → List Step × List Node
  | [] => ([.skipped line], [])
  | branch :: rest =>
    let evaluation := branch.evaluate symbols
    let reports := evaluation.unsupported.map (.unsupported branch.line)
    if evaluation.value then
      (reports ++ [.taken branch.line branch.kind], branch.body)
    else
      let (steps, body) := choose symbols line rest
      (reports ++ steps, body)

/-! ## The walk -/

mutual

/-- Counts the nodes in a way that shrinks when a block gives way to one of its
bodies. -/
def weight : List Node → Nat
  | [] => 1
  | .leaf _ _ :: rest => 1 + weight rest
  | .block branches :: rest => 2 + branchWeight branches + weight rest

def branchWeight : List Branch → Nat
  | [] => 0
  | ⟨_, _, body, _⟩ :: rest => weight body + branchWeight rest

end

def stackWeight (stack : List (List Node)) : Nat :=
  stack.foldr (fun body total => weight body + total) 0

theorem stackWeight_cons (body : List Node) (stack : List (List Node)) :
    stackWeight (body :: stack) = weight body + stackWeight stack := rfl

theorem weight_choose_le (symbols : Symbols) (line : Nat) (branches : List Branch) :
    weight (choose symbols line branches).2 ≤ 1 + branchWeight branches := by
  induction branches with
  | nil => simp [choose, weight]
  | cons branch rest ih =>
    obtain ⟨kind, condition?, body, branchLine⟩ := branch
    simp only [choose, branchWeight]
    split
    · simp; omega
    · simp only; omega

/-- Walks over bodies that are left to do, the innermost first. -/
def walk (symbols : Symbols) : List (List Node) → List Step
  | [] => []
  | [] :: stack => walk symbols stack
  | (.leaf text _ :: rest) :: stack => .keep text :: walk symbols (rest :: stack)
  | (.block branches :: rest) :: stack =>
    let chosen := choose symbols (Node.block branches).line branches
    chosen.1 ++ walk symbols (chosen.2 :: rest :: stack)
termination_by stack => stackWeight stack
decreasing_by
  · simp only [stackWeight_cons, weight]
    omega
  · simp only [stackWeight_cons, weight]
    omega
  · have := weight_choose_le symbols (Node.block branches).line branches
    simp only [stackWeight_cons, weight]
    omega

end Selection

structure Diagnostic where
  line : Nat
  operator : String
deriving DecidableEq, Repr

namespace Diagnostic

def message (diagnostic : Diagnostic) : String :=
  let operator := diagnostic.operator
  s!"unsupported unary operator `{operator}`, only `!` is supported; evaluated as false"

def print (diagnostic : Diagnostic) : String :=
  let line := diagnostic.line
  let message := diagnostic.message
  s!"warning (line {line}): {message}"

end Diagnostic

structure Selection where
  lines : List String
  diagnostics : List Diagnostic
deriving DecidableEq, Repr

inductive Policy where
  | warn
  | deny
deriving DecidableEq, Repr

namespace Policy

def name : Policy → String
  | .warn => "warn"
  | .deny => "deny"

def all : List Policy := [.warn, .deny]

end Policy

namespace Selection

def kept (steps : List Step) : List String :=
  steps.filterMap fun
    | .keep text => some text
    | _ => none

def warnings (steps : List Step) : List Diagnostic :=
  steps.filterMap fun
    | .unsupported line operator => some ⟨line, operator⟩
    | _ => none

def judge (policy : Policy) (steps : List Step) : Except Fault Selection :=
  match policy, warnings steps with
  | .deny, first :: _ => .error (.unsupportedOperator first.line first.operator)
  | _, diagnostics => .ok ⟨kept steps, diagnostics⟩

end Selection

namespace Document

def steps (document : Document) (symbols : Symbols) : List Selection.Step :=
  Selection.walk symbols [document.content]

def select (document : Document) (symbols : Symbols) (policy : Policy) :
    Except Fault Selection :=
  Selection.judge policy (document.steps symbols)

end Document

end GuardedText
