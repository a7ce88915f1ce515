import GuardedText.Directive.Head
import GuardedText.Fault
import GuardedText.Text.Line

/-!
# Statements of a document

A statement is a plain line or a directive.  A directive may go on over several
lines until its comment closes; `endif` is the exception, it takes its own line
and needs no closer.  Text after the closer belongs to the directive's last
line and is lost with it.
-/

namespace GuardedText

open GuardedText.Text

inductive Statement where
  | plain (text : String) (line : Nat)
  | directive (found : Directive)
deriving DecidableEq, Repr

namespace Statement

def line : Statement → Nat
  | .plain _ line => line
  | .directive found => found.line

structure Pending where
  line : Nat
  style : Directive.Style
  branch : BranchKind
  body : List Char
  source : List Char
deriving DecidableEq, Repr

namespace Pending

def close (pending : Pending) (body source : List Char) : Except Fault Directive :=
  let condition := pending.style.conditionText (pending.body ++ body)
  let directive (condition? : Option String) : Directive :=
    ⟨.start pending.branch, condition?, String.ofList (pending.source ++ source),
      pending.line, pending.style⟩
  if condition.isEmpty then .ok (directive none)
  else if pending.branch.takesCondition then
    .ok (directive (some (String.ofList condition)))
  else .error (.condition pending.line (.notWanted (String.ofList condition)))

def advance (pending : Pending) (body : List Lexeme) (line : Line) :
    Except Fault (Option Pending × Option Statement) :=
  match pending.style.beforeCloser? body with
  | some inner => do
    let directive ← pending.close (Lexeme.textOf inner) line.text
    return (none, some (.directive directive))
  | none =>
    return (some { pending with
      body := pending.body ++ Lexeme.textOf body ++ line.terminator
      source := pending.source ++ line.text ++ line.terminator }, none)

end Pending

/-- Reads one line.  Inside an open comment a line with a head of its own is a
fault of the comment, even if it also holds the closer. -/
def step (pending? : Option Pending) (line : Line) :
    Except Fault (Option Pending × Option Statement) :=
  match pending?, Directive.Head.find? line.lexemes with
  | none, none => .ok (none, some (.plain (String.ofList line.text) line.number))
  | none, some ⟨style, .finish, _⟩ =>
    .ok (none, some (.directive
      ⟨.finish, none, String.ofList line.text, line.number, style⟩))
  | none, some ⟨style, .start branch, body⟩ =>
    Pending.advance ⟨line.number, style, branch, [], []⟩ body line
  | some pending, none => pending.advance line.lexemes line
  | some pending, some _ => .error (.openDirective pending.line)

def ofLines : Option Pending → List Line → Except Fault (List Statement)
  | none, [] => .ok []
  | some pending, [] => .error (.openDirective pending.line)
  | pending?, line :: rest => do
    let (next?, statement?) ← step pending? line
    return statement?.toList ++ (← ofLines next? rest)

def ofText (source : List Char) : Except Fault (List Statement) :=
  ofLines none (Line.ofText source)

end Statement

end GuardedText
