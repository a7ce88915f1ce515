import GuardedText.Condition.Basic
import GuardedText.Condition.Fault
import GuardedText.Text.Blank

/-!
# Reading conditions

Tokens are read one at a time from left to right.  The reader either expects an
operand or holds one; each token leads to the next state or is the place of the
fault.  Groups that are still open are kept on a stack, so nesting is limited
by memory alone.
-/

namespace GuardedText.Condition

open GuardedText.Text

/-! ## Operators on what has been read -/

inductive Unary where
  | negation
  | unsupported (operator : String)
deriving DecidableEq, Repr

namespace Unary

def ofToken? : Token → Option Unary
  | .bang => some .negation
  | .operator text =>
    if text ∈ ["-", "+", "~"] then some (.unsupported text) else none
  | _ => none

def apply : Unary → Condition → Condition
  | .negation, operand => .not operand
  | .unsupported operator, operand => .unsupported operator operand

end Unary

def joinAnd : Option Condition → Condition → Condition
  | none, right => right
  | some left, right => .and left right

def joinOr : Option Condition → Condition → Condition
  | none, right => right
  | some left, right => .or left right

/-! ## States of the reader -/

structure Level where
  disjunction? : Option Condition
  conjunction? : Option Condition
  /-- Prefix operators in front of the operand, the nearest first. -/
  unary : List Unary
deriving DecidableEq, Repr

def Level.empty : Level := ⟨none, none, []⟩

inductive State where
  | expecting (level : Level) (outer : List Level)
  | holding (disjunction? : Option Condition) (conjunction : Condition)
      (outer : List Level)
deriving DecidableEq, Repr

namespace State

def initial : State := .expecting .empty []

end State

def Level.supply (level : Level) (operand : Condition) (outer : List Level) :
    State :=
  let applied := level.unary.foldl (fun inner unary => unary.apply inner) operand
  .holding level.disjunction? (joinAnd level.conjunction? applied) outer

namespace State

def step : State → Token → Except Problem State
  | .expecting level outer, .symbol name => .ok (level.supply (.symbol name) outer)
  | .expecting level outer, .openGroup => .ok (.expecting .empty (level :: outer))
  | .expecting level outer, token =>
    match Unary.ofToken? token with
    | some unary => .ok (.expecting { level with unary := unary :: level.unary } outer)
    | none => .error (.symbolExpected token)
  | .holding disjunction? conjunction outer, .conjunction =>
    .ok (.expecting ⟨disjunction?, some conjunction, []⟩ outer)
  | .holding disjunction? conjunction outer, .disjunction =>
    .ok (.expecting ⟨some (joinOr disjunction? conjunction), none, []⟩ outer)
  | .holding disjunction? conjunction (level :: outer), .closeGroup =>
    .ok (level.supply (joinOr disjunction? conjunction) outer)
  | .holding _ _ _, token => .error (.strayToken token)

def finish : State → Except Problem Condition
  | .holding disjunction? conjunction [] => .ok (joinOr disjunction? conjunction)
  | _ => .error .cutShort

/-- Reads tokens, each with its offset.  A fault comes with its offset, which
at the end of the tokens is `stop`. -/
def run (stop : Nat) : State → List (Nat × Token) → Except (Nat × Problem) Condition
  | state, [] => state.finish.mapError (stop, ·)
  | state, (offset, token) :: rest =>
    match state.step token with
    | .ok next => next.run stop rest
    | .error problem => .error (offset, problem)

end State

/-! ## Whole conditions -/

def tokens : List Piece → Except (Nat × Problem) (List (Nat × Token))
  | [] => .ok []
  | piece :: rest =>
    match piece.token? with
    | some token => (tokens rest).map ((piece.start, token) :: ·)
    | none => .error (piece.start, .strayText (String.ofList piece.text))

/-- A text that is no row of tokens is refused at its first stray piece, also
when tokens before it break the grammar. -/
def parse (condition : String) : Except Fault Condition :=
  let text := condition.toList
  if text.all isBlank then .error .missing
  else
    let outcome := do
      State.initial.run (byteLength text) (← tokens (Piece.ofText 0 text))
    outcome.mapError fun (offset, problem) => .malformed condition offset problem

end GuardedText.Condition
