/-!
# Directives

A directive starts a branch of a block or ends the block.  It is written in a
comment, either `/*#if A*/` or `<!--#if A-->`.
-/

namespace GuardedText

inductive BranchKind where
  | ifTrue
  | elseIf
  | otherwise
deriving DecidableEq, Repr

namespace BranchKind

def keyword : BranchKind → String
  | .ifTrue => "if"
  | .elseIf => "elif"
  | .otherwise => "else"

def takesCondition : BranchKind → Bool
  | .otherwise => false
  | _ => true

end BranchKind

namespace Directive

inductive Kind where
  | start (branch : BranchKind)
  | finish
deriving DecidableEq, Repr

namespace Kind

def ofKeyword? : String → Option Kind
  | "if" => some (.start .ifTrue)
  | "elif" => some (.start .elseIf)
  | "elseif" => some (.start .elseIf)
  | "else" => some (.start .otherwise)
  | "endif" => some .finish
  | _ => none

def keyword : Kind → String
  | .start branch => branch.keyword
  | .finish => "endif"

def takesCondition : Kind → Bool
  | .start branch => branch.takesCondition
  | .finish => false

end Kind

inductive Style where
  | block
  | markup
deriving DecidableEq, Repr

end Directive

structure Directive where
  kind : Directive.Kind
  /-- The text of the condition; an empty text is no condition. -/
  condition? : Option String
  source : String
  line : Nat
  style : Directive.Style
deriving DecidableEq, Repr

end GuardedText
