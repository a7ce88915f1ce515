import GuardedText.Condition.Printer
import GuardedText.Document.Basic

/-!
# Drawn documents

A document is drawn with one row for each node, in the order of the source.
Nesting takes two columns a level, and the rows of a level hang on a line down
to its last node:

    ⧉ Document
    ├─ ↵ before
    └─ ⋔ Block (2 branches)
      ├─ → if A && !B
      │ └─ ↵ a
      └─ → else
        └─ ↵ b
-/

namespace GuardedText

namespace Drawing

def number (line : Nat) : List Char :=
  let digits := (toString line).toList
  if digits.length < 2 then '0' :: digits else digits

def maxLabel : Nat := 30

def truncate (label : List Char) : List Char :=
  if maxLabel < label.length then label.take maxLabel ++ "...".toList else label

structure Style where
  numbered : Bool
deriving DecidableEq, Repr

/-- One row.  `margin` is what the levels above draw in front of it, and a node
is last if no sibling follows it. -/
def row (style : Style) (margin : List Char) (isLast : Bool) (line : Nat) (icon : Char)
    (label : List Char) : List Char :=
  (if style.numbered then number line ++ [' '] else []) ++ margin ++
    (if isLast then ['└', '─'] else ['├', '─']) ++ [' ', icon, ' '] ++ truncate label

def below (margin : List Char) (isLast : Bool) : List Char :=
  margin ++ (if isLast then [' ', ' '] else ['│', ' '])

def blockLabel (branches : List Branch) : List Char :=
  let count := branches.length
  let noun := if count = 1 then "branch" else "branches"
  s!"Block ({count} {noun})".toList

def branchLabel (kind : BranchKind) : Option Condition → List Char
  | none => kind.keyword.toList
  | some condition => kind.keyword.toList ++ ' ' :: condition.print.toList

mutual

def nodes (style : Style) (margin : List Char) : List Node → List (List Char)
  | [] => []
  | .leaf text line :: rest =>
    row style margin rest.isEmpty line '↵' text.toList :: nodes style margin rest
  | .block all :: rest =>
    row style margin rest.isEmpty (Node.block all).line '⋔' (blockLabel all) ::
      (branches style (below margin rest.isEmpty) all ++ nodes style margin rest)

def branches (style : Style) (margin : List Char) : List Branch → List (List Char)
  | [] => []
  | ⟨kind, condition?, body, line⟩ :: rest =>
    row style margin rest.isEmpty line '→' (branchLabel kind condition?) ::
      (nodes style (below margin rest.isEmpty) body ++ branches style margin rest)

end

end Drawing

namespace Document

def draw (document : Document) (style : Drawing.Style) : String :=
  let rows := "⧉ Document".toList :: Drawing.nodes style [] document.content
  String.ofList (rows.flatMap (· ++ ['\n']))

end Document

end GuardedText
