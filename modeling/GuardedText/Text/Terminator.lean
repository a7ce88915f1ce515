/-!
# Line terminators

A document follows the terminator it ends with.  A document that ends in no
line feed follows a fallback.
-/

namespace GuardedText.Text

inductive Terminator where
  | lf
  | crlf
deriving DecidableEq, Repr

namespace Terminator

def mark : Terminator → List Char
  | .lf => ['\n']
  | .crlf => ['\r', '\n']

def name : Terminator → String
  | .lf => "lf"
  | .crlf => "crlf"

def detect? (source : List Char) : Option Terminator :=
  if Terminator.crlf.mark <:+ source then some .crlf
  else if Terminator.lf.mark <:+ source then some .lf
  else none

def strip (source : List Char) : List Char :=
  match detect? source with
  | some terminator => source.take (source.length - terminator.mark.length)
  | none => source

def render (terminator : Terminator) (lines : List String) : String :=
  String.ofList (lines.flatMap fun line => line.toList ++ terminator.mark)

inductive Fallback where
  | platform
  | fixed (terminator : Terminator)
deriving DecidableEq, Repr

namespace Fallback

def name : Fallback → String
  | .platform => "platform"
  | .fixed terminator => terminator.name

def all : List Fallback :=
  [.platform, .fixed .lf, .fixed .crlf]

/-- The platform's own terminator is the line feed. -/
def resolve : Fallback → Terminator
  | .platform => .lf
  | .fixed terminator => terminator

end Fallback

end Terminator

end GuardedText.Text
