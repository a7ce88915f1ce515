import GuardedText.Document.Assembly
import GuardedText.Selection
import GuardedText.Text.Terminator

/-!
# Processing a text

The whole way from the text of a document to the text that is left of it.
-/

namespace GuardedText

open GuardedText.Text

structure Options where
  policy : Policy := .warn
  fallback : Terminator.Fallback := .platform
deriving DecidableEq, Repr

structure Output where
  text : String
  terminator : Terminator
  diagnostics : List Diagnostic
deriving DecidableEq, Repr

namespace Document

/-- Reads a document.  One terminator at the end of the text belongs to the last
line and does not start another one. -/
def parse (source : String) : Except Fault Document := do
  ofStatements (← Statement.ofText (Terminator.strip source.toList))

end Document

namespace Options

def terminator (options : Options) (source : String) : Terminator :=
  (Terminator.detect? source.toList).getD options.fallback.resolve

end Options

/-- The empty text is left alone: it has no lines, not one empty line. -/
def process (options : Options) (symbols : Symbols) (source : String) :
    Except Fault Output :=
  let terminator := options.terminator source
  if source.toList.isEmpty then .ok ⟨"", terminator, []⟩
  else do
    let document ← Document.parse source
    let selection ← document.select symbols options.policy
    return ⟨terminator.render selection.lines, terminator, selection.diagnostics⟩

def preprocess (symbols : Symbols) (source : String) : Except Fault String :=
  (·.text) <$> process {} symbols source

end GuardedText
