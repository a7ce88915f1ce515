import GuardedText.Process
import GuardedText.Text.Quoted

/-!
# The log of a run

What the command tells about its own work.  An entry is shown if its level is
within the level that the settings ask for.
-/

namespace GuardedText.Log

open GuardedText.Text

inductive Level where
  | off
  | error
  | warn
  | info
  | debug
  | trace
deriving DecidableEq, Repr

namespace Level

def rank : Level → Nat
  | .off => 0
  | .error => 1
  | .warn => 2
  | .info => 3
  | .debug => 4
  | .trace => 5

def name : Level → String
  | .off => "off"
  | .error => "error"
  | .warn => "warn"
  | .info => "info"
  | .debug => "debug"
  | .trace => "trace"

def all : List Level := [.off, .error, .warn, .info, .debug, .trace]

def ofSetting (text : String) : Level :=
  (all.find? fun level =>
    level.name == text.toLower || toString level.rank == text).getD .off

end Level

structure Entry where
  level : Level
  message : String
  fields : List (String × String)
deriving DecidableEq, Repr

namespace Entry

def print (entry : Entry) : String :=
  let fields := entry.fields.map fun (name, value) => s!" {name}={value}"
  entry.level.name.toUpper ++ " " ++ entry.message ++ String.join fields

def isShown (limit : Level) (entry : Entry) : Bool :=
  entry.level.rank ≤ limit.rank

end Entry

def shown (limit : Level) (entries : List Entry) : List String :=
  (entries.filter (·.isShown limit)).map Entry.print

/-! ## What is logged -/

def ofSymbols (symbols : Symbols) : List Entry :=
  symbols.invalidNames.map fun name =>
    ⟨.warn, "symbol can never appear in a condition", [("symbol", quote name)]⟩

def ofReading (source : String) : List Entry :=
  match Statement.ofText (Terminator.strip source.toList) with
  | .error _ => []
  | .ok statements =>
    ⟨.debug, "split statements", [("statements", toString statements.length)]⟩ ::
      match Document.ofStatements statements with
      | .error _ => []
      | .ok document =>
        [⟨.debug, "built directive tree",
          [("blocks", toString document.blockCount), ("depth", toString document.maxDepth)]⟩]

def ofStep? : Selection.Step → Option Entry
  | .keep _ => none
  | .unsupported line operator =>
    some ⟨.debug, "unsupported unary operator evaluated as false",
      [("line", toString line), ("operator", operator)]⟩
  | .taken line kind =>
    some ⟨.debug, "selected branch", [("line", toString line), ("kind", kind.keyword)]⟩
  | .skipped line => some ⟨.debug, "no branch selected", [("line", toString line)]⟩

/-- Selecting lines.  Where operators without a meaning are refused, the run
ends before the first of them is evaluated. -/
def ofSteps (policy : Policy) (steps : List Selection.Step) : List Entry :=
  let isDenied : Selection.Step → Bool
    | .unsupported _ _ => policy == .deny
    | _ => false
  (steps.takeWhile (!isDenied ·)).filterMap ofStep?

def ofProcessing (options : Options) (symbols : Symbols) (source : String) : List Entry :=
  if source.toList.isEmpty then []
  else
    ofReading source ++
      match Document.parse source with
      | .error _ => []
      | .ok document =>
        ofSteps options.policy (document.steps symbols) ++
          match document.select symbols options.policy with
          | .error _ => []
          | .ok selection =>
            [⟨.debug, "generated output",
              [("lines", toString selection.lines.length),
               ("diagnostics", toString selection.diagnostics.length),
               ("eol", (options.terminator source).name)]⟩]

end GuardedText.Log
