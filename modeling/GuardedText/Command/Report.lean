import GuardedText.Command.Arguments
import GuardedText.Command.Log
import GuardedText.Document.Drawing
import GuardedText.Document.Json
import GuardedText.Settings.Basic

/-!
# Runs of the command

A run loads the settings, reads the document and reports what it has done.  The
files and the standard input are behind a host, so that a run is a function of
what the host answers.
-/

namespace GuardedText.Command

structure Report where
  code : Nat
  output : String
  messages : List String
deriving DecidableEq, Repr

inductive ReadFault where
  | notFound
  | isDirectory
  | notText
  | other (message : String)
deriving DecidableEq, Repr

def ReadFault.message : ReadFault → String
  | .notFound => "No such file or directory (os error 2)"
  | .isDirectory => "Is a directory (os error 21)"
  | .notText => "stream did not contain valid UTF-8"
  | .other message => message

structure Host (m : Type → Type) where
  readFile : String → m (Except ReadFault String)
  readInput : m (Except ReadFault String)

/-! ## Fixed texts -/

def program : String := "condtext"

def version : String := program ++ " 0.1.0\n"

def settingsFile : String := program ++ ".toml"

def usage : String := "Usage: " ++ program ++ " [OPTIONS] [PATH]"

def help : String :=
  "Keep or drop text regions selected by comment directives\n\n" ++ usage ++
    "\n\nArguments:\n" ++
    "  [PATH]  Document to process; stdin when absent or '-'\n\nOptions:\n" ++
    "  -D, --define <SYMBOL>  Define a symbol (repeatable)\n" ++
    "  -c, --config <FILE>    Configuration file layered over the defaults\n" ++
    "  -f, --format <format>  Output format: the transformed text, or the parsed " ++
    "directive tree [default: text] [possible values: text, treeviz, json]\n" ++
    "      --show-linum       Prefix treeviz nodes with their source line\n" ++
    "  -h, --help             Print help\n" ++
    "  -V, --version          Print version\n"

namespace Report

def ofHalt : Halt → Report
  | .usage => ⟨2, "", [usage]⟩
  | .version => ⟨0, version, []⟩
  | .help => ⟨0, help, []⟩

def failure (messages : List String) : Report := ⟨1, "", messages⟩

/-! ## The work itself -/

def ofDocument (arguments : Arguments) (settings : Settings) (source : String) : Report :=
  let level := Log.Level.ofSetting settings.level
  let symbols := settings.symbols.define arguments.defined
  let report (entries : List Log.Entry) (outcome : Except Fault (String × List String)) :=
    let logged := Log.shown level (Log.ofSymbols symbols ++ entries)
    match outcome with
    | .ok (output, warnings) => ⟨0, output, logged ++ warnings⟩
    | .error fault => failure (logged ++ ["Error: " ++ fault.message])
  match arguments.format?.getD .text with
  | .text =>
    report (Log.ofProcessing settings.options symbols source) do
      let output ← process settings.options symbols source
      return (output.text, output.diagnostics.map Diagnostic.print)
  | .drawing =>
    report (Log.ofReading source) do
      return ((← Document.parse source).draw ⟨arguments.numbered⟩, [])
  | .json =>
    report (Log.ofReading source) do
      return ((← Document.parse source).toJson.pretty ++ "\n", [])

end Report

variable {m : Type → Type} [Monad m]

namespace Host

/-- A settings file is looked for by its name, then with `.toml` added. -/
def readSettings (host : Host m) (name : String) : m (Option String) := do
  match ← host.readFile name with
  | .ok text => return some text
  | .error .notFound | .error .isDirectory =>
    return (← host.readFile (name ++ ".toml")).toOption
  | .error _ => return none

def loadSettings (host : Host m) (arguments : Arguments) :
    m (Except Settings.Fault Settings) := do
  let standard := .file false (← host.readSettings settingsFile)
  match arguments.settings? with
  | none => return Settings.load [standard]
  | some name => return Settings.load [standard, .file true (← host.readSettings name)]

def readDocument (host : Host m) (arguments : Arguments) : m (Except ReadFault String) :=
  match arguments.path? with
  | none | some "-" => host.readInput
  | some path => host.readFile path

def run (host : Host m) (texts : List String) : m Report := do
  match Arguments.ofList texts with
  | .error reason => return Report.ofHalt reason
  | .ok arguments =>
    match ← host.loadSettings arguments with
    | .error _ => return Report.failure ["Configuration error"]
    | .ok settings =>
      match ← host.readDocument arguments with
      | .error fault => return Report.failure ["Error reading input: " ++ fault.message]
      | .ok source => return Report.ofDocument arguments settings source

end Host

end GuardedText.Command
