import GuardedText.Process
import GuardedText.Toml.Reader

/-!
# Settings

Settings come in layers.  Files are laid over the built-in values in the order
given, and overrides over all files.  Only the table that comes out in the end
is checked against what settings can be; keys it does not know are ignored.
-/

namespace GuardedText

open GuardedText.Text

structure Settings where
  defined : List String
  policy : Policy
  fallback : Terminator.Fallback
  level : String
deriving DecidableEq, Repr

namespace Settings

def options (settings : Settings) : Options :=
  ⟨settings.policy, settings.fallback⟩

def symbols (settings : Settings) : Symbols :=
  Symbols.ofNames settings.defined

inductive Fault where
  | badKey
  | missingFile
  | badFile
  | notText
  | mismatch
deriving DecidableEq, Repr

inductive Layer where
  | file (isRequired : Bool) (text? : Option String)
  | assignment (key : String) (value : Value)

/-! ## Collecting the values -/

def builtIn : Value :=
  .table [
    ("symbols", .table [("defined", .list [])]),
    ("evaluation", .table [("unsupported_operators", .string Policy.warn.name)]),
    ("output", .table [("fallback_eol", .string Terminator.Fallback.platform.name)]),
    ("logging", .table [("level", .string "warn")])]

/-- Lays the values of a file over a table.  The outermost keys of a file are
keys like those of overrides, if they have that form. -/
def addFile (base : Value) (file : Value) : Value :=
  file.entries.foldl
    (fun known (name, value) =>
      value.assign ((KeyPart.parse? name).getD [.name name]) (some known))
    base

/-- The keys of all overrides are checked before any file is looked at. -/
def assignments : List Layer → Except Fault (List (List KeyPart × Value))
  | [] => .ok []
  | .file _ _ :: rest => assignments rest
  | .assignment key value :: rest =>
    match KeyPart.parse? key with
    | some parts => (assignments rest).map ((parts, value) :: ·)
    | none => .error .badKey

def files (base : Value) : List Layer → Except Fault Value
  | [] => .ok base
  | .assignment _ _ :: rest => files base rest
  | .file isRequired none :: rest =>
    if isRequired then .error .missingFile else files base rest
  | .file _ (some text) :: rest =>
    match Toml.parse? text with
    | some file => files (addFile base file) rest
    | none => .error .badFile

def collect (layers : List Layer) : Except Fault Value := do
  let overrides ← assignments layers
  let base ← files builtIn layers
  return overrides.foldl (fun known (parts, value) => value.assign parts (some known)) base

/-! ## Reading the values -/

def asText : Value → Except Fault String
  | .string text => .ok text
  | .integer value => .ok (toString value)
  | .bool true => .ok "true"
  | .bool false => .ok "false"
  | .null | .list _ | .table _ => .error .notText

def asTexts : Value → Except Fault (List String)
  | .list items => items.mapM asText
  | _ => .error .mismatch

/-- One of several choices, by its name or as a table with the name as its only
key.  The case of the name does not matter. -/
def asChoice {α : Type} (all : List α) (name : α → String) (value : Value) :
    Except Fault α :=
  let given? := match value with
    | .string text => some text
    | .table [(key, _)] => some key
    | _ => none
  match given?.bind fun given => all.find? (name · == foldCase given) with
  | some choice => .ok choice
  | none => .error .mismatch

def only? (name : String) : Option Value → Except Fault (Option Value)
  | some (.table entries) => .ok (entries.lookup name)
  | some (.list items) => .ok items.head?
  | _ => .error .mismatch

def only (name : String) (values? : Option Value) : Except Fault Value := do
  match ← only? name values? with
  | some value => .ok value
  | none => .error .mismatch

def ofValue (root : Value) : Except Fault Settings := do
  let group (name : String) := root.entries.lookup name
  return {
    defined := ← match ← only? "defined" (group "symbols") with
      | some value => asTexts value
      | none => .ok []
    policy := ← asChoice Policy.all Policy.name
      (← only "unsupported_operators" (group "evaluation"))
    fallback := ← asChoice Terminator.Fallback.all Terminator.Fallback.name
      (← only "fallback_eol" (group "output"))
    level := ← asText (← only "level" (group "logging")) }

def load (layers : List Layer) : Except Fault Settings := do
  ofValue (← collect layers)

end Settings

end GuardedText
