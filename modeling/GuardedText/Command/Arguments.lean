/-!
# Arguments of the command

Arguments are read from left to right.  The first one that is wrong, or that
asks for the version or for help, decides.
-/

namespace GuardedText.Command

inductive Format where
  | text
  | drawing
  | json
deriving DecidableEq, Repr

def Format.ofName? : String → Option Format
  | "text" => some .text
  | "treeviz" => some .drawing
  | "json" => some .json
  | _ => none

structure Arguments where
  path? : Option String := none
  defined : List String := []
  settings? : Option String := none
  format? : Option Format := none
  numbered : Bool := false
deriving DecidableEq, Repr

inductive Halt where
  | usage
  | version
  | help
deriving DecidableEq, Repr

inductive Setting where
  | define
  | settings
  | format
deriving DecidableEq, Repr

inductive Argument where
  | setting (setting : Setting) (value? : Option String)
  | numbered
  | halt (reason : Halt)
  | pathsOnly
  | path (path : String)
deriving DecidableEq, Repr

namespace Argument

def ofLong (name : String) (value? : Option String) : Argument :=
  match name, value? with
  | "define", _ => .setting .define value?
  | "config", _ => .setting .settings value?
  | "format", _ => .setting .format value?
  | "show-linum", none => .numbered
  | "version", none => .halt .version
  | "help", none => .halt .help
  | _, _ => .halt .usage

/-- A value behind the letter of an option may have an equals sign in front. -/
def ofShort (letter : Char) (rest : List Char) : Argument :=
  let value? := match rest with
    | [] => none
    | '=' :: value => some (String.ofList value)
    | value => some (String.ofList value)
  match letter with
  | 'D' => .setting .define value?
  | 'c' => .setting .settings value?
  | 'f' => .setting .format value?
  | 'V' => .halt .version
  | 'h' => .halt .help
  | _ => .halt .usage

def ofText (text : String) : Argument :=
  match text.toList with
  | ['-', '-'] => .pathsOnly
  | '-' :: '-' :: long =>
    let name := String.ofList (long.takeWhile (· != '='))
    match long.dropWhile (· != '=') with
    | [] => ofLong name none
    | _ :: value => ofLong name (some (String.ofList value))
  | '-' :: letter :: rest => ofShort letter rest
  | _ => .path text

end Argument

namespace Arguments

def setOnce {α : Type} (old? : Option α) (new : α) : Except Halt (Option α) :=
  match old? with
  | none => .ok (some new)
  | some _ => .error .usage

def addPath (arguments : Arguments) (path : String) : Except Halt Arguments := do
  return { arguments with path? := ← setOnce arguments.path? path }

def set (arguments : Arguments) (setting : Setting) (value : String) :
    Except Halt Arguments :=
  match setting with
  | .define => .ok { arguments with defined := arguments.defined ++ [value] }
  | .settings => do
    return { arguments with settings? := ← setOnce arguments.settings? value }
  | .format =>
    match Format.ofName? value with
    | some format => do
      return { arguments with format? := ← setOnce arguments.format? format }
    | none => .error .usage

def setNumbered (arguments : Arguments) : Except Halt Arguments :=
  if arguments.numbered then .error .usage else .ok { arguments with numbered := true }

/-- A value of its own must not look like an option; `-` does not. -/
def read (arguments : Arguments) : List String → Except Halt Arguments
  | [] => .ok arguments
  | text :: rest =>
    match Argument.ofText text with
    | .pathsOnly => rest.foldlM addPath arguments
    | .path path => do (← arguments.addPath path).read rest
    | .numbered => do (← arguments.setNumbered).read rest
    | .halt reason => .error reason
    | .setting setting (some value) => do (← arguments.set setting value).read rest
    | .setting setting none =>
      match rest with
      | [] => .error .usage
      | value :: rest =>
        match Argument.ofText value with
        | .path value => do (← arguments.set setting value).read rest
        | _ => .error .usage

def ofList (texts : List String) : Except Halt Arguments :=
  read {} texts

end Arguments

end GuardedText.Command
