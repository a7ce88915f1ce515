import GuardedText.Settings.Value
import GuardedText.Toml.Token

/-!
# Reading settings files

Tokens are read one at a time.  A file is refused at the first token that fits
nowhere, at a second value for a key, at a second header for a table, and where a
key or a nest of arrays grows too deep.
-/

namespace GuardedText.Toml

open GuardedText.Settings (Value)

/-! ## Tables under construction -/

inductive Origin where
  | header
  | implied
  | dotted
deriving DecidableEq, Repr

inductive Item where
  | whole (value : Value)
  | table (origin : Origin) (entries : List (String × Item))

namespace Item

def put (key : String) (item : Item) : List (String × Item) → List (String × Item)
  | [] => [(key, item)]
  | (other, old) :: rest =>
    if other = key then (key, item) :: rest else (other, old) :: put key item rest

/-- Changes the table at the end of a path.  Tables that the path lacks are made
with the given origin.  A dotted key does not run through a table that has a
header, and no path runs through a value. -/
def change (origin : Origin) (edit : Origin → List (String × Item) → Option Item) :
    List String → Origin → List (String × Item) → Option Item
  | [], own, entries => edit own entries
  | key :: path, own, entries =>
    match entries.lookup key with
    | none => do
      let inner ← change origin edit path origin []
      return .table own (put key inner entries)
    | some (.table innerOrigin innerEntries) =>
      if origin = .dotted ∧ innerOrigin = .header then none
      else do
        let inner ← change origin edit path innerOrigin innerEntries
        return .table own (put key inner entries)
    | some (.whole _) => none

def addValue (isDotted : Bool) (key : String) (value : Value) (own : Origin)
    (entries : List (String × Item)) : Option Item :=
  if (own == .dotted) != isDotted || (entries.lookup key).isSome then none
  else some (.table own (put key (.whole value) entries))

def addTable (key : String) (own : Origin) (entries : List (String × Item)) :
    Option Item :=
  match entries.lookup key with
  | none => some (.table own (put key (.table .header []) entries))
  | some (.table .implied inner) => some (.table own (put key (.table .header inner) entries))
  | some _ => none

mutual

def toValue : Item → Value
  | .whole value => value
  | .table _ entries => .table (toEntries entries)

def toEntries : List (String × Item) → List (String × Value)
  | [] => []
  | (key, item) :: rest => (key, item.toValue) :: toEntries rest

end

end Item

/-! ## Scalars -/

def digit? (radix : Nat) (char : Char) : Option Nat := do
  let digit ← Token.hexDigit? char
  if digit < radix then some digit else none

def moreDigits? (radix value : Nat) : List Char → Option Nat
  | [] => some value
  | '_' :: char :: rest => do
    moreDigits? radix (radix * value + (← digit? radix char)) rest
  | char :: rest => do
    moreDigits? radix (radix * value + (← digit? radix char)) rest

def digits? (radix : Nat) : List Char → Option Nat
  | [] => none
  | char :: rest => do moreDigits? radix (← digit? radix char) rest

def decimal? : List Char → Option Nat
  | '0' :: _ :: _ => none
  | text => digits? 10 text

def integer? (text : List Char) : Option Int := do
  let value : Int ← match text with
    | '0' :: 'x' :: rest => Int.ofNat <$> digits? 16 rest
    | '0' :: 'o' :: rest => Int.ofNat <$> digits? 8 rest
    | '0' :: 'b' :: rest => Int.ofNat <$> digits? 2 rest
    | '+' :: rest => Int.ofNat <$> decimal? rest
    | '-' :: rest => (fun value => -Int.ofNat value) <$> decimal? rest
    | _ => Int.ofNat <$> decimal? text
  if Settings.isInteger value then some value else none

def scalar? (text : List Char) : Option Value :=
  if text = "true".toList then some (.bool true)
  else if text = "false".toList then some (.bool false)
  else (integer? text).map .integer

def key? : Token → Option String
  | .word text => if '+' ∈ text then none else some (String.ofList text)
  | .quoted text => some text
  | _ => none

/-! ## The reader -/

/-- A key has fewer parts than this, and fewer arrays stand in one another. -/
def depthLimit : Nat := 80

def extend? (path : List String) (token : Token) : Option (List String) := do
  let key ← key? token
  if path.length + 1 < depthLimit then some (path ++ [key]) else none

/-- What can come next.  Unfinished arrays are kept with the innermost first and
their items with the latest first. -/
inductive Place where
  | lineStart
  | lineEnd
  | headerPart (path : List String)
  | headerNext (path : List String)
  | keyPart (path : List String)
  | keyNext (path : List String)
  | item (path : List String) (arrays : List (List Value))
  | separator (path : List String) (items : List Value) (outer : List (List Value))

structure Reader where
  entries : List (String × Item)
  current : List String
  place : Place

namespace Reader

def initial : Reader := ⟨[], [], .lineStart⟩

def edit (reader : Reader) (path : List String)
    (change : Origin → List (String × Item) → Option Item) (place : Place) :
    Option Reader :=
  match Item.change .implied change path .header reader.entries with
  | some (.table _ entries) => some { reader with entries, place }
  | _ => none

def openTable (reader : Reader) (path : List String) : Option Reader := do
  let key ← path.getLast?
  let reader ← reader.edit path.dropLast (Item.addTable key) .lineEnd
  return { reader with current := path }

def assign (reader : Reader) (path : List String) (value : Value) : Option Reader := do
  let key ← path.getLast?
  let add := Item.addValue (1 < path.length) key value
  reader.edit reader.current (Item.change .dotted add path.dropLast) .lineEnd

def supply (reader : Reader) (path : List String) (value : Value) :
    List (List Value) → Option Reader
  | [] => reader.assign path value
  | items :: outer => some { reader with place := .separator path (value :: items) outer }

def step (reader : Reader) (token : Token) : Option Reader :=
  match reader.place, token with
  | .lineStart, .newline => some reader
  | .lineStart, .opening => some { reader with place := .headerPart [] }
  | .lineStart, token => do
    return { reader with place := .keyNext (← extend? [] token) }
  | .lineEnd, .newline => some { reader with place := .lineStart }
  | .headerPart path, token => do
    return { reader with place := .headerNext (← extend? path token) }
  | .headerNext path, .dot => some { reader with place := .headerPart path }
  | .headerNext path, .closing => reader.openTable path
  | .keyPart path, token => do
    return { reader with place := .keyNext (← extend? path token) }
  | .keyNext path, .dot => some { reader with place := .keyPart path }
  | .keyNext path, .equals => some { reader with place := .item path [] }
  | .item path arrays, .opening =>
    if arrays.length + 1 < depthLimit then
      some { reader with place := .item path ([] :: arrays) }
    else none
  | .item path (items :: outer), .closing => reader.supply path (.list items.reverse) outer
  | .item _ (_ :: _), .newline => some reader
  | .item path arrays, .quoted text => reader.supply path (.string text) arrays
  | .item path arrays, .word text => do reader.supply path (← scalar? text) arrays
  | .separator path items outer, .comma =>
    some { reader with place := .item path (items :: outer) }
  | .separator path items outer, .closing => reader.supply path (.list items.reverse) outer
  | .separator _ _ _, .newline => some reader
  | _, _ => none

def finish (reader : Reader) : Option Value :=
  match reader.place with
  | .lineStart | .lineEnd => some (.table (Item.toEntries reader.entries))
  | _ => none

end Reader

def parse? (source : String) : Option Value := do
  let text := source.toList
  let text := (text.take 2).dropWhile (· == '\ufeff') ++ text.drop 2
  let reader ← (← Token.ofText? text).foldlM Reader.step .initial
  reader.finish

end GuardedText.Toml
