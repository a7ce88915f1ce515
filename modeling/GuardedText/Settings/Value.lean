import GuardedText.Text.Blank

/-!
# Setting values

Settings are collected in one table.  A later table is laid over an earlier one
key by key; every other value replaces what was there.  Keys that differ only in
the case of their letters are the same.
-/

namespace GuardedText.Settings

open GuardedText.Text

/-- Small letters for a name.  The Kelvin sign is the only character beyond ASCII
whose small letter is one of ASCII; the others have no part in the names of
settings and stay. -/
def foldCase (name : String) : String :=
  name.map fun char => if char == '\u212a' then 'k' else char.toLower

def isInteger (value : Int) : Bool :=
  -9223372036854775808 ≤ value && value ≤ 9223372036854775807

inductive Value where
  | null
  | bool (value : Bool)
  | integer (value : Int)
  | string (value : String)
  | list (items : List Value)
  | table (entries : List (String × Value))

namespace Value

def entries : Value → List (String × Value)
  | .table entries => entries
  | _ => []

def items : Value → List Value
  | .list items => items
  | _ => []

def put (key : String) (value : Value) : List (String × Value) → List (String × Value)
  | [] => [(key, value)]
  | (other, old) :: rest =>
    if other = key then (key, value) :: rest else (other, old) :: put key value rest

mutual

/-- Lays a value over an existing one.  A table without entries changes
nothing, whatever it is laid over. -/
def layer (existing? : Option Value) : Value → Value
  | .table entries => addEntries (existing?.getD (.table [])) entries
  | value => value

def addEntries (base : Value) : List (String × Value) → Value
  | [] => base
  | (name, value) :: rest =>
    let key := foldCase name
    let known := base.entries
    addEntries (.table (put key (layer (known.lookup key) value) known)) rest

end

end Value

/-! ## Keys -/

inductive KeyPart where
  | name (name : String)
  | position (index : Int)
deriving DecidableEq, Repr

namespace KeyPart

def isNameChar (char : Char) : Bool :=
  char.isAlphanum || char == '_' || char == '-' || char == ' '

def position? (text : List Char) : Option KeyPart :=
  let isGap (char : Char) := char == ' ' || char == '\t'
  let number := dropEndWhile isGap (text.dropWhile isGap)
  let digits := if number.head? = some '-' then number.drop 1 else number
  let size := digits.foldl (fun size char => 10 * size + (char.toNat - '0'.toNat)) 0
  let index : Int := if number.head? = some '-' then -size else size
  if digits.isEmpty || !digits.all Char.isDigit || !isInteger index then none
  else some (.position index)

def rest? (text : List Char) : Option (List KeyPart) :=
  match text with
  | [] => some []
  | '.' :: tail =>
    match tail.takeWhile isNameChar with
    | [] => none
    | word => (rest? (tail.dropWhile isNameChar)).map (.name (String.ofList word) :: ·)
  | '[' :: tail => do
    let part ← position? (tail.takeWhile (· != ']'))
    let parts ← rest? ((tail.dropWhile (· != ']')).drop 1)
    if ']' ∈ tail then some (part :: parts) else none
  | _ => none
termination_by text.length
decreasing_by
  · have := (List.dropWhile_sublist isNameChar (l := tail)).length_le
    simp only [List.length_cons]
    omega
  · have := (List.dropWhile_sublist (· != ']') (l := tail)).length_le
    simp only [List.length_cons, List.length_drop]
    omega

def parse? (key : String) : Option (List KeyPart) :=
  rest? ('.' :: key.toList)

end KeyPart

namespace Value

def place (items : List Value) (index : Int) : Nat :=
  (if index < 0 then index + items.length else index).toNat

def pad (items : List Value) (place : Nat) : List Value :=
  items ++ List.replicate (place + 1 - items.length) .null

/-- Gives a value to a key.  What stands in the way is replaced by the table or
list that the key needs.  An item of a list is replaced as a whole, even if both
are tables. -/
def assign (value : Value) : List KeyPart → Option Value → Value
  | [], existing? => value.layer existing?
  | .name name :: rest, existing? =>
    let key := foldCase name
    let known := (existing?.map entries).getD []
    .table (put key (assign value rest (known.lookup key)) known)
  | .position index :: rest, existing? =>
    let known := (existing?.map items).getD []
    let place := place known index
    let padded := pad known place
    let item := if rest.isEmpty then value else assign value rest padded[place]?
    .list (padded.set place item)

end Value

end GuardedText.Settings
