/-!
# JSON values and their text

Values are written over several lines with two blanks for each level.  Only
quotes, backslashes and characters below U+0020 are escaped.
-/

namespace GuardedText

inductive JsonValue where
  | null
  | number (value : Nat)
  | string (value : String)
  | array (items : List JsonValue)
  | object (fields : List (String × JsonValue))

namespace JsonValue

def hexDigit (value : Nat) : Char :=
  Nat.digitChar (value % 16)

def escape (char : Char) : List Char :=
  match char with
  | '"' => ['\\', '"']
  | '\\' => ['\\', '\\']
  | '\x08' => ['\\', 'b']
  | '\x0c' => ['\\', 'f']
  | '\n' => ['\\', 'n']
  | '\r' => ['\\', 'r']
  | '\t' => ['\\', 't']
  | char =>
    let code := char.toNat
    if code < 0x20 then ['\\', 'u', '0', '0', hexDigit (code / 16), hexDigit code]
    else [char]

/-! Each of the following puts a written form in front of a text. -/

def writeString (value : String) (rest : List Char) : List Char :=
  '"' :: (value.toList.flatMap escape ++ '"' :: rest)

def newline (depth : Nat) (rest : List Char) : List Char :=
  '\n' :: (List.replicate (2 * depth) ' ' ++ rest)

mutual

def write (depth : Nat) : JsonValue → List Char → List Char
  | .null, rest => "null".toList ++ rest
  | .number value, rest => (toString value).toList ++ rest
  | .string value, rest => writeString value rest
  | .array [], rest => '[' :: ']' :: rest
  | .array (item :: items), rest =>
    '[' :: newline (depth + 1) (item.write (depth + 1) (writeItems depth items rest))
  | .object [], rest => '\x7b' :: '\x7d' :: rest
  | .object ((key, value) :: fields), rest =>
    '\x7b' :: newline (depth + 1) (writeString key (':' :: ' ' ::
      value.write (depth + 1) (writeFields depth fields rest)))

def writeItems (depth : Nat) : List JsonValue → List Char → List Char
  | [], rest => newline depth (']' :: rest)
  | item :: items, rest =>
    ',' :: newline (depth + 1) (item.write (depth + 1) (writeItems depth items rest))

def writeFields (depth : Nat) : List (String × JsonValue) → List Char → List Char
  | [], rest => newline depth ('\x7d' :: rest)
  | (key, value) :: fields, rest =>
    ',' :: newline (depth + 1) (writeString key (':' :: ' ' ::
      value.write (depth + 1) (writeFields depth fields rest)))

end

def pretty (value : JsonValue) : String :=
  String.ofList (value.write 0 [])

end JsonValue

end GuardedText
