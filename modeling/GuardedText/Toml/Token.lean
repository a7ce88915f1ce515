/-!
# Tokens of a settings file

Settings files are written in TOML: comments, table headers, dotted keys,
strings in double or single quotes, integers, booleans and arrays.  Other parts
of TOML (numbers with a fraction, dates, inline tables, arrays of tables, strings over
several lines) are refused.
-/

namespace GuardedText.Toml

inductive Token where
  | word (text : List Char)
  | quoted (text : String)
  | equals
  | dot
  | comma
  | opening
  | closing
  | newline
deriving DecidableEq, Repr

namespace Token

/-! ## Strings -/

/-- Control characters other than the tab stand in no string and no comment. -/
def isControl (char : Char) : Bool :=
  (char.toNat < 0x20 && char != '\t') || char.toNat == 0x7F

def hexDigit? (char : Char) : Option Nat :=
  if char.isDigit then some (char.toNat - '0'.toNat)
  else if 'a' ≤ char && char ≤ 'f' then some (char.toNat - 'a'.toNat + 10)
  else if 'A' ≤ char && char ≤ 'F' then some (char.toNat - 'A'.toNat + 10)
  else none

def unicode? (digits : List Char) : Option Char := do
  let code := (← digits.mapM hexDigit?).foldl (fun value digit => 16 * value + digit) 0
  if code.isValidChar then some (Char.ofNat code) else none

def escaped? : Char → Option Char
  | 'b' => some '\x08'
  | 't' => some '\t'
  | 'n' => some '\n'
  | 'f' => some '\x0c'
  | 'r' => some '\r'
  | '"' => some '"'
  | '\\' => some '\\'
  | _ => none

def basic? : List Char → Option (List Char × List Char)
  | '"' :: rest => some ([], rest)
  | '\\' :: 'u' :: a :: b :: c :: d :: rest => do
    let char ← unicode? [a, b, c, d]
    let (text, after) ← basic? rest
    return (char :: text, after)
  | '\\' :: 'U' :: a :: b :: c :: d :: e :: f :: g :: h :: rest => do
    let char ← unicode? [a, b, c, d, e, f, g, h]
    let (text, after) ← basic? rest
    return (char :: text, after)
  | '\\' :: char :: rest => do
    let char ← escaped? char
    let (text, after) ← basic? rest
    return (char :: text, after)
  | char :: rest =>
    if isControl char then none
    else do
      let (text, after) ← basic? rest
      return (char :: text, after)
  | [] => none

def literal? : List Char → Option (List Char × List Char)
  | '\'' :: rest => some ([], rest)
  | char :: rest =>
    if isControl char then none
    else do
      let (text, after) ← literal? rest
      return (char :: text, after)
  | [] => none

theorem basic?_shorter {text string after : List Char}
    (h : basic? text = some (string, after)) : after.length < text.length := by
  fun_induction basic? text generalizing string after with
  | case1 rest => simp_all
  | case2 a b c d rest ih =>
    simp only [bind, Option.bind_eq_some_iff, pure] at h
    obtain ⟨_, _, ⟨_, tail⟩, found, same⟩ := h
    have := ih found
    simp at same ⊢
    obtain ⟨_, rfl⟩ := same
    omega
  | case3 a b c d e f g h' rest ih =>
    simp only [bind, Option.bind_eq_some_iff, pure] at h
    obtain ⟨_, _, ⟨_, tail⟩, found, same⟩ := h
    have := ih found
    simp at same ⊢
    obtain ⟨_, rfl⟩ := same
    omega
  | case4 char rest _ _ ih =>
    simp only [bind, Option.bind_eq_some_iff, pure] at h
    obtain ⟨_, _, ⟨_, tail⟩, found, same⟩ := h
    have := ih found
    simp at same ⊢
    obtain ⟨_, rfl⟩ := same
    omega
  | case5 => simp at h
  | case6 char rest _ _ _ _ _ ih =>
    simp only [bind, Option.bind_eq_some_iff, pure] at h
    obtain ⟨⟨_, tail⟩, found, same⟩ := h
    have := ih found
    simp at same ⊢
    obtain ⟨_, rfl⟩ := same
    omega
  | case7 => simp at h

theorem literal?_shorter {text string after : List Char}
    (h : literal? text = some (string, after)) : after.length < text.length := by
  fun_induction literal? text generalizing string after with
  | case1 rest => simp_all
  | case2 => simp at h
  | case3 char rest _ _ ih =>
    simp only [bind, Option.bind_eq_some_iff, pure] at h
    obtain ⟨⟨_, tail⟩, found, same⟩ := h
    have := ih found
    simp at same ⊢
    obtain ⟨_, rfl⟩ := same
    omega
  | case4 => simp at h

/-! ## All tokens -/

def isWordChar (char : Char) : Bool :=
  char.isAlphanum || char == '_' || char == '-' || char == '+'

def punctuation? : Char → Option Token
  | '=' => some .equals
  | '.' => some .dot
  | ',' => some .comma
  | '[' => some .opening
  | ']' => some .closing
  | '\n' => some .newline
  | _ => none

def ofText? (text : List Char) : Option (List Token) :=
  match text with
  | [] => some []
  | '\r' :: '\n' :: rest => (ofText? rest).map (.newline :: ·)
  | '"' :: rest =>
    match _found : basic? rest with
    | none => none
    | some (string, after) => (ofText? after).map (.quoted (String.ofList string) :: ·)
  | '\'' :: rest =>
    match _found : literal? rest with
    | none => none
    | some (string, after) => (ofText? after).map (.quoted (String.ofList string) :: ·)
  | '#' :: rest => ofText? (rest.dropWhile (!isControl ·))
  | char :: rest =>
    match punctuation? char with
    | some token => (ofText? rest).map (token :: ·)
    | none =>
      if char = ' ' ∨ char = '\t' then ofText? rest
      else if isWordChar char then
        (ofText? (rest.dropWhile isWordChar)).map
          (.word (char :: rest.takeWhile isWordChar) :: ·)
      else none
termination_by text.length
decreasing_by
  all_goals simp only [List.length_cons]
  · omega
  · have := basic?_shorter _found
    omega
  · have := literal?_shorter _found
    omega
  · have := (List.dropWhile_sublist (!isControl ·) (l := rest)).length_le
    omega
  · omega
  · omega
  · have := (List.dropWhile_sublist isWordChar (l := rest)).length_le
    omega

end Token

end GuardedText.Toml
