/-!
# Symbol names

The characters of a symbol name are ASCII letters, digits, `_` and `$`; a name
does not start with a digit.  The same characters continue a directive keyword,
so `#iffy` and `#if1` are not directives.
-/

namespace GuardedText.Text

def isNameStart (char : Char) : Bool :=
  char.isAlpha || char == '_' || char == '$'

def isNameChar (char : Char) : Bool :=
  char.isAlphanum || char == '_' || char == '$'

def isName (name : String) : Bool :=
  match name.toList with
  | [] => false
  | first :: rest => isNameStart first && rest.all isNameChar

end GuardedText.Text
