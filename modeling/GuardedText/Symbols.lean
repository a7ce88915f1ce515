import Std.Data.TreeSet
import GuardedText.Text.Name

/-!
# Defined symbols

The only input of a document besides its text.  Symbols have no values: a name
is defined or it is not.  Names are kept in the order of their code points.
-/

namespace GuardedText

abbrev Symbols := Std.TreeSet String

namespace Symbols

def ofNames (names : List String) : Symbols :=
  Std.TreeSet.ofList names

def define (symbols : Symbols) (names : List String) : Symbols :=
  symbols.insertMany names

def invalidNames (symbols : Symbols) : List String :=
  symbols.toList.filter fun name => !Text.isName name

end Symbols

end GuardedText
