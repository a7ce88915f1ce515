/-!
# Blanks and trimming

A blank is a character with the Unicode property `White_Space`.  The zero-width
space U+200B and the byte order mark U+FEFF do not have it.
-/

namespace GuardedText.Text

def isBlank (char : Char) : Bool :=
  let code := char.toNat
  (0x09 ≤ code && code ≤ 0x0D) || code == 0x20 || code == 0x85 ||
    code == 0xA0 || code == 0x1680 || (0x2000 ≤ code && code ≤ 0x200A) ||
    code == 0x2028 || code == 0x2029 || code == 0x202F || code == 0x205F ||
    code == 0x3000

def dropEndWhile (property : Char → Bool) (text : List Char) : List Char :=
  (text.reverse.dropWhile property).reverse

def trimEnd (text : List Char) : List Char :=
  dropEndWhile isBlank text

def trim (text : List Char) : List Char :=
  trimEnd (text.dropWhile isBlank)

end GuardedText.Text
