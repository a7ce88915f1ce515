/-!
# Ranges of characters

A class of characters is given by the first and the last code of each of its
ranges, in order.
-/

namespace GuardedText.Text

abbrev Ranges := List (Nat × Nat)

def Ranges.contains (ranges : Ranges) (char : Char) : Bool :=
  ranges.any fun (first, last) => first ≤ char.toNat && char.toNat ≤ last

end GuardedText.Text
