/-!
# Byte lengths

Texts are lists of characters.  Every position in this library counts the
bytes of the UTF-8 form, so that a position is the byte length of what stands
before it.
-/

namespace GuardedText.Text

def byteLength (text : List Char) : Nat :=
  text.foldr (fun char total => char.utf8Size + total) 0

@[simp]
theorem byteLength_nil : byteLength [] = 0 := rfl

@[simp]
theorem byteLength_cons (char : Char) (text : List Char) :
    byteLength (char :: text) = char.utf8Size + byteLength text := rfl

@[simp]
theorem byteLength_append (first second : List Char) :
    byteLength (first ++ second) = byteLength first + byteLength second := by
  induction first with
  | nil => simp
  | cons char rest ih => simp [ih, Nat.add_assoc]

theorem byteLength_pos {text : List Char} (h : text ≠ []) : 0 < byteLength text := by
  cases text with
  | nil => contradiction
  | cons first rest =>
      have hfirst := first.utf8Size_pos
      rw [byteLength_cons]
      omega

end GuardedText.Text
