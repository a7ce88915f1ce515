import GuardedText.Text.Extender
import GuardedText.Text.Unassigned

/-!
# Characters without a shape of their own

A character is unprintable if it cannot be seen, if it only changes the one
before, or if there is no such character.
-/

namespace GuardedText.Text

/-- Control and format characters, separators other than the space, and the
Hangul fillers. -/
def invisible : Ranges :=
  [(0x0, 0x1F), (0x7F, 0xA0), (0xAD, 0xAD), (0x600, 0x605), (0x61C, 0x61C), (0x6DD, 0x6DD),
   (0x70F, 0x70F), (0x890, 0x891), (0x8E2, 0x8E2), (0x115F, 0x1160), (0x1680, 0x1680),
   (0x180E, 0x180E), (0x2000, 0x200F), (0x2028, 0x202F), (0x205F, 0x2064), (0x2066, 0x206F),
   (0x3000, 0x3000), (0x3164, 0x3164), (0xFEFF, 0xFEFF), (0xFFA0, 0xFFA0), (0xFFF9, 0xFFFB),
   (0x110BD, 0x110BD), (0x110CD, 0x110CD), (0x13430, 0x1343F), (0x1BCA0, 0x1BCA3),
   (0x1D173, 0x1D17A), (0xE0001, 0xE0001), (0xE0020, 0xE007F)]

def isUnprintable (char : Char) : Bool :=
  invisible.contains char || extenders.contains char || unassigned.contains char

end GuardedText.Text
