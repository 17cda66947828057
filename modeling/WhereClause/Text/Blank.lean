import WhereClause.Text.CharSet

/-!
# Blank text

A text is blank when every character of it has the Unicode property `White_Space`. This is a
larger class than the four characters that separate tokens: a no-break space makes a text blank,
but between two tokens it is an error.
-/

namespace WhereClause.Text

/-- The characters with the Unicode property `White_Space`. -/
def whiteSpace : CharSet where
  ranges := [
    (0x0009, 0x000D), (0x0020, 0x0020), (0x0085, 0x0085), (0x00A0, 0x00A0), (0x1680, 0x1680),
    (0x2000, 0x200A), (0x2028, 0x2029), (0x202F, 0x202F), (0x205F, 0x205F), (0x3000, 0x3000)]

/-- **A blank text** has no character outside `whiteSpace`; the empty text is blank. -/
def isBlank (s : String) : Bool :=
  s.toList.all whiteSpace.contains

end WhereClause.Text
