import WhereClause.Text.EscapeTable

/-!
# Escaped quotation

A text between double quotes, in which every character can be seen: quotes, backslashes and the
common controls have short escapes, and what has no shape of its own is written by its number.
-/

namespace WhereClause.Text

/-- The lower-case hexadecimal digits of a number. -/
def hex (n : Nat) : List Char :=
  Nat.toDigits 16 n

/-- One character as it stands in an escaped quotation. -/
def escapeChar (c : Char) : List Char :=
  match c with
  | '\x00' => ['\\', '0']
  | '\t' => ['\\', 't']
  | '\r' => ['\\', 'r']
  | '\n' => ['\\', 'n']
  | '\\' => ['\\', '\\']
  | '"' => ['\\', '"']
  | c => if shapeless.contains c then ['\\', 'u', '\x7b'] ++ hex c.toNat ++ ['\x7d'] else [c]

/-- **Escaped quotation** of a text. -/
def escaped (s : String) : String :=
  String.ofList ('"' :: s.toList.flatMap escapeChar ++ ['"'])

end WhereClause.Text
