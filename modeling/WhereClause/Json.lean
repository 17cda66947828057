import WhereClause.Binary.Shortest
import WhereClause.Text.Escape

/-!
# JSON

JSON values and their two notations: `Json.compact` on one line without blanks, and `Json.pretty`
with one item per line and two blanks of indentation for each level.
-/

namespace WhereClause

/-- **A JSON value.** Whole numbers are kept exactly; other numbers are binary fractions with a
sign. The members of an object are written in the order given. -/
inductive Json where
  | null
  | bool (b : Bool)
  | integer (n : Int)
  | float (negative : Bool) (magnitude : Binary)
  | string (s : String)
  | array (items : List Json)
  | object (members : List (String × Json))

namespace Json

/-! ### Numbers -/

/-- A number in scientific form as JSON writes it. From `0.00001` up to below ten to the power 16
the notation is positional and always has a fraction; outside there is an exponent with a sign. -/
def numberChars (s : Scientific) : List Char :=
  let ds := Digits.ofNat s.digits
  let e := s.exponent + Int.ofNat ds.length - 1
  if -5 ≤ e ∧ e < 16 then
    s.positional ++ (if 0 ≤ s.exponent then ['.', '0'] else [])
  else
    ds.take 1 ++ (if ds.length = 1 then [] else '.' :: ds.drop 1)
      ++ 'e' :: (if e < 0 then '-' else '+') :: Digits.ofNat e.natAbs

/-- **The text of a binary fraction**: its shortest decimal, where a tie goes to the even digit. -/
def floatText (negative : Bool) (x : Binary) : String :=
  String.ofList ((if negative then ['-'] else []) ++ numberChars (x.shortest .even))

/-! ### Strings -/

/-- One character of a string. Only quotes, backslashes and controls are escaped. -/
def quoteChar (c : Char) : List Char :=
  match c with
  | '"' => ['\\', '"']
  | '\\' => ['\\', '\\']
  | '\x08' => ['\\', 'b']
  | '\x0c' => ['\\', 'f']
  | '\n' => ['\\', 'n']
  | '\r' => ['\\', 'r']
  | '\t' => ['\\', 't']
  | c =>
    if c.toNat < 0x20 then ['\\', 'u'] ++ List.leftpad 4 '0' (Text.hex c.toNat) else [c]

/-- **The text of a string**, between double quotes. -/
def quote (s : String) : String :=
  String.ofList ('"' :: s.toList.flatMap quoteChar ++ ['"'])

/-! ### One line -/

/-- The text of a value without parts. -/
def scalarText : Json → String
  | null => "null"
  | bool b => if b then "true" else "false"
  | integer n => n.repr
  | float negative x => floatText negative x
  | string s => quote s
  | array _ => "[]"
  | object _ => "\x7b\x7d"

mutual

/-- **The value on one line.** -/
def compact : Json → String
  | array items => "[" ++ ",".intercalate (compactItems items) ++ "]"
  | object members => "\x7b" ++ ",".intercalate (compactMembers members) ++ "\x7d"
  | scalar => scalar.scalarText

/-- The items of an array. -/
def compactItems : List Json → List String
  | [] => []
  | x :: xs => x.compact :: compactItems xs

/-- The members of an object. -/
def compactMembers : List (String × Json) → List String
  | [] => []
  | (key, x) :: rest => (quote key ++ ":" ++ x.compact) :: compactMembers rest

end

/-! ### Several lines -/

/-- The start of a line at a given level. -/
def lineStart (level : Nat) : String :=
  String.ofList ('\n' :: List.replicate (2 * level) ' ')

/-- Items between brackets, each on a line of its own, `level` being that of the brackets. Without
items the brackets stand together. -/
def bracketed (opening closing : String) (level : Nat) (items : List String) : String :=
  if items.isEmpty then opening ++ closing
  else
    opening ++ ",".intercalate (items.map fun item => lineStart (level + 1) ++ item)
      ++ lineStart level ++ closing

mutual

/-- The value at a given level of indentation. -/
def prettyAt (level : Nat) : Json → String
  | array items => bracketed "[" "]" level (prettyItems (level + 1) items)
  | object members => bracketed "\x7b" "\x7d" level (prettyMembers (level + 1) members)
  | scalar => scalar.scalarText

/-- The items of an array. -/
def prettyItems (level : Nat) : List Json → List String
  | [] => []
  | x :: xs => prettyAt level x :: prettyItems level xs

/-- The members of an object. -/
def prettyMembers (level : Nat) : List (String × Json) → List String
  | [] => []
  | (key, x) :: rest => (quote key ++ ": " ++ prettyAt level x) :: prettyMembers level rest

end

/-- **The value on several lines.** -/
def pretty (x : Json) : String :=
  prettyAt 0 x

end Json

end WhereClause
