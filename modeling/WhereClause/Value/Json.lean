import WhereClause.Decimal.ToBinary
import WhereClause.Json
import WhereClause.Value

/-!
# Values as JSON

A decimal becomes a JSON number where a binary fraction stands for it well enough to give its
digits back, and otherwise a string with all its digits.
-/

namespace WhereClause

/-- The positional text of a binary fraction with a sign: its shortest decimal, where a tie goes
up. -/
def Binary.text (negative : Bool) (x : Binary) : String :=
  String.ofList ((if negative then ['-'] else []) ++ (x.shortest .up).positional)

namespace Value

/-- The JSON form of a decimal. -/
def decimalJson (d : Decimal) : Json :=
  let negative := d.coefficient < 0
  let x := d.toBinary
  if x.text negative = d.normalized.text then .float negative x else .string d.text

/-- **The JSON form of a value.** -/
def toJson : Value → Json
  | null => .null
  | boolean b => .bool b
  | integer n => .integer n
  | decimal d => decimalJson d
  | string s => .string s

/-- The JSON form of several values, in their order. -/
def listJson (vs : List Value) : Json :=
  .array (vs.map toJson)

end Value

end WhereClause
