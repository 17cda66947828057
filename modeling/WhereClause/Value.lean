import WhereClause.Decimal

/-!
# Values

The values that a literal can have, and that a parameter can be bound to.
-/

namespace WhereClause

/-- **A literal value.** -/
inductive Value where
  | null
  | boolean (b : Bool)
  | integer (n : Int)
  | decimal (d : Decimal)
  | string (s : String)
deriving DecidableEq

namespace Value

/-- The name of a value's type. -/
def typeName : Value → String
  | null => "null"
  | boolean _ => "boolean"
  | integer _ => "integer"
  | decimal _ => "decimal"
  | string _ => "string"

/-- The spelling of a truth value. -/
def booleanText (b : Bool) : String :=
  if b then "true" else "false"

/-- The text of a value for people to read. A string stands between double quotes as it is. -/
def text : Value → String
  | null => "null"
  | boolean b => booleanText b
  | integer n => n.repr
  | decimal d => d.text
  | string s => "\"" ++ s ++ "\""

/-- **Equality of values**, for which the scale of a decimal has no meaning. A decimal never equals
an integer. -/
def alike : Value → Value → Bool
  | null, null => true
  | boolean a, boolean b => a == b
  | integer a, integer b => a == b
  | decimal a, decimal b => a.equals b
  | string a, string b => a == b
  | _, _ => false

end Value

end WhereClause
