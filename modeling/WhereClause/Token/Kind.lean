/-!
# Kinds of tokens

The punctuation, operators, names, literals and keywords of the language, and the marker for the
end of the input. Keywords are lower case only; any other spelling is an identifier.
-/

namespace WhereClause

/-- **The kind of a token.** -/
inductive Kind where
  | leftParen | rightParen | comma | dot | minus | equal | dotDot | different
  | greater | greaterEqual | less | lessEqual
  | identifier | parameter | string | number
  | kwAnd | kwFalse | kwNull | kwOr | kwTrue | kwNot | kwIs | kwIn | kwLike | kwBetween
  | eof
deriving DecidableEq

namespace Kind

/-- Every kind, in the order of declaration. -/
def all : List Kind :=
  [leftParen, rightParen, comma, dot, minus, equal, dotDot, different,
    greater, greaterEqual, less, lessEqual, identifier, parameter, string, number,
    kwAnd, kwFalse, kwNull, kwOr, kwTrue, kwNot, kwIs, kwIn, kwLike, kwBetween, eof]

/-- The name under which a kind is listed. -/
def name : Kind → String
  | leftParen => "LEFT_PAREN"
  | rightParen => "RIGHT_PAREN"
  | comma => "COMMA"
  | dot => "DOT"
  | minus => "MINUS"
  | equal => "EQUAL"
  | dotDot => "DOT_DOT"
  | different => "DIFFERENT"
  | greater => "GREATER"
  | greaterEqual => "GREATER_EQUAL"
  | less => "LESS"
  | lessEqual => "LESS_EQUAL"
  | identifier => "IDENTIFIER"
  | parameter => "PARAMETER"
  | string => "STRING"
  | number => "NUMBER"
  | kwAnd => "AND"
  | kwFalse => "FALSE"
  | kwNull => "NULL"
  | kwOr => "OR"
  | kwTrue => "TRUE"
  | kwNot => "NOT"
  | kwIs => "IS"
  | kwIn => "IN"
  | kwLike => "LIKE"
  | kwBetween => "BETWEEN"
  | eof => "EOF"

/-- The kind listed under a name. -/
def ofName? (s : String) : Option Kind :=
  all.find? fun k => k.name == s

/-- The spelling of a keyword; other kinds have none. -/
def keyword? : Kind → Option String
  | kwAnd => some "and"
  | kwFalse => some "false"
  | kwNull => some "null"
  | kwOr => some "or"
  | kwTrue => some "true"
  | kwNot => some "not"
  | kwIs => some "is"
  | kwIn => some "in"
  | kwLike => some "like"
  | kwBetween => some "between"
  | _ => none

/-- **The keyword spelled exactly like a text.** -/
def ofKeyword? (s : String) : Option Kind :=
  all.find? fun k => k.keyword? == some s

/-- Whether tokens of this kind carry a value of their own. -/
def isLiteral : Kind → Bool
  | string | number => true
  | _ => false

end Kind

end WhereClause
