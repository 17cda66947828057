import WhereClause.Token.Kind
import WhereClause.Value

/-!
# Tokens

A token is a piece of source text with its kind, the value it stands for if it is a literal, and
the line on which it starts. The line is a remark for error messages: two tokens that differ in
nothing else are `alike`.
-/

namespace WhereClause

/-- **A token.** -/
structure Token where
  kind : Kind
  lexeme : String
  literal : Option Value
  line : Nat
deriving DecidableEq

namespace Token

/-- A token without a value on the first line. The lexeme of a keyword is always its spelling,
whatever text is given. -/
def ofKind (kind : Kind) (lexeme : String) : Token where
  kind := kind
  lexeme := kind.keyword?.getD lexeme
  literal := none
  line := 1

/-- The same token with a value. -/
def withLiteral (t : Token) (v : Value) : Token :=
  { t with literal := some v }

/-- The same token on another line. -/
def atLine (t : Token) (line : Nat) : Token :=
  { t with line := line }

/-- The end of the input, on its last line. -/
def eof (line : Nat) : Token where
  kind := .eof
  lexeme := ""
  literal := none
  line := line

/-- The text of a token for people to read: its kind, its lexeme in brackets unless that is empty,
and its value if it has one. -/
def text (t : Token) : String :=
  t.kind.name
    ++ (if t.lexeme.isEmpty then "" else " [" ++ t.lexeme ++ "]")
    ++ (match t.literal with
        | some v => " " ++ v.text
        | none => "")

/-- **Equality of tokens up to their lines.** -/
def alike (a b : Token) : Bool :=
  a.kind == b.kind && a.lexeme == b.lexeme && match a.literal, b.literal with
    | some v, some w => v.alike w
    | none, none => true
    | _, _ => false

end Token

end WhereClause
