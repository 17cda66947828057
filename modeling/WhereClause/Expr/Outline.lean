import WhereClause.Expr
import WhereClause.Outline
import WhereClause.Text.Escape

/-!
# Outlines of expressions

The full structure of a tree with its tokens, values and lines, for inspection.
-/

namespace WhereClause

/-- Capital letters after underscores and at the start, small letters elsewhere. -/
def Kind.capitalize (atStart : Bool) : List Char → List Char
  | [] => []
  | c :: cs =>
    if c = '_' then capitalize true cs
    else (if atStart then c else c.toLower) :: capitalize false cs

/-- The name of a kind in an outline, such as `LeftParen`. -/
def Kind.label (k : Kind) : String :=
  String.ofList (capitalize true k.name.toList)

/-- The outline of a text. -/
def Outline.quoted (s : String) : Outline :=
  .atom (Text.escaped s)

/-- The outline of a value. -/
def Value.outline : Value → Outline
  | null => .atom "Null"
  | boolean b => .wrapped "Boolean" (.atom (booleanText b))
  | integer n => .wrapped "Integer" (.atom n.repr)
  | decimal d => .wrapped "Decimal" (.atom d.text)
  | string s => .wrapped "String" (.quoted s)

/-- The outline of a token. -/
def Token.outline (t : Token) : Outline :=
  .record "Token" [
    ("kind", .atom t.kind.label),
    ("lexeme", .quoted t.lexeme),
    ("literal", match t.literal with
      | some v => .wrapped "Some" v.outline
      | none => .atom "None"),
    ("line", .atom t.line.repr)]

/-- A node of the tree: its kind, and its parts by name. -/
def Outline.node (name : String) (fields : List (String × Outline)) : Outline :=
  .wrapped name (.record name fields)

/-- The outline of a leaf. -/
def Leaf.outline : Leaf → Outline
  | literal v => .node "Literal" [("value", v.outline)]
  | identifier name => .node "Identifier" [("name", .quoted name)]
  | parameter name => .node "Parameter" [("name", .quoted name)]

namespace Expr

mutual

/-- **The outline of an expression.** -/
def outline : Expr → Outline
  | leaf l => l.outline
  | unary op x => .node "Unary" [("operator", op.outline), ("operand", x.outline)]
  | binary l op r =>
    .node "Binary" [("left", l.outline), ("operator", op.outline), ("right", r.outline)]
  | grouping x => .node "Grouping" [("inner", x.outline)]
  | call callee close args =>
    .node "Call" [("callee", callee.outline), ("close_paren", close.outline),
      ("args", .list (outlines args))]
  | list items => .node "ExprList" [("args", .list (outlines items))]

/-- The outlines of several expressions. -/
def outlines : List Expr → List Outline
  | [] => []
  | e :: es => e.outline :: outlines es

end

end Expr

end WhereClause
