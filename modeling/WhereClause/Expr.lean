import WhereClause.Token

/-!
# Expressions

The tree of a filter expression. Operators and closing parentheses are kept as the tokens they
were written with; parentheses around an expression are a node of their own, so that writing the
tree brings them back. Literals, identifiers and parameters are the leaves.

* `Expr.leaves` — the leaves of a tree in source order;
* `Expr.nesting` — how deeply prefix operators, parentheses and argument lists are nested;
* `Expr.alike` — equality of trees up to the lines of their tokens and the scales of decimals.
-/

namespace WhereClause

/-- **A leaf of an expression.** -/
inductive Leaf where
  | literal (value : Value)
  /-- A name, its dotted segments joined. -/
  | identifier (name : String)
  /-- A placeholder for a value that is given later. -/
  | parameter (name : String)
deriving DecidableEq

/-- Equality of leaves, literals being compared by `Value.alike`. -/
def Leaf.alike : Leaf → Leaf → Bool
  | .literal v, .literal w => v.alike w
  | .identifier m, .identifier n => m == n
  | .parameter m, .parameter n => m == n
  | _, _ => false

/-- **An expression.** -/
inductive Expr where
  | leaf (leaf : Leaf)
  /-- A prefix operation. -/
  | unary (operator : Token) (operand : Expr)
  /-- An infix operation. A range is the operation `..`. -/
  | binary (left : Expr) (operator : Token) (right : Expr)
  /-- An expression in parentheses. -/
  | grouping (inner : Expr)
  /-- A function applied to arguments, with its closing parenthesis. -/
  | call (callee : Expr) (close : Token) (args : List Expr)
  /-- The list of values on the right of `in`. -/
  | list (items : List Expr)

namespace Expr

/-! ### Kinds of nodes -/

/-- A literal as an expression. -/
@[match_pattern] abbrev literal (value : Value) : Expr := leaf (.literal value)

/-- A name as an expression. -/
@[match_pattern] abbrev identifier (name : String) : Expr := leaf (.identifier name)

/-- A placeholder as an expression. -/
@[match_pattern] abbrev parameter (name : String) : Expr := leaf (.parameter name)

/-- A range, as the operation `..`. -/
def range (first last : Expr) : Expr :=
  binary first (Token.ofKind .dotDot "..") last

/-- The call of a named function. -/
def callNamed (name : String) (args : List Expr) : Expr :=
  call (identifier name) (Token.ofKind .rightParen ")") args

/-- Whether a node is a range. -/
def isRange : Expr → Bool
  | binary _ op _ => op.kind == .dotDot
  | _ => false

/-! ### Leaves and nesting -/

mutual

/-- **The leaves of a tree in source order**: left before right, callee before arguments. -/
def leaves : Expr → List Leaf
  | leaf l => [l]
  | unary _ x => x.leaves
  | binary l _ r => l.leaves ++ r.leaves
  | grouping x => x.leaves
  | call callee _ args => callee.leaves ++ leavesOf args
  | list items => leavesOf items

/-- The leaves of several trees. -/
def leavesOf : List Expr → List Leaf
  | [] => []
  | e :: es => e.leaves ++ leavesOf es

end

mutual

/-- **The nesting of a tree.** Prefix operators, parentheses, lists and arguments go one level
down; infix operators stay on their level, and so does a call without arguments. -/
def nesting : Expr → Nat
  | leaf _ => 0
  | unary _ x => x.nesting + 1
  | binary l _ r => max l.nesting r.nesting
  | grouping x => x.nesting + 1
  | call _ _ args => if args.isEmpty then 0 else nestingOf args + 1
  | list items => nestingOf items + 1

/-- The greatest nesting of several trees. -/
def nestingOf : List Expr → Nat
  | [] => 0
  | e :: es => max e.nesting (nestingOf es)

end

/-! ### Equality up to lines -/

mutual

/-- **Equality of trees**: the same nodes with tokens that are alike and leaves that are alike. -/
def alike : Expr → Expr → Bool
  | leaf a, leaf b => a.alike b
  | unary s x, unary t y => s.alike t && x.alike y
  | binary l s r, binary l' t r' => l.alike l' && s.alike t && r.alike r'
  | grouping x, grouping y => x.alike y
  | call c s as, call d t bs => c.alike d && s.alike t && alikeAll as bs
  | list as, list bs => alikeAll as bs
  | _, _ => false

/-- Equality of lists of trees, member by member. -/
def alikeAll : List Expr → List Expr → Bool
  | [], [] => true
  | a :: as, b :: bs => a.alike b && alikeAll as bs
  | _, _ => false

end

end Expr

end WhereClause
