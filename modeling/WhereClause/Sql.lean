import WhereClause.Expr
import WhereClause.Sql.Sink

/-!
# Expressions as SQL

Writes an expression as the text of an SQL condition. A failure leaves in the sink what was
written before it.

* `Sql.render` — appends an expression to a sink;
* `Sql.text` — the whole text of an expression, or the reason why it has none.
-/

namespace WhereClause

/-! ### Operators -/

/-- The spelling of an infix operator. Membership and ranges have rules of their own. -/
def Kind.sqlBinary? : Kind → Option String
  | kwAnd => some "and"
  | kwOr => some "or"
  | equal => some "="
  | different => some "<>"
  | less => some "<"
  | lessEqual => some "<="
  | greater => some ">"
  | greaterEqual => some ">="
  | kwIs => some "is"
  | kwLike => some "like"
  | _ => none

/-- The spelling of a sign in front of its operand. -/
def Kind.sqlUnary? : Kind → Option String
  | minus => some "-"
  | kwNot => some "not "
  | _ => none

namespace Sql

/-! ### Leaves -/

/-- The inside of a string, character by character. -/
def renderChars (q : Quoter) : List Char → Writer Unit
  | [] => pure ()
  | c :: cs => do
    if c = '\'' then q else write c.toString
    renderChars q cs

/-- A literal. Truth values have no spelling that every database understands. -/
def renderValue (q : Quoter) : Value → Writer Unit
  | .null => write "null"
  | .boolean b => throw (.unsupportedLiteral (Value.boolean b).typeName)
  | .integer n => write n.repr
  | .decimal d => write d.text
  | .string s => do
    write "'"
    renderChars q s.toList
    write "'"

/-- A leaf. A parameter is written as a placeholder in braces behind a dollar sign. -/
def renderLeaf (q : Quoter) : Leaf → Writer Unit
  | .literal v => renderValue q v
  | .identifier name => write name
  | .parameter name => write ("$\x7b" ++ name ++ "\x7d")

/-- The operand of a minus sign, already written by itself. Two adjacent minus signs would open a
comment, so a blank keeps them apart. -/
def writeNegated (text : String) : Writer Unit :=
  write (if text.toList.head? = some '-' then " " ++ text else text)

/-! ### Trees -/

mutual

/-- **Appends an expression to a sink.** The operand of a minus sign is written apart first, so a
failure inside it leaves only the sign. -/
def render (q : Quoter) : Expr → Writer Unit
  | .leaf l => renderLeaf q l
  | .unary op x =>
    match op.kind.sqlUnary? with
    | none => throw (.invalidUnaryOperator op)
    | some sign => do
      write sign
      if op.kind = .minus then
        -- Whether a blank is needed shows only once the operand is written.
        match (render q x).text with
        | .ok text => writeNegated text
        | .error e => throw e
      else
        render q x
  | .binary l op r =>
    if op.kind = .kwIn then do
      render q l
      match r with
      | .list items => do
        write " in ("
        renderItems q items
        write ")"
      | other => do
        write (if other.isRange then " " else " in ")
        render q other
    else if op.kind = .dotDot then do
      write "between "
      render q l
      write " and "
      render q r
    else
      match op.kind.sqlBinary? with
      | none => throw (.invalidBinaryOperator op)
      | some spelling => do
        render q l
        write (" " ++ spelling ++ " ")
        render q r
  | .grouping x => do
    write "("
    render q x
    write ")"
  | .call callee _ args => do
    render q callee
    write "("
    renderItems q args
    write ")"
  | .list _ => throw .unsupportedList

/-- Several expressions with commas between them. -/
def renderItems (q : Quoter) : List Expr → Writer Unit
  | [] => pure ()
  | e :: es => do
    render q e
    renderMore q es

/-- Several expressions, each behind a comma. -/
def renderMore (q : Quoter) : List Expr → Writer Unit
  | [] => pure ()
  | e :: es => do
    write ", "
    render q e
    renderMore q es

end

/-- **The SQL text of an expression.** -/
def text (q : Quoter) (e : Expr) : Except SqlError String :=
  (render q e).text

end Sql

end WhereClause
