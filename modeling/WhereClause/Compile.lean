import WhereClause.Expr.Parser
import WhereClause.Pass
import WhereClause.Sql
import WhereClause.Text.Blank
import WhereClause.Token.Lexer

/-!
# From source text to SQL

Source text is scanned, parsed, changed by a list of passes, and written as SQL. The passes share
one state, which lives on from one source to the next; a source that cannot be read leaves it as it
is. That holds of changes of any kind, so parsing is defined for these (`parseThen`) and passes are
the changes that they make (`parseWith`).
-/

namespace WhereClause

/-- **Why a source has no tree or no SQL text.** -/
inductive CompileError where
  | lex (e : LexError)
  | parse (e : ParseError)
  | sql (e : SqlError)
deriving DecidableEq

/-- The message of an error is that of its cause. -/
def CompileError.message : CompileError → String
  | lex e => e.message
  | parse e => e.message
  | sql e => e.message

/-- **The tree of a source text.** A blank text is refused before it is scanned. -/
def parse (source : String) : Except CompileError Expr :=
  if Text.isBlank source then .error (.parse ⟨.blank, 1, none⟩)
  else
    match scan source with
    | .error e => .error (.lex e)
    | .ok tokens =>
      match (TokenStream.ofList tokens).parse.1 with
      | .error e => .error (.parse e)
      | .ok e => .ok e

section Rewriting

variable {m : Type → Type} [Monad m]

/-- The tree that a list of changes makes of a tree, one after the other. -/
def rewriteInTurn : List (Rewriting m) → Expr → m Expr
  | [], e => pure e
  | rewrite :: rewritings, e => do
    let e' ← rewrite e
    rewriteInTurn rewritings e'

/-- **The tree of a source text after a list of changes of any kind.** -/
def parseThen (rewritings : List (Rewriting m)) (source : String) :
    m (Except CompileError Expr) :=
  match parse source with
  | .error e => pure (.error e)
  | .ok e => do
    let e' ← rewriteInTurn rewritings e
    pure (.ok e')

/-- The tree that a list of passes makes of a tree, one after the other. -/
def applyPasses (passes : List (Pass m)) (e : Expr) : m Expr :=
  rewriteInTurn (passes.map Pass.rewriting) e

/-- **The tree of a source text after a list of passes.** -/
def parseWith (passes : List (Pass m)) (source : String) : m (Except CompileError Expr) :=
  parseThen (passes.map Pass.rewriting) source

/-- The first pass, and then the others on what it gives. -/
theorem applyPasses_cons [LawfulMonad m] (p : Pass m) (passes : List (Pass m)) (e : Expr) :
    applyPasses (p :: passes) e = p.apply e >>= fun r => applyPasses passes r.tree := by
  unfold applyPasses
  rw [List.map_cons, rewriteInTurn, Pass.rewriting, bind_assoc]
  simp only [pure_bind]

end Rewriting

/-- **The SQL text of a source text.** The passes have run before the text is written, so they keep
what they took from a tree that then turns out to have no SQL text. -/
def compile {m : Type → Type} [Monad m] (passes : List (Pass m)) (q : Sql.Quoter)
    (source : String) : m (Except CompileError String) := do
  let r ← parseWith passes source
  pure <| match r with
    | .error e => .error e
    | .ok e =>
      match Sql.text q e with
      | .error e => .error (.sql e)
      | .ok text => .ok text

end WhereClause
