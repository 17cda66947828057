import WhereClause.Compile
import WhereClause.Pass.Bind
import WhereClause.Pass.Case
import WhereClause.Value.Json

/-!
# Commands

What the program can be asked to do, and the most important of it: turning an expression into SQL,
with its literals in place or collected as parameters.
-/

namespace WhereClause

/-- How a quote inside a string is written. -/
inductive Quoting where
  | doubled
  | backslash
deriving DecidableEq

/-- What writes a quote in this way. -/
def Quoting.quoter : Quoting → Sql.Quoter
  | doubled => .doubled
  | backslash => .backslash

/-- **An SQL fragment**, and the values of its parameters where literals were taken out. -/
structure Fragment where
  sql : String
  params : Option (List Value)
deriving DecidableEq

/-- The fragment as a JSON object. Without parameters their list is empty. -/
def Fragment.json (f : Fragment) : Json :=
  .object [("params", Value.listJson (f.params.getD [])), ("sql", .string f.sql)]

/-- **The style in which an expression is written as SQL.** -/
structure Style where
  /-- Whether literals become parameters. -/
  bindsLiterals : Bool
  quoting : Quoting
  /-- Whether the names of columns and functions are put into upper case. -/
  upperCase : Bool
deriving DecidableEq

namespace Style

/-- The passes that a style asks for. -/
def passes (s : Style) : List (Pass (StateM (Bindings Unit))) :=
  (if s.upperCase then [.upperCase] else [])
    ++ (if s.bindsLiterals then [.bindLiterals .numbered] else [])

/-- **Turns an expression into SQL.** -/
def fragment (s : Style) (source : String) : Except CompileError Fragment :=
  match (compile s.passes s.quoting.quoter source).run .empty with
  | (.error e, _) => .error e
  | (.ok sql, bindings) => .ok ⟨sql, if s.bindsLiterals then some bindings.values else none⟩

end Style

/-- **A command.** An expression that is not given is read from the input. -/
inductive Command where
  | sql (expression : Option String) (style : Style) (pretty : Bool)
  | check (expression : Option String)
  | tokens (expression : Option String)
  | inspect (expression : Option String)
  /-- The list of manual pages. -/
  | docs
  /-- One page of the manual. -/
  | doc (category : String)
deriving DecidableEq

/-- Whether a command has to read its expression from the input. -/
def Command.readsInput : Command → Bool
  | sql expression _ _ => expression.isNone
  | check expression | tokens expression | inspect expression => expression.isNone
  | docs | doc _ => false

end WhereClause
