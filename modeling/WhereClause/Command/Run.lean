import WhereClause.Command.Arguments
import WhereClause.Command.Manual
import WhereClause.Expr.Names
import WhereClause.Expr.Outline

/-!
# Running commands

A run takes the arguments and the input, and answers an exit code and two texts. Whatever goes
wrong with the work itself gives the exit code 1 and one message; a command line that makes no
sense gives the exit code 2.
-/

namespace WhereClause

/-- **Why a command fails.** -/
inductive CommandError where
  | compile (e : CompileError)
  /-- The input is not text in UTF-8. -/
  | invalidInput
  /-- There is neither an expression nor an input to read it from. -/
  | noInput
  | unknownCategory (name : String)
deriving DecidableEq

/-- The message of an error. -/
def CommandError.message : CommandError → String
  | compile e => e.message
  | invalidInput => "IO error: stream did not contain valid UTF-8"
  | noInput => "No expression provided. Pass it as an argument or pipe it to stdin."
  | unknownCategory name =>
    "Unknown category: '" ++ name ++ "'\nRun 'treexl docs' to see available categories."

/-- The page of the manual with a given name. -/
def Manual.page (name : String) : Except CommandError Category :=
  match Category.ofName? name with
  | some category => .ok category
  | none => .error (.unknownCategory name)

namespace Command

/-- **The expression of a command**: its argument, or else the input, which is missing where
somebody sits at a terminal. -/
def expressionOf (input : Option ByteArray) : Option String → Except CommandError String
  | some expression => .ok expression
  | none =>
    match input with
    | none => .error .noInput
    | some bytes =>
      match String.fromUTF8? bytes with
      | some expression => .ok expression
      | none => .error .invalidInput

/-- Reports an error of the compiler as an error of the command. -/
def lift {α : Type} : Except CompileError α → Except CommandError α
  | .ok a => .ok a
  | .error e => .error (.compile e)

/-- What the command that writes SQL prints. -/
def sqlText (f : Fragment) (pretty : Bool) : String :=
  if f.params.isNone then f.sql ++ "\n"
  else (if pretty then f.json.pretty else f.json.compact) ++ "\n"

/-- A line of the list of tokens. -/
def tokenLine (t : Token) : String :=
  String.ofList (List.leftpad 3 ' ' t.line.repr.toList) ++ "  " ++ t.text ++ "\n"

/-- The structure of a tree, and the names it refers to. -/
def inspectText (e : Expr) : String :=
  e.outline.text ++ "\n"
    ++ "identifiers: " ++ ", ".intercalate e.identifiers ++ "\n"
    ++ "parameters: " ++ ", ".intercalate e.parameters ++ "\n"

/-- **What a command prints.** -/
def output (input : Option ByteArray) : Command → Except CommandError String
  | sql expression style pretty => do
    let source ← expressionOf input expression
    let f ← lift (style.fragment source)
    return sqlText f pretty
  | check expression => do
    let source ← expressionOf input expression
    let _ ← lift (parse source)
    return "Syntax is valid\n"
  | tokens expression => do
    let source ← expressionOf input expression
    match scan source with
    | .ok ts => return String.join (ts.map tokenLine)
    | .error e => .error (.compile (.lex e))
  | inspect expression => do
    let source ← expressionOf input expression
    let e ← lift (parse source)
    return inspectText e
  | docs => return Manual.overview
  | doc category => do
    let page ← Manual.page category
    return page.text

end Command

/-- **The result of a run.** -/
structure Outcome where
  exitCode : Nat
  output : String
  errors : String
deriving DecidableEq

namespace Request

/-- A reminder of how the program is called. -/
def usage : String :=
  "Usage: treexl <COMMAND>\n\n"
    ++ "Commands:\n"
    ++ "  sql      Render an expression as a SQL WHERE fragment\n"
    ++ "  check    Validate expression syntax\n"
    ++ "  tokens   Print the tokens of an expression\n"
    ++ "  inspect  Print the parsed tree and the names it references\n"
    ++ "  docs     List documentation categories\n"
    ++ "  doc      Show documentation for a specific category\n"
    ++ "  help     Print this message\n\n"
    ++ "Options:\n"
    ++ "  -h, --help     Print help\n"
    ++ "  -V, --version  Print version\n"

/-- Whether a request needs the input. -/
def readsInput : Request → Bool
  | run command => command.readsInput
  | _ => false

/-- **Does what is asked for.** -/
def outcome (input : Option ByteArray) : Request → Outcome
  | run command =>
    match command.output input with
    | .ok text => ⟨0, text, ""⟩
    | .error e => ⟨1, "", e.message ++ "\n"⟩
  | version => ⟨0, "treexl 0.2.0\n", ""⟩
  | help => ⟨0, usage, ""⟩
  | misuse => ⟨2, "", usage⟩

end Request

end WhereClause
