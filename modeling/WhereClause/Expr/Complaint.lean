import WhereClause.Text.Case
import WhereClause.Token

/-!
# Parse errors

A parse error is a complaint about the token at which reading stopped. Where that token is a
keyword in capitals, which the language takes for an identifier, the message says so.
-/

namespace WhereClause

/-- **What was expected, or is not allowed, at a place in the input.** -/
inductive Complaint where
  /-- The whole text has nothing but blanks. -/
  | blank
  | expectedExpression
  | expectedEnd
  /-- Prefix operators, parentheses or arguments are nested beyond the limit. -/
  | tooDeep
  /-- The reserved word `between` stands where an operator may. -/
  | betweenReserved
  | expectedInTarget
  | expectedCloseOfList
  | expectedCloseOfArguments
  | expectedCloseOfGrouping
  /-- A literal token was made by hand without its value. -/
  | literalWithoutValue
deriving DecidableEq

/-- The wording of a complaint. -/
def Complaint.text : Complaint → String
  | blank => "Expression is blank."
  | expectedExpression => "Expect expression."
  | expectedEnd => "Expect end of expression."
  | tooDeep => "Expression nested too deeply."
  | betweenReserved =>
    "'between' operator not supported. Use 'in' with a range instead "
      ++ "('<expr> in <start>..<end>')."
  | expectedInTarget => "Expected '(' or range '<start>..<end>' after 'in' expression."
  | expectedCloseOfList => "Expect ')' after 'in' list."
  | expectedCloseOfArguments => "Expect ')' after arguments."
  | expectedCloseOfGrouping => "Expect ')' after expression."
  | literalWithoutValue => "Literal token without a value."

/-- **A parse error**: a complaint, the line it names, and the token it is about, which is missing
at the end of the input. -/
structure ParseError where
  complaint : Complaint
  line : Nat
  token : Option Token
deriving DecidableEq

namespace ParseError

/-- The text of the token at which reading stopped. -/
def near (e : ParseError) : Option String :=
  e.token.map (·.lexeme)

/-- The remark on an identifier that would be a keyword in lower case. -/
def keywordRemark (t : Token) : String :=
  let word := Text.lower t.lexeme
  if t.kind == .identifier && word != t.lexeme && (Kind.ofKeyword? word).isSome then
    " Invalid keyword '" ++ t.lexeme ++ "': keywords are case sensitive (lowercase only). Use '"
      ++ word ++ "' instead."
  else
    ""

/-- The complaint with the remark on its token. -/
def detail (e : ParseError) : String :=
  e.complaint.text ++ (match e.token with
    | some t => keywordRemark t
    | none => "")

/-- The full message. -/
def message (e : ParseError) : String :=
  "Parse error (line: " ++ e.line.repr ++ ") at "
    ++ (match e.near with
        | some lexeme => "'" ++ lexeme ++ "'"
        | none => "EOF")
    ++ ": " ++ e.detail

end ParseError

end WhereClause
