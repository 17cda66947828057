import WhereClause.Expr
import WhereClause.Expr.Complaint

/-!
# From tokens to expressions

The grammar, from the loosest to the tightest binding:

```text
disjunction := conjunction ("or" conjunction)*
conjunction := equality ("and" equality)*
equality    := comparison (("=" | "<>" | "is" | "like") comparison | "in" target)*
target      := "(" arguments ")" | unary ".." unary
comparison  := unary ((">" | ">=" | "<" | "<=") unary)*
unary       := ("not" | "-") unary | operand
operand     := PARAMETER | name ("(" arguments? ")")? | literal | "(" disjunction ")"
name        := IDENTIFIER ("." IDENTIFIER)*
arguments   := disjunction ("," disjunction)*
```

A `Parser` answers a result together with the tokens it left, which are a tail of those it was
given. An error leaves the tokens from the one it is about, so its place needs no record of its
own, and reading can go on from there.

Only two rules lead back to an earlier one, `unary` to itself and `operand` to `disjunction`, and
both go one level down. The number of levels is limited, and `unary` is defined by recursion on
the levels that are left: a parser for one level takes the parser for the next as an argument.

* `Parser.chain` — repetition; it ends because each round takes a token;
* `Parser.expression` — an expression at the front of the tokens;
* `TokenStream.parse` — an expression that is all there is.
-/

namespace WhereClause

/-! ### Parsers -/

/-- **The answer of a parser** to the tokens `ts`: a result, and the tokens that are left. -/
structure Step (α : Type) (ts : List Token) where
  result : Except Complaint α
  rest : List Token
  suffix : rest <:+ ts

/-- Goes on with the result and the tokens left, or stays where the error is. -/
def Step.next {α β : Type} {ts : List Token} (s : Step α ts)
    (f : α → (rest : List Token) → rest <:+ ts → Step β rest) : Step β ts :=
  match s with
  | ⟨.ok a, rest, h⟩ =>
    let t := f a rest h
    ⟨t.result, t.rest, t.suffix.trans h⟩
  | ⟨.error c, rest, h⟩ => ⟨.error c, rest, h⟩

/-- **A parser** answers every list of tokens. -/
def Parser (α : Type) : Type :=
  (ts : List Token) → Step α ts

namespace Parser

variable {α β : Type}

/-- Answers `a` and takes no token. -/
protected def pure (a : α) : Parser α :=
  fun ts => ⟨.ok a, ts, List.suffix_refl ts⟩

/-- One parser after another. -/
protected def bind (p : Parser α) (f : α → Parser β) : Parser β :=
  fun ts => (p ts).next fun a rest _ => f a rest

instance : Monad Parser where
  pure := Parser.pure
  bind := Parser.bind

/-- Complains about the next token. -/
def fail (c : Complaint) : Parser α :=
  fun ts => ⟨.error c, ts, List.suffix_refl ts⟩

/-- The next token, which stays where it is. -/
def peek : Parser (Option Token) :=
  fun ts => ⟨.ok ts.head?, ts, List.suffix_refl ts⟩

/-- Takes the next token, if there is one. -/
def skip : Parser Unit :=
  fun ts => ⟨.ok (), ts.tail, List.tail_suffix ts⟩

/-- Takes the next token if it is of one of the kinds asked for. -/
def accept (kinds : List Kind) : Parser (Option Token) := do
  match ← peek with
  | some t => if t.kind ∈ kinds then do skip; pure (some t) else pure none
  | none => pure none

/-- Takes the next token, which has to be of the kind asked for. -/
def expect (kind : Kind) (c : Complaint) : Parser Token := do
  match ← accept [kind] with
  | some t => pure t
  | none => fail c

/-- **Repetition.** As long as the next token is of one of the kinds asked for, takes it and goes
on with `body`, which turns what was read so far and that token into what is read now. -/
def chain (kinds : List Kind) (body : α → Token → Parser α) (a : α) : Parser α
  | [] => Parser.pure a []
  | t :: ts =>
    if t.kind ∈ kinds then
      let s := (body a t ts).next fun b rest h =>
        have : rest.length < (t :: ts).length := Nat.lt_succ_of_le h.length_le
        chain kinds body b rest
      ⟨s.result, s.rest, s.suffix.trans (List.suffix_cons t ts)⟩
    else
      Parser.pure a (t :: ts)
termination_by ts => ts.length
decreasing_by assumption

/-- Operands with infix operators of one tier between them, grouped from the left. -/
def infixes (kinds : List Kind) (operand : Parser Expr) : Parser Expr := do
  let first ← operand
  chain kinds (fun left operator => do
    let right ← operand
    pure (.binary left operator right)) first

/-! ### The grammar -/

/-- Extends a name by the segments that follow it. A dot belongs to the name only if an identifier
follows. -/
def segments (name : String) : List Token → String × List Token
  | d :: w :: ts =>
    if d.kind = .dot ∧ w.kind = .identifier then segments (name ++ "." ++ w.lexeme) ts
    else (name, d :: w :: ts)
  | ts => (name, ts)

theorem segments_suffix (name : String) (ts : List Token) : (segments name ts).2 <:+ ts := by
  fun_induction segments name ts with
  | case1 name d w ts _ ih => exact ih.trans ((List.suffix_cons w ts).trans (List.suffix_cons d _))
  | case2 => exact List.suffix_refl _
  | case3 => exact List.suffix_refl _

/-- The rest of a dotted name that starts with `first`. -/
def dottedName (first : String) : Parser String :=
  fun ts => ⟨.ok (segments first ts).1, (segments first ts).2, segments_suffix first ts⟩

/-- One or more expressions with commas between them. -/
def arguments (expr : Parser Expr) : Parser (List Expr) := do
  let first ← expr
  chain [.comma] (fun before _ => do
    let e ← expr
    pure (before ++ [e])) [first]

/-- What follows a name: the arguments of a call, or nothing. -/
def callOrName (expr : Parser Expr) (name : String) : Parser Expr := do
  match ← accept [.leftParen] with
  | none => pure (.identifier name)
  | some _ =>
    match ← accept [.rightParen] with
    | some close => pure (.call (.identifier name) close [])
    | none =>
      let args ← arguments expr
      let close ← expect .rightParen .expectedCloseOfArguments
      pure (.call (.identifier name) close args)

/-- A parameter, a name, a call, a literal, or an expression in parentheses. -/
def operand (expr : Parser Expr) : Parser Expr := do
  match ← peek with
  | none => fail .expectedExpression
  | some t =>
    match t.kind with
    | .parameter => do skip; pure (.parameter t.lexeme)
    | .identifier => do
      skip
      let name ← dottedName t.lexeme
      callOrName expr name
    | .kwFalse => do skip; pure (.literal (.boolean false))
    | .kwTrue => do skip; pure (.literal (.boolean true))
    | .kwNull => do skip; pure (.literal .null)
    | .string | .number =>
      match t.literal with
      | some v => do skip; pure (.literal v)
      | none => fail .literalWithoutValue
    | .leftParen => do
      skip
      let inner ← expr
      let _ ← expect .rightParen .expectedCloseOfGrouping
      pure (.grouping inner)
    | _ => fail .expectedExpression

/-- A prefix operator in front of what `inner` reads, or else an operand. -/
def signed (inner expr : Parser Expr) : Parser Expr := do
  match ← accept [.kwNot, .minus] with
  | some operator =>
    let x ← inner
    pure (.unary operator x)
  | none => operand expr

/-- The right side of `in`: a list in parentheses, or a range. -/
def inTarget (unary expr : Parser Expr) : Parser Expr := do
  match ← accept [.leftParen] with
  | some _ =>
    let items ← arguments expr
    let _ ← expect .rightParen .expectedCloseOfList
    pure (.list items)
  | none =>
    let first ← unary
    let operator ← expect .dotDot .expectedInTarget
    let last ← unary
    pure (.binary first operator last)

/-- Comparisons by size. -/
def comparison (unary : Parser Expr) : Parser Expr :=
  infixes [.greater, .greaterEqual, .less, .lessEqual] unary

/-- Complains where the next token is the reserved word `between`. -/
def rejectBetween : Parser Unit := do
  match ← peek with
  | some t => if t.kind = .kwBetween then fail .betweenReserved else pure ()
  | none => pure ()

/-- Tests of equality, likeness and membership. -/
def equality (unary expr : Parser Expr) : Parser Expr := do
  let first ← comparison unary
  let e ← chain [.different, .equal, .kwIs, .kwIn, .kwLike] (fun left operator => do
    let right ← if operator.kind = .kwIn then inTarget unary expr else comparison unary
    pure (.binary left operator right)) first
  -- The chain stops at any other token, so this sees `between` after each operand.
  rejectBetween
  pure e

/-- The loosest tier. -/
def disjunction (unary expr : Parser Expr) : Parser Expr :=
  infixes [.kwOr] (infixes [.kwAnd] (equality unary expr))

/-! ### Levels -/

/-- **The two ways down**: what follows a prefix operator, and what stands in parentheses. -/
structure Level where
  unary : Parser Expr
  expression : Parser Expr

/-- The level from which `inner` is one step down. -/
def Level.above (inner : Level) : Level :=
  -- Lists after `in` and the operands of infix operators belong to the level itself.
  let unary := signed inner.unary inner.expression
  ⟨unary, disjunction unary inner.expression⟩

/-- The parsers with a given number of levels left. -/
def level : Nat → Level
  | 0 => ⟨fail .tooDeep, fail .tooDeep⟩
  | n + 1 => (level n).above

/-- The number of levels that an expression may use, its own included. -/
def maxLevels : Nat := 128

/-- **An expression at the front of the tokens.** -/
def expression : Parser Expr :=
  (level maxLevels).expression

end Parser

/-! ### Streams of tokens -/

/-- **The tokens before the end of the input**, and the line on which the input ends. -/
structure TokenStream where
  tokens : List Token
  endLine : Nat

namespace TokenStream

/-- The stream of a list of tokens. It ends at the first end marker, or else behind the last token
and on its line. -/
def ofList (ts : List Token) : TokenStream where
  tokens := ts.takeWhile (·.kind != .eof)
  endLine := match ts.dropWhile (·.kind != .eof) with
    | t :: _ => t.line
    | [] => (ts.getLast?.map (·.line)).getD 1

/-- A complaint about the first token of the stream. -/
def errorHere (s : TokenStream) (c : Complaint) : ParseError where
  complaint := c
  line := (s.tokens.head?.map (·.line)).getD s.endLine
  token := s.tokens.head?

/-- Runs a parser on a stream, and answers also what is left of the stream. -/
def run {α : Type} (s : TokenStream) (p : Parser α) : Except ParseError α × TokenStream :=
  let step := p s.tokens
  let left : TokenStream := ⟨step.rest, s.endLine⟩
  match step.result with
  | .ok a => (.ok a, left)
  | .error c => (.error (left.errorHere c), left)

/-- **Reads one expression** and leaves what comes after it. -/
def parseExpression (s : TokenStream) : Except ParseError Expr × TokenStream :=
  s.run Parser.expression

/-- **Reads one expression that has nothing after it.** -/
def parse (s : TokenStream) : Except ParseError Expr × TokenStream :=
  s.run do
    let e ← Parser.expression
    match ← Parser.peek with
    | none => pure e
    | some _ => Parser.fail .expectedEnd

end TokenStream

end WhereClause
