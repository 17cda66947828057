import WhereClause.Token.Lexer

/-!
# Lexing with indices into the text

A `Lexer` holds the text that is still to be read. The same tokens can be read by a scanner that
keeps the whole text, with the position it has come to and the position where the current token
starts. The text of a token is then cut out of the whole text, and a cut must lie within it and must
not end before it starts. The loops go on character by character, and each must come to an end.

None of this is built into the scanner here. A `Scanning` may break down, which is the answer
`none`: it does so where the two ends of a cut are out of order or beyond the text, and where a loop
goes round more often than the text has characters. It also keeps every `Stand` it had before, so
that something can be said about all of them and not only about those between two tokens.

* `Scanner` — the text, where the scanner stands, and where it stood before;
* `Scanning.text` — the text of the current token, a cut;
* `Scanning.run` — a loop over characters of one class;
* `Scanning.next` — the next token or error;
* `Scanner.calls?`, `Scanner.scanWithin?` — several calls in turn, and calls up to the end marker.
-/

namespace WhereClause

/-! ### Scanners -/

/-- **Where a scanner stands**: the start of the current token, the position it has come to, and
the line of that position. -/
structure Stand where
  start : Nat
  position : Nat
  line : Nat

/-- **A scanner.** Where it stood before is kept with the latest stand first. -/
structure Scanner extends Stand where
  input : List Char
  past : List Stand

namespace Scanner

/-- A scanner before its first call. -/
def ofString (source : String) : Scanner where
  input := source.toList
  start := 0
  position := 0
  line := 1
  past := []

/-- All stands up to now, the latest one first. -/
def stands (s : Scanner) : List Stand :=
  s.toStand :: s.past

/-- Takes another stand. All changes of a scanner are made by this. -/
def become (s : Scanner) (stand : Stand) : Scanner :=
  { s with toStand := stand, past := s.stands }

/-- One character further. -/
def forth (s : Scanner) : Scanner :=
  s.become ⟨s.start, s.position + 1, s.line⟩

/-- One line further. -/
def newLine (s : Scanner) : Scanner :=
  s.become ⟨s.start, s.position, s.line + 1⟩

/-- A token starts here. -/
def begin (s : Scanner) : Scanner :=
  s.become ⟨s.position, s.position, s.line⟩

/-- One character further, which may end a line. -/
def onward (c : Char) (s : Scanner) : Scanner :=
  if c = '\n' then s.newLine.forth else s.forth

end Scanner

/-- **An action of a scanner** that gives an answer and changes the scanner. There is no answer
where the scanner breaks down. -/
abbrev Scanning (α : Type) : Type :=
  StateT Scanner Option α

namespace Scanning

/-! ### Single steps -/

/-- The character so many places behind the position, if the text goes that far. -/
def ahead (k : Nat) : Scanning (Option Char) :=
  fun s => some (s.input[s.position + k]?, s)

/-- The character at the position. -/
def current : Scanning (Option Char) :=
  ahead 0

/-- The line of the position. -/
def line : Scanning Nat :=
  fun s => some (s.line, s)

def change (f : Scanner → Scanner) : Scanning Unit :=
  fun s => some ((), f s)

/-- Goes on behind the character at the position if it is the one asked for. -/
def accept (c : Char) : Scanning Bool := do
  if (← current) = some c then do
    change .forth
    pure true
  else pure false

/-- **The text of the current token**, cut out of the whole text. -/
def text : Scanning String :=
  fun s =>
    if s.start ≤ s.position ∧ s.position ≤ s.input.length then
      some (String.ofList ((s.input.take s.position).drop s.start), s)
    else none

/-! ### Loops -/

/-- A loop that may go round so many times. -/
def rounds (p : Char → Bool) (step : Char → Scanner → Scanner) : Nat → Scanning (List Char)
  | 0 => fun _ => none
  | n + 1 => do
    match ← current with
    | none => pure []
    | some c =>
      if p c then do
        change (step c)
        let cs ← rounds p step n
        pure (c :: cs)
      else pure []

/-- **Goes on over characters of the class `p`** up to the first one that is not, by `step` over
each of them, and answers what was gone over. -/
def run (p : Char → Bool) (step : Char → Scanner → Scanner) : Scanning (List Char) :=
  fun s => rounds p step (s.input.length + 1) s

/-! ### Tokens by their classes -/

/-- The text of the current token as a token of some kind. -/
def token (kind : Kind) : Scanning Token := do
  let lexeme ← text
  let n ← line
  pure ((Token.ofKind kind lexeme).atLine n)

/-- The marks and operators by their first characters. Some become others where one of the given
characters follows, the first of those that does. -/
def marks : Char → Option (Kind × List (Char × Kind))
  | '(' => some (.leftParen, [])
  | ')' => some (.rightParen, [])
  | ',' => some (.comma, [])
  | '=' => some (.equal, [])
  | '-' => some (.minus, [])
  | '.' => some (.dot, [('.', .dotDot)])
  | '>' => some (.greater, [('=', .greaterEqual)])
  | '<' => some (.less, [('=', .lessEqual), ('>', .different)])
  | _ => none

/-- The kind of a mark, behind its first character. -/
def prolonged (kind : Kind) : List (Char × Kind) → Scanning Kind
  | [] => pure kind
  | (c, longer) :: more => do
    if ← accept c then pure longer else prolonged kind more

/-- A string, from its opening quote. -/
def quoted : Scanning (Except LexError Token) := do
  let opening ← line
  change .forth
  let body ← run (· != '\'') .onward
  match ← current with
  | none => do
    let n ← line
    pure (.error (.unterminatedString n))
  | some _ => do
    change .forth
    let lexeme ← text
    pure (.ok (((Token.ofKind .string lexeme).withLiteral
      (.string (String.ofList body))).atLine opening))

/-- A parameter, from its colon. -/
def parameter : Scanning (Except LexError Token) := do
  change .forth
  let name ← run Lexer.isWordPart fun _ => .forth
  let n ← line
  pure (.ok ((Token.ofKind .parameter (String.ofList name)).atLine n))

/-- A point and the digits behind it, where there is one with a digit behind it. -/
def fraction : Scanning Bool := do
  let point ← current
  let digit ← ahead 1
  if point = some '.' ∧ digit.any Char.isDigit then do
    change .forth
    let _ ← run Char.isDigit fun _ => .forth
    pure true
  else pure false

/-- The value of a number. That of a decimal counts only if its scale is the number of digits behind
the point. -/
def value? (isDecimal : Bool) (digits : String) : Option Value :=
  if isDecimal then
    let scale := digits.toList.length - (digits.toList.idxOf '.' + 1)
    ((Decimal.ofString? digits).filter (·.scale == scale)).map .decimal
  else Lexer.integerValue? digits.toList

/-- A number, from its first digit. -/
def number : Scanning (Except LexError Token) := do
  let _ ← run Char.isDigit fun _ => .forth
  let isDecimal ← fraction
  let digits ← text
  let n ← line
  match value? isDecimal digits with
  | some v => pure (.ok (((Token.ofKind .number digits).withLiteral v).atLine n))
  | none => pure (.error (.invalidNumber digits n))

/-- A word, from its first letter. -/
def word : Scanning (Except LexError Token) := do
  let w ← run Lexer.isWordPart fun _ => .forth
  let n ← line
  match Kind.ofKeyword? (String.ofList w) with
  | some k => pure (.ok ((Token.ofKind k "").atLine n))
  | none => pure (.ok ((Token.ofKind .identifier (String.ofList w)).atLine n))

/-- The token that starts with the character `c` at the position. -/
def tokenFrom (c : Char) : Scanning (Except LexError Token) := do
  match marks c with
  | some (kind, longer) => do
    change .forth
    let k ← prolonged kind longer
    let t ← token k
    pure (.ok t)
  | none =>
    if c = '\'' then quoted
    else if c = ':' ∧ (← ahead 1).any Lexer.isWordStart then parameter
    else if c.isDigit then number
    else if Lexer.isWordStart c then word
    else do
      let n ← line
      pure (.error (.unexpectedCharacter c n))

/-- The token or error at the position, where no blank stands. -/
def read : Scanning (Except LexError Token) := do
  match ← current with
  | none => do
    let n ← line
    pure (.ok ((Token.ofKind .eof "").atLine n))
  | some c => tokenFrom c

/-- **The next token or error.** -/
def next : Scanning (Except LexError Token) := do
  let _ ← run Lexer.isSeparator .onward
  change .begin
  read

end Scanning

/-! ### Several calls -/

/-- **The answers to several calls in turn**, each with the scanner that it leaves to the next one.
An error is an answer, and the next call goes on from there. -/
def Scanner.calls? : Nat → Scanner → Option (List (Except LexError Token × Scanner))
  | 0, _ => some []
  | n + 1, s => do
    let (answer, s') ← Scanning.next s
    let more ← calls? n s'
    pure ((answer, s') :: more)

/-- **All tokens up to the end marker**, or the first error, if so many calls are enough. -/
def Scanner.scanWithin? : Nat → Scanner → Option (Except LexError (List Token))
  | 0, _ => none
  | n + 1, s => do
    let (answer, s') ← Scanning.next s
    match answer with
    | .error e => pure (.error e)
    | .ok t =>
      if t.kind = .eof then pure (.ok [t])
      else do
        let more ← scanWithin? n s'
        pure (more.map (t :: ·))

/-- The answers of a lexer to several calls in turn. -/
def Lexer.calls : Nat → Lexer → List (Except LexError Token × Lexer)
  | 0, _ => []
  | n + 1, l => l.next :: calls n l.next.2

end WhereClause
