import WhereClause.Token

/-!
# From text to tokens

A `Lexer` is the text not yet read and the line on which it starts. `Lexer.next` skips the blanks
in front of the next token and reads it. It answers a token or an error, and in both cases the
lexer that reads on from there, so one may go on after an error: behind a number that is out of
range, at the end of the text where a string is not closed, and without moving at a character that
no token starts with.

* `Lexer.next_length_lt` — a token other than the end marker takes at least one character;
* `scan` — all tokens of a text up to and including the end marker, or its first error.
-/

namespace WhereClause

/-! ### Errors -/

/-- **Why a text has no next token**, with the line where this shows. -/
inductive LexError where
  /-- No token starts with this character. -/
  | unexpectedCharacter (c : Char) (line : Nat)
  /-- The text ends inside a string. -/
  | unterminatedString (line : Nat)
  /-- A number has more digits than a value can hold. -/
  | invalidNumber (text : String) (line : Nat)
deriving DecidableEq

namespace LexError

/-- The line that the error names. -/
def line : LexError → Nat
  | unexpectedCharacter _ line => line
  | unterminatedString line => line
  | invalidNumber _ line => line

/-- What is wrong, without the line. -/
def detail : LexError → String
  | unexpectedCharacter c _ => "Unexpected character '" ++ c.toString ++ "'."
  | unterminatedString _ => "Unterminated string."
  | invalidNumber text _ => "Invalid number '" ++ text ++ "'."

/-- The full message. -/
def message (e : LexError) : String :=
  "Lex error (line: " ++ e.line.repr ++ "): " ++ e.detail

end LexError

/-! ### The lexer -/

/-- **A lexer**: the text still to be read, and the line it starts on. -/
structure Lexer where
  rest : List Char
  line : Nat

namespace Lexer

/-- A lexer at the start of a text. -/
def ofString (s : String) : Lexer :=
  ⟨s.toList, 1⟩

/-! ### Classes of characters -/

/-- The four characters that may stand between tokens. -/
def isSeparator (c : Char) : Bool :=
  c == ' ' || c == '\t' || c == '\r' || c == '\n'

/-- The characters that a word may start with: letters without accents, and the underscore. -/
def isWordStart (c : Char) : Bool :=
  c.isAlpha || c == '_'

/-- The characters that a word may go on with. -/
def isWordPart (c : Char) : Bool :=
  c.isAlphanum || c == '_'

/-- The punctuation mark or operator at the front of a text, the longer one where two fit, and the
text behind it. -/
def symbol? : List Char → Option (Kind × String × List Char)
  | '(' :: cs => some (.leftParen, "(", cs)
  | ')' :: cs => some (.rightParen, ")", cs)
  | ',' :: cs => some (.comma, ",", cs)
  | '=' :: cs => some (.equal, "=", cs)
  | '-' :: cs => some (.minus, "-", cs)
  | '.' :: '.' :: cs => some (.dotDot, "..", cs)
  | '.' :: cs => some (.dot, ".", cs)
  | '>' :: '=' :: cs => some (.greaterEqual, ">=", cs)
  | '>' :: cs => some (.greater, ">", cs)
  | '<' :: '=' :: cs => some (.lessEqual, "<=", cs)
  | '<' :: '>' :: cs => some (.different, "<>", cs)
  | '<' :: cs => some (.less, "<", cs)
  | _ => none

/-! ### Numbers -/

/-- The greatest integer literal. -/
def maxInteger : Nat := 9223372036854775807

/-- The value of an integer literal, if it is in range. -/
def integerValue? (digits : List Char) : Option Value :=
  let n := Digits.value digits
  if n ≤ maxInteger then some (.integer (Int.ofNat n)) else none

/-- The value of a decimal literal, if it is in range. Digits that find no room are rounded away as
the text is read, and then fewer of them are left behind the point than were written. -/
def decimalValue? (whole fraction : List Char) : Option Value :=
  ((Decimal.ofString? (String.ofList (whole ++ '.' :: fraction))).filter
    (·.scale == fraction.length)).map .decimal

/-- **A number at the front of a text**: its spelling, its value where there is one, and the text
behind it. A point belongs to the number only if a digit follows. -/
def readNumber (cs : List Char) : List Char × Option Value × List Char :=
  let whole := cs.takeWhile Char.isDigit
  match cs.dropWhile Char.isDigit with
  | '.' :: d :: tail =>
    if d.isDigit then
      let fraction := (d :: tail).takeWhile Char.isDigit
      (whole ++ '.' :: fraction, decimalValue? whole fraction, (d :: tail).dropWhile Char.isDigit)
    else
      (whole, integerValue? whole, '.' :: d :: tail)
  | rest => (whole, integerValue? whole, rest)

/-! ### Reading -/

/-- The lexer behind the blanks at its front. -/
def skipBlanks (l : Lexer) : Lexer where
  rest := l.rest.dropWhile isSeparator
  line := l.line + (l.rest.takeWhile isSeparator).count '\n'

/-- Reads a string, `cs` being the text behind its opening quote. The string goes up to the next
quote and may span lines; its token stands on the line of the opening quote. -/
def readString (l : Lexer) (cs : List Char) : Except LexError Token × Lexer :=
  let body := cs.takeWhile (· != '\'')
  let line := l.line + body.count '\n'
  match cs.dropWhile (· != '\'') with
  | [] => (.error (.unterminatedString line), ⟨[], line⟩)
  | _ :: rest =>
    (.ok ⟨.string, String.ofList ('\'' :: body ++ ['\'']), some (.string (String.ofList body)),
      l.line⟩, ⟨rest, line⟩)

/-- Reads the token at the very front, where no blank stands. -/
def read (l : Lexer) : Except LexError Token × Lexer :=
  match l.rest with
  | [] => (.ok (Token.eof l.line), l)
  | c :: cs =>
    if c = '\'' then l.readString cs
    else if c.isDigit then
      match readNumber (c :: cs) with
      | (digits, some v, rest) =>
        (.ok ⟨.number, String.ofList digits, some v, l.line⟩, ⟨rest, l.line⟩)
      | (digits, none, rest) =>
        (.error (.invalidNumber (String.ofList digits) l.line), ⟨rest, l.line⟩)
    else if isWordStart c then
      let word := String.ofList ((c :: cs).takeWhile isWordPart)
      (.ok ⟨(Kind.ofKeyword? word).getD .identifier, word, none, l.line⟩,
        ⟨(c :: cs).dropWhile isWordPart, l.line⟩)
    -- The colon is no part of the name, and must touch it.
    else if c = ':' && cs.head?.any isWordStart then
      (.ok ⟨.parameter, String.ofList (cs.takeWhile isWordPart), none, l.line⟩,
        ⟨cs.dropWhile isWordPart, l.line⟩)
    else
      match symbol? (c :: cs) with
      | some (kind, text, rest) => (.ok ⟨kind, text, none, l.line⟩, ⟨rest, l.line⟩)
      | none => (.error (.unexpectedCharacter c l.line), l)

/-- **The next token.** At the end of the text this is the end marker, every time. -/
def next (l : Lexer) : Except LexError Token × Lexer :=
  l.skipBlanks.read

/-! ### Progress -/

theorem length_skipBlanks_le (l : Lexer) : l.skipBlanks.rest.length ≤ l.rest.length :=
  (List.dropWhile_suffix _).length_le

theorem length_readString_lt {l l' : Lexer} {cs : List Char} {r : Except LexError Token}
    (h : l.readString cs = (r, l')) : l'.rest.length < cs.length + 1 := by
  have hle : (cs.dropWhile (· != '\'')).length ≤ cs.length := (List.dropWhile_suffix _).length_le
  unfold readString at h
  split at h <;> cases h
  · exact Nat.succ_pos _
  · simp_all only [List.length_cons]
    omega

theorem length_dropWhile_cons_lt {p : Char → Bool} {c : Char} (cs : List Char) (h : p c) :
    ((c :: cs).dropWhile p).length < (c :: cs).length := by
  rw [List.dropWhile_cons_of_pos h]
  exact Nat.lt_succ_of_le (List.dropWhile_suffix p).length_le

theorem length_readNumber_le (cs : List Char) :
    (readNumber cs).2.2.length ≤ (cs.dropWhile Char.isDigit).length := by
  unfold readNumber
  split
  · rename_i d tail hrest
    rw [hrest]
    split
    · have := (List.dropWhile_suffix Char.isDigit (l := d :: tail)).length_le
      simp only [List.length_cons] at this ⊢
      omega
    · exact Nat.le_refl _
  · exact Nat.le_refl _

theorem length_symbol?_lt {cs rest : List Char} {kind : Kind} {text : String}
    (h : symbol? cs = some (kind, text, rest)) : rest.length < cs.length := by
  unfold symbol? at h
  split at h <;> cases h <;> simp only [List.length_cons] <;> omega

theorem length_read_lt {l l' : Lexer} {t : Token} (h : l.read = (.ok t, l'))
    (ht : t.kind ≠ .eof) : l'.rest.length < l.rest.length := by
  unfold read at h
  split at h
  · cases h
    exact absurd rfl ht
  · rename_i c cs hrest
    rw [hrest]
    split at h
    · exact length_readString_lt h
    split at h
    · rename_i hdigit
      have := length_dropWhile_cons_lt cs hdigit
      have := length_readNumber_le (c :: cs)
      split at h <;> cases h
      simp_all only
      omega
    split at h
    · rename_i hword
      cases h
      refine length_dropWhile_cons_lt cs ?_
      simp_all [isWordStart, isWordPart, Char.isAlphanum]
    split at h
    · cases h
      exact Nat.lt_succ_of_le (List.dropWhile_suffix _).length_le
    split at h
    · cases h
      exact length_symbol?_lt (by assumption)
    · cases h

/-- **Progress.** A token other than the end marker takes at least one character. -/
theorem next_length_lt {l l' : Lexer} {t : Token} (h : l.next = (.ok t, l'))
    (ht : t.kind ≠ .eof) : l'.rest.length < l.rest.length :=
  Nat.lt_of_lt_of_le (length_read_lt h ht) l.length_skipBlanks_le

/-- The tokens from here on, up to and including the end marker. -/
def tokens (l : Lexer) : Except LexError (List Token) :=
  match h : l.next with
  | (.error e, _) => .error e
  | (.ok t, l') =>
    if ht : t.kind = .eof then .ok [t]
    else
      have := next_length_lt h ht
      match l'.tokens with
      | .ok ts => .ok (t :: ts)
      | .error e => .error e
termination_by l.rest.length
decreasing_by assumption

end Lexer

/-- **The tokens of a text**, the last one being the end marker. -/
def scan (source : String) : Except LexError (List Token) :=
  (Lexer.ofString source).tokens

end WhereClause
