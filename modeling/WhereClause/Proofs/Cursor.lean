import Mathlib.Data.List.TakeWhile
import WhereClause.Proofs.Grammar
import WhereClause.Expr.Parser

/-!
# Parsing with an index and a counter

A `Parser` hands on the tokens that are left, and there is one parser for every number of levels
that are left. The same expressions can be read by a machine that keeps all tokens in one list, with
an index of the current token and a counter of the levels in use. The machine has to do by hand what
the types of the parsers do by themselves. It must not look for a token outside of the list, it must
put the counter back behind everything that it went down for, also where that ends in an error, and
its loops must come to an end.

None of this is built into the machine here. A `Machine` may break down, which is the answer `none`:
it does so where an index has no token, where the counter would go below zero, where a loop goes
round more often than there are tokens, and where the machine calls itself more often than the
counter can have stopped it. It also keeps the `Moment`s that it went through, so that something can
be said about all of them and not only about the last one.

* `Cursor` — the tokens, the index, the counter, and the moments before;
* `Machine.loop` — a loop, which breaks down where it would go round for ever;
* `Machine.expression`, `Machine.whole` — an expression at the index, and one with nothing after it;
* `Cursor.answers?` — the answers to several calls in turn, made on one cursor;
* `TokenStream.answers` — the answers of the parsers to the same calls.
-/

namespace WhereClause

/-! ### Cursors -/

/-- **A moment in the work of the machine**: the index of the current token and the number of
levels in use. -/
structure Moment where
  current : Nat
  depth : Nat

/-- **The state of the machine.** The moments of the past stand with the latest one first. -/
structure Cursor extends Moment where
  tokens : List Token
  past : List Moment

namespace Cursor

/-- Every moment up to now, the latest one first. -/
def moments (c : Cursor) : List Moment :=
  c.toMoment :: c.past

/-- Another moment follows. All changes of a cursor are made by this. -/
def become (c : Cursor) (m : Moment) : Cursor :=
  { c with toMoment := m, past := c.moments }

/-- One token further. -/
def forth (c : Cursor) : Cursor :=
  c.become ⟨c.current + 1, c.depth⟩

/-- One level down. -/
def down (c : Cursor) : Cursor :=
  c.become ⟨c.current, c.depth + 1⟩

/-- One level up, if there is one. -/
def up? (c : Cursor) : Option Cursor :=
  match c.depth with
  | 0 => none
  | d + 1 => some (c.become ⟨c.current, d⟩)

/-- The tokens with an end marker behind them, if they do not end with one. It stands on the line of
the last token. -/
def completed (ts : List Token) : List Token :=
  match ts.getLast? with
  | none => [.eof 1]
  | some t => if t.kind = .eof then ts else ts ++ [.eof t.line]

/-- The machine before its first call. -/
def start (ts : List Token) : Cursor where
  tokens := completed ts
  current := 0
  depth := 0
  past := []

end Cursor

/-! ### Completed tokens -/

section Completed

variable {ts : List Token}

/-- The first end marker, and what is around it. -/
theorem exists_first_eof (h : ∃ t ∈ ts, t.kind = .eof) : ∃ front e after,
    ts = front ++ e :: after ∧ e.kind = .eof ∧ ∀ t ∈ front, t.kind ≠ .eof := by
  induction ts with
  | nil =>
    obtain ⟨t, ht, -⟩ := h
    cases ht
  | cons t ts ih =>
    by_cases hkind : t.kind = .eof
    · exact ⟨[], t, ts, rfl, hkind, List.forall_mem_nil _⟩
    · -- this token is not the one that was promised, so that comes later
      have hrest : ∃ t ∈ ts, t.kind = .eof := by
        obtain ⟨t', ht', hkind'⟩ := h
        rcases List.mem_cons.mp ht' with rfl | ht'
        · exact absurd hkind' hkind
        · exact ⟨t', ht', hkind'⟩
      obtain ⟨front, e, after, rfl, he, hfront⟩ := ih hrest
      exact ⟨t :: front, e, after, rfl, he, List.forall_mem_cons.mpr ⟨hkind, hfront⟩⟩

/-- A stream ends at the first end marker. -/
theorem TokenStream.ofList_append_eof {front after : List Token} {e : Token}
    (hfront : ∀ t ∈ front, t.kind ≠ .eof) (he : e.kind = .eof) :
    TokenStream.ofList (front ++ e :: after) = ⟨front, e.line⟩ := by
  have hpos : ∀ t ∈ front, (t.kind != .eof) = true := fun t ht => bne_iff_ne.mpr (hfront t ht)
  -- the tokens in front are taken, and the marker is where this stops
  have hneg : ¬ (e.kind != .eof) = true := by simp [he]
  unfold TokenStream.ofList
  rw [List.takeWhile_append_of_pos hpos, List.dropWhile_append_of_pos hpos,
    List.takeWhile_cons, List.dropWhile_cons, if_neg hneg, if_neg hneg, List.append_nil]

/-- With an end marker among them, the tokens are those of the stream, the first end marker and what
is behind it. -/
theorem TokenStream.exists_end (h : ∃ t ∈ ts, t.kind = .eof) : ∃ e after,
    ts = (TokenStream.ofList ts).tokens ++ e :: after ∧ e.kind = .eof ∧
      e.line = (TokenStream.ofList ts).endLine ∧
      ∀ t ∈ (TokenStream.ofList ts).tokens, t.kind ≠ .eof := by
  obtain ⟨front, e, after, rfl, he, hfront⟩ := exists_first_eof h
  rw [TokenStream.ofList_append_eof hfront he]
  exact ⟨e, after, rfl, he, rfl, hfront⟩

/-- Without an end marker, the stream has all tokens and ends on the line of the last one. -/
theorem TokenStream.ofList_of_forall_ne_eof (h : ∀ t ∈ ts, t.kind ≠ .eof) :
    TokenStream.ofList ts = ⟨ts, (ts.getLast?.map (·.line)).getD 1⟩ := by
  have hpos : ∀ t ∈ ts, (t.kind != .eof) = true := fun t ht => bne_iff_ne.mpr (h t ht)
  unfold TokenStream.ofList
  rw [List.takeWhile_eq_self_iff.mpr hpos, List.dropWhile_eq_nil_iff.mpr hpos]

namespace Cursor

/-- There is an end marker in completed tokens. -/
theorem exists_eof_completed (ts : List Token) : ∃ t ∈ completed ts, t.kind = .eof := by
  unfold completed
  -- a marker at the end is not doubled, and in all other cases one is added
  cases hlast : ts.getLast? with
  | none => exact ⟨.eof 1, List.mem_singleton_self _, rfl⟩
  | some t =>
    by_cases hkind : t.kind = .eof
    · simp only [if_pos hkind]
      exact ⟨t, List.mem_of_getLast? hlast, hkind⟩
    · simp only [if_neg hkind]
      exact ⟨.eof t.line, List.mem_append_right _ (List.mem_singleton_self _), rfl⟩

/-- The end marker that is added changes nothing in the stream of the tokens. -/
theorem ofList_completed (ts : List Token) :
    TokenStream.ofList (completed ts) = TokenStream.ofList ts := by
  unfold completed
  cases hlast : ts.getLast? with
  | none =>
    rw [List.getLast?_eq_none_iff.mp hlast]
    rfl
  | some t =>
    by_cases hkind : t.kind = .eof
    · simp only [if_pos hkind]
    · simp only [if_neg hkind]
      -- the marker that is added matters only where there is no other one
      by_cases hends : ∃ t ∈ ts, t.kind = .eof
      · obtain ⟨front, e, after, rfl, he, hfront⟩ := exists_first_eof hends
        rw [List.append_assoc, List.cons_append, TokenStream.ofList_append_eof hfront he,
          TokenStream.ofList_append_eof hfront he]
      · have hts : ∀ t ∈ ts, t.kind ≠ .eof := fun t ht hkind => hends ⟨t, ht, hkind⟩
        rw [TokenStream.ofList_append_eof hts rfl, TokenStream.ofList_of_forall_ne_eof hts, hlast]
        rfl

end Cursor

end Completed

/-! ### Machines -/

/-- **A machine** changes a cursor and gives an answer. A parse error is an answer too, and leaves
the cursor where it is. There is no answer at all where the machine breaks down. -/
abbrev Machine (α : Type) : Type :=
  ExceptT ParseError (StateT Cursor Option) α

/-- A complaint about a token, which is not named where it is the end marker. -/
def ParseError.about (t : Token) (c : Complaint) : ParseError :=
  ⟨c, t.line, if t.kind = .eof then none else some t⟩

namespace Machine

/-- The token at an index, which has to be there. -/
def tokenAt (i : Nat) : Machine Token :=
  fun c => c.tokens[i]?.map fun t => (.ok t, c)

/-- The current token. -/
def peek : Machine Token :=
  fun c => tokenAt c.current c

/-- The token before the current one. -/
def previous : Machine Token :=
  fun c =>
    match c.current with
    | 0 => none
    | i + 1 => tokenAt i c

/-- The kind of the token after the current one, the list being followed by end markers. -/
def nextKind : Machine Kind :=
  fun c => some (.ok (c.tokens[c.current + 1]?.elim .eof (·.kind)), c)

/-- Whether the current token is the end marker. -/
def atEnd : Machine Bool := do
  let t ← peek
  pure (t.kind == .eof)

/-- Goes on behind the current token, but never behind the end marker, and answers the token that
is then the previous one. -/
def advance : Machine Token := do
  if ← atEnd then previous
  else do
    (fun c => some (.ok (), c.forth) : Machine Unit)
    previous

/-- Whether the current token is of a kind, and not the end marker. -/
def check (kind : Kind) : Machine Bool := do
  if ← atEnd then pure false
  else do
    let t ← peek
    pure (t.kind == kind)

/-- Goes on behind the current token if it is of one of the kinds asked for. -/
def matchAny (kinds : List Kind) : Machine (Option Token) := do
  if ← kinds.anyM check then do
    let t ← advance
    pure (some t)
  else pure none

/-- Complains about the current token. -/
def failHere {α : Type} (c : Complaint) : Machine α := do
  let t ← peek
  throw (.about t c)

/-- Goes on behind the current token, which has to be of the kind asked for. -/
def expect (kind : Kind) (c : Complaint) : Machine Token := do
  if ← check kind then advance else failHere c

/-- Goes one level down, unless the limit is reached. -/
def descend : Machine Unit :=
  fun c => if Parser.maxLevels ≤ c.depth then failHere .tooDeep c else some (.ok (), c.down)

/-! ### Loops -/

/-- A loop that may go round so many times. Each round answers whether it is the last one. -/
def rounds {α : Type} (round : α → Machine (ForInStep α)) : Nat → α → Machine α
  | 0, _ => fun _ => none
  | n + 1, a => do
    match ← round a with
    | .done b => pure b
    | .yield b => rounds round n b

/-- **A loop.** Where it goes round more often than there are tokens it will never end. -/
def loop {α : Type} (round : α → Machine (ForInStep α)) (a : α) : Machine α :=
  fun c => rounds round (c.tokens.length + 1) a c

/-- Extends a name by one segment, if one follows it. -/
def segmentRound (name : String) : Machine (ForInStep String) := do
  if (← check .dot) && (← nextKind) == .identifier then do
    let _ ← advance
    let w ← advance
    pure (.yield (name ++ "." ++ w.lexeme))
  else pure (.done name)

/-- A dotted name, if the current token starts one. -/
def dottedName : Machine (Option String) := do
  match ← matchAny [.identifier] with
  | none => pure none
  | some t => do
    let name ← loop segmentRound t.lexeme
    pure (some name)

/-- Goes on with `body` behind a token of one of the kinds asked for, and ends where there is
none. -/
def chainRound {α : Type} (kinds : List Kind) (body : α → Token → Machine α) (a : α) :
    Machine (ForInStep α) := do
  match ← matchAny kinds with
  | none => pure (.done a)
  | some t => do
    let b ← body a t
    pure (.yield b)

/-- An operator with its right operand. -/
def infixBody (operand : Machine Expr) (left : Expr) (op : Token) : Machine Expr := do
  let right ← operand
  pure (.binary left op right)

/-- A tier whose operators all have the same operands. -/
def infixes (t : Tier) (operand : Machine Expr) : Machine Expr := do
  let first ← operand
  loop (chainRound t.operators (infixBody operand)) first

/-! ### The rules

The rules call each other in two places: what follows a prefix operator, and what stands in
parentheses. Both are one level down. They come up again whatever the answer was, and so look at the
answer from outside. -/

/-- Goes one level down, and comes up again behind the answer. -/
def nested {α : Type} (m : Machine α) : Machine α := do
  descend
  -- an error is an answer here, so the way up is not skipped
  fun c => do
    let (answer, c) ← m c
    let c ← c.up?
    pure (answer, c)

/-- **The two ways down**: what follows a prefix operator, and what stands in parentheses. -/
structure Inner where
  signed : Machine Expr
  expression : Machine Expr

section Rules

variable (inner : Inner)

/-- The argument behind a comma. -/
def argumentBody (before : List Expr) (_ : Token) : Machine (List Expr) := do
  let e ← inner.expression
  pure (before ++ [e])

/-- One or more expressions with commas between them. -/
def arguments : Machine (List Expr) := do
  let first ← inner.expression
  loop (chainRound [.comma] (argumentBody inner)) [first]

/-- A literal, or an expression in parentheses. -/
def primary : Machine Expr := do
  let t ← peek
  match t.kind with
  | .kwFalse => do let _ ← advance; pure (.literal (.boolean false))
  | .kwTrue => do let _ ← advance; pure (.literal (.boolean true))
  | .kwNull => do let _ ← advance; pure (.literal .null)
  | .string | .number =>
    match t.literal with
    | some v => do let _ ← advance; pure (.literal v)
    | none => throw (.about t .literalWithoutValue)
  | .leftParen => do
    let _ ← advance
    let e ← inner.expression
    let _ ← expect .rightParen .expectedCloseOfGrouping
    pure (.grouping e)
  | _ => throw (.about t .expectedExpression)

/-- What follows a name: its arguments, if it is the name of a function. -/
def callOrName (name : String) : Machine Expr := do
  match ← matchAny [.leftParen] with
  | none => pure (.identifier name)
  | some _ => do
    -- the parenthesis is only looked at here, and taken below
    let args ← if ← check .rightParen then pure [] else arguments inner
    let close ← expect .rightParen .expectedCloseOfArguments
    pure (.call (.identifier name) close args)

/-- A name or a call, or else a primary expression. -/
def call : Machine Expr := do
  match ← dottedName with
  | none => primary inner
  | some name => callOrName inner name

/-- A parameter, or else a call or more. -/
def parameter : Machine Expr := do
  match ← matchAny [.parameter] with
  | some t => pure (.parameter t.lexeme)
  | none => call inner

/-- A prefix operator with its operand, or else a parameter or more. -/
def unary : Machine Expr := do
  match ← matchAny [.kwNot, .minus] with
  | some op => do
    let x ← inner.signed
    pure (.unary op x)
  | none => parameter inner

/-- The right side of `in`. -/
def target : Machine Expr := do
  match ← matchAny [.leftParen] with
  | some _ => do
    let items ← arguments inner
    let _ ← expect .rightParen .expectedCloseOfList
    pure (.list items)
  | none => do
    let first ← unary inner
    match ← matchAny [.dotDot] with
    | none => failHere .expectedInTarget
    | some op => do
      let last ← unary inner
      pure (.binary first op last)

/-- Comparisons. -/
def comparison : Machine Expr :=
  infixes .comparison (unary inner)

/-- An operator of the tier of `in` with its right side. -/
def equalityBody (left : Expr) (op : Token) : Machine Expr :=
  infixBody (if op.kind = .kwIn then target inner else comparison inner) left op

/-- One round of that tier. The word `between` is refused in the place of an operator. -/
def equalityRound (left : Expr) : Machine (ForInStep Expr) := do
  if ← check .kwBetween then failHere .betweenReserved
  else chainRound Tier.equality.operators (equalityBody inner) left

/-- The tier of `in`, which has right sides of its own. -/
def equality : Machine Expr := do
  let first ← comparison inner
  loop (equalityRound inner) first

/-- The loosest tier. -/
def disjunction : Machine Expr :=
  infixes .disjunction (infixes .conjunction (equality inner))

end Rules

/-- The ways down for a machine that may call itself so many times. -/
def inner : Nat → Inner
  | 0 => ⟨fun _ => none, fun _ => none⟩
  | n + 1 => ⟨nested (unary (inner n)), nested (disjunction (inner n))⟩

/-- **An expression**, one level down. The counter stops the machine before it calls itself this
often. -/
def expression : Machine Expr :=
  (inner (Parser.maxLevels + 1)).expression

/-- An expression with nothing after it. -/
def whole : Machine Expr := do
  let e ← expression
  if ← atEnd then pure e else failHere .expectedEnd

end Machine

/-! ### Several demands in turn -/

/-- **What can be asked for**: an expression at the index, or one with nothing after it. -/
inductive Demand where
  | expression
  | whole

/-- The machine for a demand. -/
def Demand.machine : Demand → Machine Expr
  | expression => .expression
  | whole => .whole

/-- **The answers to several demands in turn**, each with the cursor that it leaves to the next
one. An error is an answer, and the next demand goes on from there. -/
def Cursor.answers? (c : Cursor) : List Demand → Option (List (Except ParseError Expr × Cursor))
  | [] => some []
  | q :: qs => do
    let (answer, c') ← q.machine c
    let more ← c'.answers? qs
    pure ((answer, c') :: more)

/-- The parser for a demand. -/
def Demand.onStream : Demand → TokenStream → Except ParseError Expr × TokenStream
  | expression, s => s.parseExpression
  | whole, s => s.parse

/-- The answers to several demands in turn, each with the stream that it leaves to the next one. -/
def TokenStream.answers (s : TokenStream) :
    List Demand → List (Except ParseError Expr × TokenStream)
  | [] => []
  | q :: qs => q.onStream s :: (q.onStream s).2.answers qs

end WhereClause
