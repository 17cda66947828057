import WhereClause.Proofs.SqlReading
import WhereClause.Proofs.Takes

/-!
# How a database groups SQL text

An SQL text has no tree of its own. A database groups its operators by their binding strength, and
this grouping is what the text means. By the usual strengths, from the loosest on:

```text
expression  := conjunction ("or" conjunction)*
conjunction := predicate ("and" predicate)*
predicate   := tight (("=" | "<>" | ">" | ">=" | "<" | "<=" | "like") tight
                     | "is" "not"? tight | "in" target)*
target      := "(" arguments ")" | tight ".." tight
tight       := "not" predicate | "-" tight | operand
```

All comparisons bind alike. The word `not` is looser than these, so it takes the whole predicate
that follows it, wherever it stands; only behind `is` it is a part of that operator. A range is read
in the form `x in a .. b`, which `resolve` brings it to, and operands are those of the language.

The trees of a filter follow other rules, in which `not` is as tight as a minus sign. What matters
for the difference is where in a tree a comparison has a `not` on its left.

* `Sql.tokens`, `Sql.tokens_of_spelled` — the tokens of an SQL text;
* `Sql.grade` — the parsers by binding strength, for each number of levels;
* `Sql.read` — the tree of an SQL text;
* `Expr.isUnchained` — trees in which no comparison is an operand of another one;
* `Expr.negatesLeft` — whether a comparison has a `not` on its left.
-/

namespace WhereClause

/-! ### Tokens of SQL text -/

namespace Sql

/-- The token at the front of an SQL text, and the text behind it. -/
def readToken : List Char → Option (Token × List Char)
  -- the placeholder of a parameter is the only token that the language does not have
  | '$' :: '\x7b' :: cs =>
    match cs.dropWhile Lexer.isWordPart with
    | '\x7d' :: rest =>
      let name := cs.takeWhile Lexer.isWordPart
      if isWord name then some (⟨.parameter, String.ofList name, none, 1⟩, rest) else none
    | _ => none
  | cs =>
    match (⟨cs, 1⟩ : Lexer).read with
    | (.ok t, l) => some (t, l.rest)
    | (.error _, _) => none

/-- **The tokens of an SQL text**, all of them on the first line. -/
def tokens : List Char → Option (List Token)
  | [] => some []
  | c :: cs =>
    if Lexer.isSeparator c then tokens cs
    else
      match readToken (c :: cs) with
      | some (t, rest) =>
        -- always true, as no token is empty; it is asked for the recursion to end
        if rest.length < (c :: cs).length then (tokens rest).map (t :: ·) else none
      | none => none
termination_by cs => cs.length
decreasing_by
  · exact Nat.lt_succ_self _
  · assumption

/-- The token at the front is the one that is spelled there. -/
theorem readToken_of_spells {t : Token} {x r : List Char} (h : Spells t x)
    (hr : Apart t.kind x r) : readToken (x ++ r) = some (t.atLine 1, r) := by
  cases h with
  | plain h =>
    rw [readToken]
    · rw [Lexer.read_of_spells h hr 1]
    · -- no token of the language starts like a placeholder
      intro cs heq
      exact not_spells_dollar h hr heq
  | @placeholder w _ hw =>
    have hall : w.all Lexer.isWordPart := (Bool.and_eq_true_iff.mp hw).2
    have hbrace : Clear Lexer.isWordPart ('\x7d' :: r) := clear_cons.mpr (by decide)
    have hx : '$' :: '\x7b' :: w ++ ['\x7d'] ++ r = '$' :: '\x7b' :: (w ++ '\x7d' :: r) := by simp
    rw [hx, readToken, dropWhile_append_clear hall hbrace, takeWhile_append_clear hall hbrace]
    exact if_pos hw

/-- **The tokens of an SQL text are those that spell it.** -/
theorem tokens_of_spelled {ts : List Token} {x : List Char} (h : Spelled Spells ts x) :
    tokens x = some (ts.map (·.atLine 1)) := by
  induction h with
  | nil => rw [tokens]; rfl
  | blank hc _ ih => rw [tokens, if_pos hc, ih]
  | @token t ts x r ht hr _ ih =>
    have hread := readToken_of_spells ht hr
    obtain ⟨c, cs, rfl, hgraphic⟩ := ht.starts
    -- no spelling is empty, so the recursion goes on with less text
    have hlength : r.length < (c :: (cs ++ r)).length := by
      rw [List.length_cons, List.length_append]
      omega
    rw [List.cons_append] at hread ⊢
    rw [tokens, if_neg (not_isSeparator_of_isGraphic hgraphic), hread]
    dsimp only
    rw [if_pos hlength, ih]
    rfl

/-! ### Grouping by binding strength -/

/-- The operators of predicates, which all bind alike. -/
def predicateOperators : List Kind :=
  Tier.equality.operators ++ Tier.comparison.operators

/-- **The parsers by binding strength.** -/
structure Grade where
  tight : Parser Expr
  predicate : Parser Expr
  expression : Parser Expr

/-- What `is` compares with. A `not` behind it belongs to the operator, and takes no more than the
operator would. -/
def isTarget (below : Grade) (tight : Parser Expr) : Parser Expr := do
  match ← Parser.accept [.kwNot] with
  | some operator =>
    let x ← below.tight
    pure (.unary operator x)
  | none => tight

/-- The right side of a predicate. -/
def predicateRight (below : Grade) (tight : Parser Expr) (operator : Token) : Parser Expr :=
  if operator.kind = .kwIn then Parser.inTarget tight below.expression
  else if operator.kind = .kwIs then isTarget below tight
  else tight

/-- Operands with the operators of predicates between them, grouped from the left. -/
def predicates (below : Grade) (tight : Parser Expr) : Parser Expr := do
  let first ← tight
  Parser.chain predicateOperators (fun left operator => do
    let right ← predicateRight below tight operator
    pure (.binary left operator right)) first

/-- What a prefix operator takes: `not` a whole predicate, a minus sign only what is tight. -/
def prefixOperand (below : Grade) (operator : Token) : Parser Expr :=
  if operator.kind = .kwNot then below.predicate else below.tight

/-- A prefix operator with what it takes, or else an operand. -/
def prefixed (below : Grade) : Parser Expr := do
  match ← Parser.accept [.kwNot, .minus] with
  | some operator =>
    let x ← prefixOperand below operator
    pure (.unary operator x)
  | none => Parser.operand below.expression

/-- The parsers from which `below` is one level down. -/
def Grade.above (below : Grade) : Grade :=
  let tight := prefixed below
  let predicate := predicates below tight
  ⟨tight, predicate, Parser.infixes [.kwOr] (Parser.infixes [.kwAnd] predicate)⟩

/-- The parsers with a given number of levels left. -/
def grade : Nat → Grade
  | 0 => ⟨Parser.fail .tooDeep, Parser.fail .tooDeep, Parser.fail .tooDeep⟩
  | n + 1 => (grade n).above

/-- **The tree of a list of tokens**, if all of them make one. Every level takes a token, so there
are as many levels as could be used. -/
def group? (ts : List Token) : Option Expr :=
  match (grade ts.length).expression ts with
  | ⟨.ok e, [], _⟩ => some e
  | _ => none

/-- There is a tree if the parsers take all tokens. -/
theorem group?_eq_some_iff {ts : List Token} {e : Expr} :
    group? ts = some e ↔ (grade ts.length).expression.Takes ts e [] := by
  unfold group? Parser.Takes
  cases (grade ts.length).expression ts with
  | mk result rest _ =>
    cases result with
    | error _ => simp
    | ok e' => cases rest <;> simp

/-- **Reads an SQL text** as a database groups it. -/
def read (text : String) : Option Expr :=
  (tokens text.toList).bind fun ts => group? (resolve [false] ts)

end Sql

/-! ### Comparisons in trees -/

/-- Whether a token is an operator of a predicate. -/
def Token.compares (t : Token) : Bool :=
  Sql.predicateOperators.contains t.kind

theorem Token.compares_iff {t : Token} : t.compares ↔ t.kind ∈ Sql.predicateOperators :=
  List.contains_iff_mem

namespace Expr

/-- Whether a tree is a comparison. -/
def isComparison : Expr → Bool
  | binary _ op _ => op.compares
  | _ => false

mutual

/-- **Whether some node of a tree has a property**, the root included. -/
def someNode (p : Expr → Bool) : Expr → Bool
  | leaf l => p (leaf l)
  | unary op x => p (unary op x) || x.someNode p
  | binary l op r => p (binary l op r) || l.someNode p || r.someNode p
  | grouping x => p (grouping x) || x.someNode p
  | call callee close args => p (call callee close args) || callee.someNode p || someNodeOf p args
  | list items => p (list items) || someNodeOf p items

/-- Whether some node of several trees has a property. -/
def someNodeOf (p : Expr → Bool) : List Expr → Bool
  | [] => false
  | e :: es => e.someNode p || someNodeOf p es

end

/-- Whether a tree compares something outside of parentheses. -/
def isComparing : Expr → Bool
  | unary _ x => x.isComparing
  | binary l op r => op.compares || l.isComparing || r.isComparing
  | _ => false

/-- Whether a tree has a `not` in front, or behind other prefix operators. -/
def isNegated : Expr → Bool
  | unary op x => op.kind == .kwNot || x.isNegated
  | _ => false

/-- Whether a tree is a comparison of which an operand compares something. -/
def isChain : Expr → Bool
  | binary l op r => op.compares && (l.isComparing || r.isComparing)
  | _ => false

/-- Whether a tree is a comparison with a `not` on its left. -/
def isLeftNegated : Expr → Bool
  | binary l op _ => op.compares && l.isNegated
  | _ => false

/-- **No chains**: there is at most one comparison in each operand of `and` and `or`, outside of
parentheses. -/
def isUnchained (e : Expr) : Bool :=
  !e.someNode isChain

/-- **Whether some comparison has a `not` on its left**, outside of parentheses. -/
def negatesLeft (e : Expr) : Bool :=
  e.someNode isLeftNegated

section Comparison

variable {l r : Expr} {op : Token}

theorem isUnchained_iff {e : Expr} : e.isUnchained ↔ e.someNode isChain = false := by
  simp [isUnchained]

/-- A comparison, and the comparisons in its operands. -/
theorem negatesLeft_comparison (h : op.compares) :
    (binary l op r).negatesLeft = false ↔
      l.isNegated = false ∧ l.negatesLeft = false ∧ r.negatesLeft = false := by
  simp [negatesLeft, someNode, isLeftNegated, h, and_assoc]

/-- No operand of a comparison may compare anything itself. -/
theorem isUnchained_comparison (h : op.compares) :
    (binary l op r).isUnchained ↔
      (l.isComparing = false ∧ r.isComparing = false) ∧ l.isUnchained ∧ r.isUnchained := by
  simp [isUnchained, someNode, isChain, h, and_assoc]

/-- A comparison compares something. -/
theorem isComparing_comparison (h : op.compares) : (binary l op r).isComparing := by
  simp [isComparing, h]

end Comparison

/-! Lines make no difference to any of this. -/

section AtLine

variable {n : Nat}

theorem isNegated_atLine : ∀ e : Expr, (e.atLine n).isNegated = e.isNegated
  | unary op x => by rw [atLine, isNegated, isNegated, isNegated_atLine x, Token.kind_atLine]
  | leaf _ | binary _ _ _ | grouping _ | call _ _ _ | list _ => rfl

theorem isComparing_atLine : ∀ e : Expr, (e.atLine n).isComparing = e.isComparing
  | unary op x => by rw [atLine, isComparing, isComparing, isComparing_atLine x]
  | binary l op r => by
    rw [atLine, isComparing, isComparing, isComparing_atLine l, isComparing_atLine r]
    rfl
  | leaf _ | grouping _ | call _ _ _ | list _ => rfl

mutual

/-- What does not depend on lines in any node does not in the tree. -/
theorem someNode_atLine {p : Expr → Bool} (hp : ∀ e, p (e.atLine n) = p e) : ∀ e : Expr,
    (e.atLine n).someNode p = e.someNode p
  | leaf _ => rfl
  | unary op x => by
    rw [atLine, someNode, someNode, ← atLine, hp, someNode_atLine hp x]
  | binary l op r => by
    rw [atLine, someNode, someNode, ← atLine, hp, someNode_atLine hp l, someNode_atLine hp r]
  | grouping x => by
    rw [atLine, someNode, someNode, ← atLine, hp, someNode_atLine hp x]
  | call callee close args => by
    rw [atLine, someNode, someNode, ← atLine, hp, someNode_atLine hp callee,
      someNodeOf_atLine hp args]
  | list items => by
    rw [atLine, someNode, someNode, ← atLine, hp, someNodeOf_atLine hp items]

/-- The same for several trees. -/
theorem someNodeOf_atLine {p : Expr → Bool} (hp : ∀ e, p (e.atLine n) = p e) : ∀ es : List Expr,
    someNodeOf p (atLineAll n es) = someNodeOf p es
  | [] => rfl
  | e :: es => by
    rw [atLineAll, someNodeOf, someNodeOf, someNode_atLine hp e, someNodeOf_atLine hp es]

end

/-- Whether there are chains does not depend on lines. -/
theorem isUnchained_atLine (e : Expr) : (e.atLine n).isUnchained = e.isUnchained := by
  refine congrArg not (someNode_atLine (fun e => ?_) e)
  cases e with
  | binary l op r =>
    rw [atLine, isChain, isChain, isComparing_atLine, isComparing_atLine]
    rfl
  | _ => rfl

/-- Whether a `not` is on the left of a comparison does not depend on lines. -/
theorem negatesLeft_atLine (e : Expr) : (e.atLine n).negatesLeft = e.negatesLeft := by
  refine someNode_atLine (fun e => ?_) e
  cases e with
  | binary l op r =>
    rw [atLine, isLeftNegated, isLeftNegated, isNegated_atLine]
    rfl
  | _ => rfl

end AtLine

end Expr

end WhereClause
