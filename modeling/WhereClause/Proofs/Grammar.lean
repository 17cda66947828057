import WhereClause.Expr

/-!
# The grammar of expressions

Which lists of tokens spell which trees, said without a parser. The productions are those of the
language, from the loosest to the tightest binding:

```text
disjunction := conjunction | disjunction "or" conjunction
conjunction := equality | conjunction "and" equality
equality    := comparison | equality ("=" | "<>" | "is" | "like") comparison | equality "in" target
comparison  := unary | comparison (">" | ">=" | "<" | "<=") unary
target      := "(" arguments ")" | unary ".." unary          (the range not starting with "(")
unary       := ("not" | "-") unary | operand
operand     := PARAMETER | name | name "(" ")" | name "(" arguments ")" | literal
             | "(" disjunction ")"
name        := IDENTIFIER | name "." IDENTIFIER
arguments   := disjunction | arguments "," disjunction
```

The four infix tiers differ in their operators and operands only, so they share two productions
over a `Tier`. Left recursion makes their chains group from the left. The arguments of a call and
the members of a list are derived as one `Expr.list`, which keeps `Derives` a single relation.

* `Derives r ts e` — the rule `r` derives the tree `e` from exactly the tokens `ts`;
* `Derives.starts` — every derivation uses a token, and which kinds come first;
* `Derives.operators_eq`, `Derives.leaves_eq` — the operators, and the leaves that are no names, are
  those of the tokens, in order.
-/

namespace WhereClause

/-! ### Tiers and rules -/

/-- **The tiers of infix operators**, the loosest first. -/
inductive Tier where
  | disjunction | conjunction | equality | comparison
deriving DecidableEq

/-- **The rules of the grammar.** -/
inductive Rule where
  | tier (t : Tier)
  | target | unary | operand | arguments
deriving DecidableEq

namespace Tier

/-- The operators of a tier. -/
def operators : Tier → List Kind
  | disjunction => [.kwOr]
  | conjunction => [.kwAnd]
  | equality => [.different, .equal, .kwIs, .kwIn, .kwLike]
  | comparison => [.greater, .greaterEqual, .less, .lessEqual]

/-- The rule for the operands of a tier, which is the next tighter one. -/
def operand : Tier → Rule
  | disjunction => .tier conjunction
  | conjunction => .tier equality
  | equality => .tier comparison
  | comparison => .unary

/-- The rule for what stands on the right of an operator. Only `in` has a rule of its own. -/
def right (t : Tier) (op : Kind) : Rule :=
  if op = .kwIn then .target else t.operand

end Tier

/-! ### Derivations -/

/-- The value of a literal token: of a reserved word its meaning, of a string or a number the value
that the token carries. -/
def Token.value? (t : Token) : Option Value :=
  match t.kind with
  | .kwFalse => some (.boolean false)
  | .kwTrue => some (.boolean true)
  | .kwNull => some .null
  | .string | .number => t.literal
  | _ => none

/-- **Dotted names**: identifiers with dots between them, and the name they make up. -/
inductive Named : List Token → String → Prop
  | one {t : Token} : t.kind = .identifier → Named [t] t.lexeme
  | more {ts : List Token} {name : String} {dot t : Token} :
      Named ts name → dot.kind = .dot → t.kind = .identifier →
      Named (ts ++ [dot, t]) (name ++ "." ++ t.lexeme)

/-- **The grammar.** The rule `r` derives a tree from a list of tokens. Operators and the closing
parentheses of calls in the tree are the very tokens of the list. -/
inductive Derives : Rule → List Token → Expr → Prop
  | lift {t : Tier} {ts : List Token} {e : Expr} :
      Derives t.operand ts e → Derives (.tier t) ts e
  | chain {t : Tier} {ts us : List Token} {op : Token} {l r : Expr} :
      Derives (.tier t) ts l → op.kind ∈ t.operators → Derives (t.right op.kind) us r →
      Derives (.tier t) (ts ++ op :: us) (.binary l op r)
  | members {opening close : Token} {ts : List Token} {items : List Expr} :
      opening.kind = .leftParen → Derives .arguments ts (.list items) → close.kind = .rightParen →
      Derives .target (opening :: ts ++ [close]) (.list items)
  | range {ts us : List Token} {op : Token} {first last : Expr} :
      Derives .unary ts first → (∀ t ∈ ts.head?, t.kind ≠ .leftParen) → op.kind = .dotDot →
      Derives .unary us last →
      Derives .target (ts ++ op :: us) (.binary first op last)
  | signed {op : Token} {ts : List Token} {x : Expr} :
      op.kind ∈ [Kind.kwNot, Kind.minus] → Derives .unary ts x →
      Derives .unary (op :: ts) (.unary op x)
  | plain {ts : List Token} {e : Expr} :
      Derives .operand ts e → Derives .unary ts e
  | parameter {t : Token} :
      t.kind = .parameter → Derives .operand [t] (.parameter t.lexeme)
  | literal {t : Token} {v : Value} :
      t.value? = some v → Derives .operand [t] (.literal v)
  | name {ts : List Token} {name : String} :
      Named ts name → Derives .operand ts (.identifier name)
  | callEmpty {ts : List Token} {name : String} {opening close : Token} :
      Named ts name → opening.kind = .leftParen → close.kind = .rightParen →
      Derives .operand (ts ++ [opening, close]) (.call (.identifier name) close [])
  | call {ts us : List Token} {name : String} {opening close : Token} {args : List Expr} :
      Named ts name → opening.kind = .leftParen → Derives .arguments us (.list args) →
      close.kind = .rightParen →
      Derives .operand (ts ++ opening :: us ++ [close]) (.call (.identifier name) close args)
  | grouping {opening close : Token} {ts : List Token} {e : Expr} :
      opening.kind = .leftParen → Derives (.tier .disjunction) ts e → close.kind = .rightParen →
      Derives .operand (opening :: ts ++ [close]) (.grouping e)
  | argument {ts : List Token} {e : Expr} :
      Derives (.tier .disjunction) ts e → Derives .arguments ts (.list [e])
  | arguments {ts us : List Token} {comma : Token} {before : List Expr} {e : Expr} :
      Derives .arguments ts (.list before) → comma.kind = .comma →
      Derives (.tier .disjunction) us e →
      Derives .arguments (ts ++ comma :: us) (.list (before ++ [e]))

/-- Every derived argument list has a member. -/
theorem Derives.items_ne_nil {ts : List Token} {items : List Expr}
    (h : Derives .arguments ts (.list items)) : items ≠ [] := by
  cases h <;> simp

/-! ### First tokens -/

/-- The kinds that what a rule derives may start with. Only operands have no sign in front. -/
def Rule.starters (r : Rule) : List Kind :=
  (if r = .operand then [] else [.kwNot, .minus]) ++
    [.identifier, .parameter, .string, .number, .kwFalse, .kwTrue, .kwNull, .leftParen]

/-- A name starts with a word. -/
theorem Named.starts {ts : List Token} {name : String} (h : Named ts name) :
    ∃ t us, ts = t :: us ∧ t.kind = .identifier := by
  induction h with
  | one h => exact ⟨_, [], rfl, h⟩
  | more _ _ _ ih =>
    obtain ⟨t, us, rfl, ht⟩ := ih
    exact ⟨t, us ++ _, rfl, ht⟩

/-- A literal is an operand. -/
theorem Token.kind_mem_starters_of_value? {t : Token} {v : Value} (h : t.value? = some v) :
    t.kind ∈ Rule.operand.starters := by
  unfold Token.value? at h
  split at h <;> simp_all [Rule.starters]

/-- **Every derivation uses a token**, and the first one is of a kind that the rule starts with. -/
theorem Derives.starts {r : Rule} {ts : List Token} {e : Expr} (h : Derives r ts e) :
    ∃ t us, ts = t :: us ∧ t.kind ∈ r.starters := by
  induction h with
  | @lift tier _ _ _ ih => cases tier <;> exact ih
  | argument _ ih => exact ih
  | plain _ ih =>
    obtain ⟨t, us, rfl, ht⟩ := ih
    exact ⟨t, us, rfl, List.mem_append_right _ ht⟩
  | parameter h => exact ⟨_, [], rfl, by simp [h, Rule.starters]⟩
  | literal h => exact ⟨_, [], rfl, Token.kind_mem_starters_of_value? h⟩
  | members h _ _ _ => exact ⟨_, _, rfl, by simp [h, Rule.starters]⟩
  | grouping h _ _ _ => exact ⟨_, _, rfl, by simp [h, Rule.starters]⟩
  | signed h _ _ =>
    -- a sign is what this rule starts with besides an operand
    have hsigns : ∀ k ∈ [Kind.kwNot, Kind.minus], k ∈ Rule.unary.starters := by decide
    exact ⟨_, _, rfl, hsigns _ h⟩
  | name h =>
    obtain ⟨t, us, rfl, ht⟩ := h.starts
    exact ⟨t, us, rfl, by simp [ht, Rule.starters]⟩
  | callEmpty h _ _ =>
    obtain ⟨t, us, rfl, ht⟩ := h.starts
    exact ⟨t, _, rfl, by simp [ht, Rule.starters]⟩
  | call h _ _ _ _ =>
    obtain ⟨t, us, rfl, ht⟩ := h.starts
    exact ⟨t, _, rfl, by simp [ht, Rule.starters]⟩
  | chain _ _ _ ih _ =>
    -- what has a left part starts with it
    obtain ⟨t, us, rfl, ht⟩ := ih
    exact ⟨t, _, rfl, ht⟩
  | range _ _ _ _ ih _ =>
    obtain ⟨t, us, rfl, ht⟩ := ih
    exact ⟨t, _, rfl, ht⟩
  | arguments _ _ _ ih _ =>
    obtain ⟨t, us, rfl, ht⟩ := ih
    exact ⟨t, _, rfl, ht⟩

/-! ### Operators and leaves -/

namespace Expr

mutual

/-- **The operators of a tree in source order.** -/
def operators : Expr → List Token
  | leaf _ => []
  | unary op x => op :: x.operators
  | binary l op r => l.operators ++ op :: r.operators
  | grouping x => x.operators
  | call callee _ args => callee.operators ++ operatorsOf args
  | list items => operatorsOf items

/-- The operators of several trees. -/
def operatorsOf : List Expr → List Token
  | [] => []
  | e :: es => e.operators ++ operatorsOf es

end

/-- The operators of two lists of trees. -/
theorem operatorsOf_append (es fs : List Expr) :
    operatorsOf (es ++ fs) = operatorsOf es ++ operatorsOf fs := by
  induction es with
  | nil => simp [operatorsOf]
  | cons e es ih => simp [operatorsOf, ih]

/-- The leaves of two lists of trees. -/
theorem leavesOf_append (es fs : List Expr) :
    leavesOf (es ++ fs) = leavesOf es ++ leavesOf fs := by
  induction es with
  | nil => simp [leavesOf]
  | cons e es ih => simp [leavesOf, ih]

end Expr

/-- Whether a token is an operator, which its kind decides wherever it stands. -/
def Token.isOperator (t : Token) : Bool :=
  match t.kind with
  | .kwAnd | .kwOr | .equal | .different | .less | .lessEqual | .greater | .greaterEqual | .kwIs
  | .kwLike | .kwIn | .dotDot | .minus | .kwNot => true
  | _ => false

/-- The leaf that a token makes by itself. Names are made of several tokens. -/
def Token.leaf? (t : Token) : Option Leaf :=
  if t.kind = .parameter then some (.parameter t.lexeme) else t.value?.map .literal

/-- Whether a leaf is anything but a name. -/
def Leaf.isUnnamed : Leaf → Bool
  | identifier _ => false
  | _ => true

/-- The tokens that are neither operators nor leaves: punctuation, and the segments of names. -/
def Token.IsMark (t : Token) : Prop :=
  t.kind ∈ [.leftParen, .rightParen, .comma, .dot, .identifier]

section Marks

variable {t : Token}

theorem Token.isOperator_of_isMark (h : t.IsMark) : ¬ t.isOperator := by
  unfold Token.isOperator
  cases hk : t.kind <;> simp_all [Token.IsMark]

theorem Token.leaf?_of_isMark (h : t.IsMark) : t.leaf? = none := by
  unfold Token.leaf? Token.value?
  cases hk : t.kind <;> simp_all [Token.IsMark]

theorem Token.value?_of_isOperator (h : t.isOperator) : t.value? = none := by
  unfold Token.value?
  unfold Token.isOperator at h
  cases hk : t.kind <;> simp_all

theorem Token.leaf?_of_isOperator (h : t.isOperator) : t.leaf? = none := by
  have hkind : t.kind ≠ .parameter := by
    intro hk
    simp [Token.isOperator, hk] at h
  rw [Token.leaf?, if_neg hkind, Token.value?_of_isOperator h, Option.map_none]

/-- Every operator of a tier is an operator. -/
theorem Token.isOperator_of_mem_tier {tier : Tier} (h : t.kind ∈ tier.operators) :
    t.isOperator := by
  unfold Token.isOperator
  cases tier <;> cases hk : t.kind <;> simp_all [Tier.operators]

/-- The signs are operators. -/
theorem Token.isOperator_of_sign (h : t.kind ∈ [Kind.kwNot, Kind.minus]) : t.isOperator := by
  unfold Token.isOperator
  cases hk : t.kind <;> simp_all

end Marks

/-- Whether a token can be part of a name. -/
def Token.isNamePart (t : Token) : Bool :=
  t.kind = .identifier || t.kind = .dot

/-- A name is made of words and dots. -/
theorem Named.isNamePart {ts : List Token} {name : String} (h : Named ts name) :
    ∀ t ∈ ts, t.isNamePart := by
  induction h with
  | one ht => simp [Token.isNamePart, ht]
  | more _ hdot ht ih =>
    intro t hmem
    rcases List.mem_append.mp hmem with hmem | hmem
    · exact ih t hmem
    · simp only [List.mem_cons, List.not_mem_nil, or_false] at hmem
      rcases hmem with rfl | rfl <;> simp [Token.isNamePart, hdot, ht]

/-- The tokens of a name are neither operators nor leaves. -/
theorem Named.isMark {ts : List Token} {name : String} (h : Named ts name) :
    ∀ t ∈ ts, t.IsMark := by
  intro t ht
  have hpart : t.kind = .identifier ∨ t.kind = .dot := by
    simpa [Token.isNamePart] using h.isNamePart t ht
  rcases hpart with hkind | hkind <;> simp [Token.IsMark, hkind]

theorem Named.filter_isOperator {ts : List Token} {name : String} (h : Named ts name) :
    ts.filter Token.isOperator = [] :=
  List.filter_eq_nil_iff.mpr fun t ht => Token.isOperator_of_isMark (h.isMark t ht)

theorem Named.filterMap_leaf? {ts : List Token} {name : String} (h : Named ts name) :
    ts.filterMap Token.leaf? = [] :=
  List.filterMap_eq_nil_iff.mpr fun t ht => Token.leaf?_of_isMark (h.isMark t ht)

/-- Parentheses add neither an operator nor a leaf to what they enclose. -/
theorem filter_enclosed {opening close : Token} (ho : opening.kind = .leftParen)
    (hc : close.kind = .rightParen) (ts : List Token) :
    (opening :: ts ++ [close]).filter Token.isOperator = ts.filter Token.isOperator ∧
      (opening :: ts ++ [close]).filterMap Token.leaf? = ts.filterMap Token.leaf? := by
  have ho : opening.IsMark := by simp [Token.IsMark, ho]
  have hc : close.IsMark := by simp [Token.IsMark, hc]
  constructor
  · simp [Token.isOperator_of_isMark ho, Token.isOperator_of_isMark hc]
  · simp [Token.leaf?_of_isMark ho, Token.leaf?_of_isMark hc]

/-- **The operators of a tree are those among its tokens**, in their order. -/
theorem Derives.operators_eq {r : Rule} {ts : List Token} {e : Expr} (h : Derives r ts e) :
    e.operators = ts.filter Token.isOperator := by
  -- Operators stand in the tree where they stand among the tokens. All that a production adds
  -- besides them are marks, and the filter drops those.
  induction h with
  | lift _ ih => exact ih
  | plain _ ih => exact ih
  | chain _ hop _ ihl ihr =>
    rw [Expr.operators, ihl, ihr, List.filter_append,
      List.filter_cons_of_pos (Token.isOperator_of_mem_tier hop)]
  | range _ _ hop _ ihl ihr => simp [Expr.operators, ihl, ihr, hop, Token.isOperator]
  | signed hop _ ih =>
    rw [Expr.operators, ih, List.filter_cons_of_pos (Token.isOperator_of_sign hop)]
  | members ho _ hc ih => rw [ih, (filter_enclosed ho hc _).1]
  | grouping ho _ hc ih => rw [Expr.operators, ih, (filter_enclosed ho hc _).1]
  | parameter h => simp [Expr.operators, h, Token.isOperator]
  | @literal t _ h =>
    -- operators have no value
    have hnone : ¬ t.isOperator := by
      intro hop
      rw [Token.value?_of_isOperator hop] at h
      cases h
    simp [Expr.operators, hnone]
  | name h => exact h.filter_isOperator.symm
  | callEmpty h ho hc =>
    have hparens := (filter_enclosed ho hc []).1
    rw [List.filter_append, h.filter_isOperator]
    exact hparens.symm
  | call h ho _ hc ih =>
    rw [List.append_assoc, List.filter_append, h.filter_isOperator, (filter_enclosed ho hc _).1,
      ← ih]
    rfl
  | argument _ ih => simp [Expr.operators, Expr.operatorsOf, ih]
  | @arguments _ _ comma _ _ _ hcomma _ ihs ih =>
    have hmark : comma.IsMark := by simp [Token.IsMark, hcomma]
    rw [List.filter_append, List.filter_cons_of_neg (Token.isOperator_of_isMark hmark), ← ih, ← ihs,
      Expr.operators, Expr.operatorsOf_append]
    simp [Expr.operators, Expr.operatorsOf]

/-- **The leaves of a tree that are no names are those that its tokens make**, in their order. -/
theorem Derives.leaves_eq {r : Rule} {ts : List Token} {e : Expr} (h : Derives r ts e) :
    e.leaves.filter Leaf.isUnnamed = ts.filterMap Token.leaf? := by
  -- As for the operators, but a name has to be dropped on both sides: it is one leaf of the tree
  -- and several marks among the tokens.
  induction h with
  | lift _ ih => exact ih
  | plain _ ih => exact ih
  | chain _ hop _ ihl ihr =>
    have hnone := Token.leaf?_of_isOperator (Token.isOperator_of_mem_tier hop)
    rw [Expr.leaves, List.filter_append, ihl, ihr, List.filterMap_append,
      List.filterMap_cons_none hnone]
  | @range _ _ op _ _ _ _ hop _ ihl ihr =>
    have hnone : op.leaf? = none := Token.leaf?_of_isOperator (by simp [Token.isOperator, hop])
    rw [Expr.leaves, List.filter_append, ihl, ihr, List.filterMap_append,
      List.filterMap_cons_none hnone]
  | signed hop _ ih =>
    have hnone := Token.leaf?_of_isOperator (Token.isOperator_of_sign hop)
    rw [Expr.leaves, ih, List.filterMap_cons_none hnone]
  | members ho _ hc ih => rw [ih, (filter_enclosed ho hc _).2]
  | grouping ho _ hc ih => rw [Expr.leaves, ih, (filter_enclosed ho hc _).2]
  | parameter h => simp [Expr.leaves, h, Token.leaf?, Leaf.isUnnamed]
  | @literal t v h =>
    have hkind : t.kind ≠ .parameter := by
      intro hk
      simp [Token.value?, hk] at h
    simp [Expr.leaves, Token.leaf?, hkind, h, Leaf.isUnnamed]
  | name h => rw [h.filterMap_leaf?]; rfl
  | callEmpty h ho hc =>
    have hparens := (filter_enclosed ho hc []).2
    rw [List.filterMap_append, h.filterMap_leaf?]
    exact hparens.symm
  | call h ho _ hc ih =>
    rw [List.append_assoc, List.filterMap_append, h.filterMap_leaf?, (filter_enclosed ho hc _).2,
      ← ih]
    rfl
  | argument _ ih => simp [Expr.leaves, Expr.leavesOf, ih]
  | @arguments _ _ comma _ _ _ hcomma _ ihs ih =>
    have hmark : comma.IsMark := by simp [Token.IsMark, hcomma]
    rw [List.filterMap_append, List.filterMap_cons_none (Token.leaf?_of_isMark hmark), ← ih, ← ihs,
      Expr.leaves, Expr.leavesOf_append]
    simp [Expr.leaves, Expr.leavesOf]

end WhereClause
