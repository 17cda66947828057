import WhereClause.Proofs.Carrying
import WhereClause.Proofs.QuoteFree

/-!
# Where SQL text means what the filter says

SQL text has the operators of a filter in their order, and parentheses where the filter has them. A
database groups them by its own strengths. It agrees with the language on `or`, `and` and the minus
sign, and on comparisons that are not chained. It differs in `not`: in the language it takes what
follows as a minus sign does, and in SQL it takes a whole comparison. So the text of `not a = 1`,
which compares `not a` with `1`, is read as the negation of `a = 1`.

This is the only difference. The reading gives back the tree of a filter without chains iff no
comparison of it has a `not` on its left. In one direction, whatever tree is read from SQL text has
no such comparison (`Sql.grade_sound`): behind a `not` on the left, the operator would have been
taken by the `not`. In the other direction, a tree without chains and without such comparisons that
the parser of the language reads is read by the database too (`Sql.grade_covers`), level by level.

* `Sql.Grade.Sound`, `Sql.grade_sound` — the trees that a database reads;
* `Sql.Grade.Covers`, `Sql.grade_covers` — the trees of the language that it reads as they are;
* `Derives.nesting_lt` — a tree is nested less deeply than it has tokens.
-/

open WhereClause.Parser (Stops Carries)

namespace WhereClause

/-! ### Comparisons -/

namespace Expr

/-- Only comparisons may have a `not` on the left. -/
theorem hereditary_negatesLeft : Hereditary fun e => e.negatesLeft = false := by
  refine hereditary_someNode fun e he => ?_
  cases e with
  | binary l op r => simp_all [isComparison, isLeftNegated]
  | _ => rfl

/-- Only comparisons are chains. -/
theorem hereditary_isUnchained : Hereditary fun e => e.isUnchained = true := by
  simp only [isUnchained_iff]
  refine hereditary_someNode fun e he => ?_
  cases e with
  | binary l op r => simp_all [isComparison, isChain]
  | _ => rfl

/-- **Trees that both sides group alike**: without chains, and without a `not` on the left of a
comparison. -/
def IsAligned (e : Expr) : Prop :=
  e.isUnchained = true ∧ e.negatesLeft = false

/-- Comparisons decide on both. -/
theorem hereditary_isAligned : Hereditary IsAligned :=
  hereditary_isUnchained.and hereditary_negatesLeft

/-- A comparison that is aligned has aligned operands, neither of them a comparison and the left one
without a `not`. -/
theorem IsAligned.operands {l r : Expr} {op : Token} (h : IsAligned (binary l op r))
    (hop : op.compares) :
    l.IsAligned ∧ r.IsAligned ∧ l.isNegated = false ∧ l.isComparing = false ∧
      r.isComparing = false := by
  obtain ⟨⟨hlc, hrc⟩, hlu, hru⟩ := (isUnchained_comparison hop).mp h.1
  obtain ⟨hneg, hln, hrn⟩ := (negatesLeft_comparison hop).mp h.2
  exact ⟨⟨hlu, hln⟩, ⟨hru, hrn⟩, hneg, hlc, hrc⟩

end Expr

namespace Sql

variable {below : Grade} {tight : Parser Expr} {ts us rest : List Token} {e x l r : Expr}
  {op : Token}

/-! ### What a database reads -/

/-- An operand has no prefix operator. -/
theorem isNegated_of_operand {expr : Parser Expr} (h : (Parser.operand expr).Takes ts e rest) :
    e.isNegated = false := by
  cases ts with
  | nil => exact absurd h Parser.takes_fail
  | cons t ts =>
    -- a parameter, a value, a name or a call, and parentheses: none of them makes a prefix operator
    obtain ⟨-, rfl, -⟩ | ⟨v, -, rfl, -⟩ | ⟨-, hmore⟩ | ⟨-, hinner⟩ := Parser.takes_operand_cons.mp h
    · rfl
    · rfl
    · obtain ⟨opening?, mid, -, hmore⟩ := Parser.takes_bind.mp hmore
      cases opening? with
      | none =>
        obtain ⟨rfl, -⟩ := Parser.takes_pure.mp hmore
        rfl
      | some opening =>
        obtain ⟨close?, mid', -, hargs⟩ := Parser.takes_bind.mp hmore
        cases close? with
        | some close =>
          obtain ⟨rfl, -⟩ := Parser.takes_pure.mp hargs
          rfl
        | none =>
          obtain ⟨args, mid₁, -, hclose⟩ := Parser.takes_bind.mp hargs
          obtain ⟨close, mid₂, -, hpure⟩ := Parser.takes_bind.mp hclose
          obtain ⟨rfl, -⟩ := Parser.takes_pure.mp hpure
          rfl
    · obtain ⟨inner, mid, -, hclose⟩ := Parser.takes_bind.mp hinner
      obtain ⟨close, mid', -, hpure⟩ := Parser.takes_bind.mp hclose
      obtain ⟨rfl, -⟩ := Parser.takes_pure.mp hpure
      rfl

/-- **What the parsers of one level read**: no tree has a `not` on the left of a comparison. What
starts with a `not` goes on as far as there are comparisons, and so does a predicate. -/
structure Grade.Sound (g : Grade) : Prop where
  tight : ∀ ⦃ts e rest⦄, g.tight.Takes ts e rest →
    e.negatesLeft = false ∧ (e.isNegated → Stops predicateOperators rest)
  predicate : ∀ ⦃ts e rest⦄, g.predicate.Takes ts e rest →
    e.negatesLeft = false ∧ Stops predicateOperators rest
  expression : Carries [] (fun _ => True) (fun e => e.negatesLeft = false) g.expression g.expression

/-- **Prefix operators.** A `not` takes a predicate, and a minus sign what stands behind it. -/
theorem prefixed_sound (h : below.Sound) (ht : (prefixed below).Takes ts e rest) :
    e.negatesLeft = false ∧ (e.isNegated → Stops predicateOperators rest) := by
  obtain ⟨op?, mid, hop, hmore⟩ := Parser.takes_bind.mp ht
  cases op? with
  | none =>
    have hoperand := h.expression.operand hereditary_true Expr.hereditary_negatesLeft (by decide)
    have hneg := isNegated_of_operand hmore
    exact ⟨(hoperand hmore trivial (by simp [Stops])).2, by simp [hneg]⟩
  | some op =>
    obtain ⟨x, mid', hx, hpure⟩ := Parser.takes_bind.mp hmore
    obtain ⟨rfl, rfl⟩ := Parser.takes_pure.mp hpure
    unfold prefixOperand at hx
    split at hx
    · -- a predicate was read to its end
      obtain ⟨hclean, hstop⟩ := h.predicate hx
      exact ⟨(Expr.hereditary_negatesLeft.unary op x).mpr hclean, fun _ => hstop⟩
    · next hkind =>
      obtain ⟨hclean, hstop⟩ := h.tight hx
      refine ⟨(Expr.hereditary_negatesLeft.unary op x).mpr hclean, fun hnegated => hstop ?_⟩
      simpa [Expr.isNegated, hkind] using hnegated

/-- The right side of a predicate. -/
theorem predicateRight_sound (h : below.Sound)
    (ht : (predicateRight below (prefixed below) op).Takes ts e rest) : e.negatesLeft = false := by
  have htight : Carries [] (fun _ => True) (fun e => e.negatesLeft = false) (prefixed below)
      (prefixed below) := fun _ _ _ ht _ _ => ⟨ht, (prefixed_sound h ht).1⟩
  unfold predicateRight at ht
  split at ht
  · have htarget := h.expression.inTarget hereditary_true Expr.hereditary_negatesLeft (by decide)
      htight (by decide)
    exact (htarget ht trivial (by simp [Stops])).2
  · split at ht
    · obtain ⟨not?, mid, -, hmore⟩ := Parser.takes_bind.mp ht
      -- behind `is`, a `not` takes its operand only
      cases not? with
      | none => exact (prefixed_sound h hmore).1
      | some op =>
        obtain ⟨x, mid', hx, hpure⟩ := Parser.takes_bind.mp hmore
        obtain ⟨rfl, rfl⟩ := Parser.takes_pure.mp hpure
        exact (Expr.hereditary_negatesLeft.unary op x).mpr (h.tight hx).1
    · exact (prefixed_sound h ht).1

/-- **Predicates.** The first operand may start with a `not`, and then nothing is compared with it.
-/
theorem predicates_sound (h : below.Sound)
    (ht : (predicates below (prefixed below)).Takes ts e rest) :
    e.negatesLeft = false ∧ Stops predicateOperators rest := by
  obtain ⟨first, mid, hfirst, hchain⟩ := Parser.takes_bind.mp ht
  obtain ⟨hclean, hstop⟩ := prefixed_sound h hfirst
  -- besides what it says about the tree, the invariant says where a `not` has stopped
  refine Parser.chain_induction (Q := fun a ts b rest => a.negatesLeft = false →
    (a.isNegated → Stops predicateOperators ts) →
      b.negatesLeft = false ∧ Stops predicateOperators rest) ?_ ?_ hchain hclean hstop
  · intro a ts hend ha _
    exact ⟨ha, hend⟩
  · intro a op ts c mid b rest hop hround ih ha hneg
    obtain ⟨r, mid', hr, hpure⟩ := Parser.takes_bind.mp hround
    obtain ⟨rfl, rfl⟩ := Parser.takes_pure.mp hpure
    -- a `not` in front would have taken this operator
    have hplain : a.isNegated = false := by
      refine Bool.eq_false_iff.mpr fun hnegated => ?_
      exact Parser.stops_cons.mp (hneg hnegated) hop
    have hcompares : op.compares := Token.compares_iff.mpr hop
    refine ih ((Expr.negatesLeft_comparison hcompares).mpr
      ⟨hplain, ha, predicateRight_sound h hr⟩) fun hnegated => ?_
    cases hnegated

/-- **No database reads a `not` on the left of a comparison.** -/
theorem grade_sound (n : Nat) : (grade n).Sound := by
  induction n with
  | zero =>
    -- without a level left nothing is read
    exact ⟨fun _ _ _ h => absurd h Parser.takes_fail, fun _ _ _ h => absurd h Parser.takes_fail,
      fun _ _ _ h => absurd h Parser.takes_fail⟩
  | succ n ih =>
    let predicate := predicates (grade n) (prefixed (grade n))
    have hpredicate : Carries [] (fun _ => True) (fun e => e.negatesLeft = false) predicate
        predicate := fun _ _ _ ht _ _ => ⟨ht, (predicates_sound ih ht).1⟩
    have hand : Carries [] (fun _ => True) (fun e => e.negatesLeft = false)
        (Parser.infixes [.kwAnd] predicate) (Parser.infixes [.kwAnd] predicate) :=
      hpredicate.infixes hereditary_true Expr.hereditary_negatesLeft (by simp) (by decide)
    exact ⟨fun _ _ _ => prefixed_sound ih, fun _ _ _ => predicates_sound ih,
      hand.infixes hereditary_true Expr.hereditary_negatesLeft (by simp) (by decide)⟩

/-! ### Chains of the language -/

section Chains

variable {kinds : List Kind} {right : Token → Parser Expr}

/-- A chain keeps on comparing, and it is one if it goes on. -/
theorem chain_of_isComparing (hkinds : ∀ k ∈ kinds, k ∈ predicateOperators)
    (h : (Parser.chain kinds (fun l op => do
      let r ← right op
      pure (.binary l op r)) l).Takes ts e rest) (hl : l.isComparing) :
    e.isComparing ∧ (e.isUnchained → e = l ∧ rest = ts) := by
  refine Parser.chain_induction (Q := fun l ts e rest => l.isComparing →
    e.isComparing ∧ (e.isUnchained → e = l ∧ rest = ts)) ?_ ?_ h hl
  · intro l ts _ hl
    exact ⟨hl, fun _ => ⟨rfl, rfl⟩⟩
  · -- another round compares something with the comparison
    intro l op ts c mid e rest hop hround ih hl
    obtain ⟨r, mid', -, hpure⟩ := Parser.takes_bind.mp hround
    obtain ⟨rfl, rfl⟩ := Parser.takes_pure.mp hpure
    have hcompares : op.compares := Token.compares_iff.mpr (hkinds _ hop)
    obtain ⟨hcomparing, hend⟩ := ih (Expr.isComparing_comparison hcompares)
    refine ⟨hcomparing, fun hunchained => ?_⟩
    -- the round has made a comparison with a comparison on its left
    obtain ⟨rfl, rfl⟩ := hend hunchained
    have hleft := ((Expr.isUnchained_comparison hcompares).mp hunchained).1.1
    rw [hl] at hleft
    cases hleft

/-- **Without chains there is one round at most.** -/
theorem chain_of_isUnchained (hkinds : ∀ k ∈ kinds, k ∈ predicateOperators)
    (h : (Parser.chain kinds (fun l op => do
      let r ← right op
      pure (.binary l op r)) l).Takes ts e rest) (he : e.isUnchained) :
    (e = l ∧ rest = ts) ∨
      ∃ op us r, ts = op :: us ∧ op.compares ∧ op.kind ∈ kinds ∧ (right op).Takes us r rest ∧
        e = .binary l op r := by
  obtain ⟨rfl, rfl, -⟩ | ⟨op, us, c, mid, rfl, hop, hround, hmore⟩ := Parser.takes_chain_cases h
  · exact .inl ⟨rfl, rfl⟩
  · obtain ⟨r, mid', hr, hpure⟩ := Parser.takes_bind.mp hround
    obtain ⟨rfl, rfl⟩ := Parser.takes_pure.mp hpure
    have hcompares : op.compares := Token.compares_iff.mpr (hkinds _ hop)
    -- with a comparison on its left, a second round would make a chain
    obtain ⟨rfl, rfl⟩ :=
      (chain_of_isComparing hkinds hmore (Expr.isComparing_comparison hcompares)).2 he
    exact .inr ⟨op, us, r, rfl, hcompares, hop, hr, rfl⟩

/-- A comparison of the language without chains is one operand or two. -/
theorem comparison_of_isUnchained {unary : Parser Expr}
    (h : (Parser.comparison unary).Takes ts e rest) (he : e.isUnchained) :
    unary.Takes ts e rest ∨
      ∃ l op us r, unary.Takes ts l (op :: us) ∧ op.compares ∧ op.kind ∈ Tier.comparison.operators ∧
        unary.Takes us r rest ∧ e = .binary l op r := by
  have hkinds : ∀ k ∈ Tier.comparison.operators, k ∈ predicateOperators := by decide
  obtain ⟨l, mid, hl, hchain⟩ := Parser.takes_bind.mp h
  obtain ⟨rfl, rfl⟩ | ⟨op, us, r, rfl, hcompares, hop, hr, rfl⟩ :=
    chain_of_isUnchained hkinds hchain he
  · exact .inl hl
  · exact .inr ⟨l, op, us, r, hl, hcompares, hop, hr, rfl⟩

/-- Where nothing is compared there is one operand. -/
theorem comparison_of_not_isComparing {unary : Parser Expr}
    (h : (Parser.comparison unary).Takes ts e rest) (he : e.isUnchained)
    (hplain : e.isComparing = false) : unary.Takes ts e rest := by
  obtain htakes | ⟨l, op, us, r, -, hcompares, -, -, rfl⟩ := comparison_of_isUnchained h he
  · exact htakes
  · rw [Expr.isComparing_comparison hcompares] at hplain
    cases hplain

end Chains

/-! ### What the language and a database read alike -/

/-- **The parsers of one level, on both sides.** An aligned tree that the language reads is read
from SQL too. Where it starts with a `not`, no comparison may follow, as this would be taken as
well. -/
structure Grade.Covers (g : Grade) (level : Parser.Level) : Prop where
  tight : ∀ ⦃ts e rest⦄, level.unary.Takes ts e rest → e.IsAligned →
    (e.isNegated → Stops predicateOperators rest) → g.tight.Takes ts e rest
  predicate : ∀ ⦃ts e rest⦄, g.tight.Takes ts e rest → Stops predicateOperators rest →
    g.predicate.Takes ts e rest
  expression : Carries predicateOperators Expr.IsAligned (fun _ => True) level.expression
    g.expression

section Covers

variable {level : Parser.Level}

/-- A prefix operator, or an operand. -/
theorem prefixed_covers (h : below.Covers level)
    (ht : (Parser.signed level.unary level.expression).Takes ts e rest) (he : e.IsAligned)
    (hstop : e.isNegated → Stops predicateOperators rest) : (prefixed below).Takes ts e rest := by
  obtain ⟨op?, mid, hop, hmore⟩ := Parser.takes_bind.mp ht
  refine Parser.takes_bind.mpr ⟨op?, mid, hop, ?_⟩
  cases op? with
  | none =>
    have hoperand := h.expression.operand Expr.hereditary_isAligned hereditary_true (by decide)
    exact (hoperand hmore he (by simp [Stops])).1
  | some op =>
    obtain ⟨x, mid', hx, hpure⟩ := Parser.takes_bind.mp hmore
    obtain ⟨rfl, rfl⟩ := Parser.takes_pure.mp hpure
    have hx' : below.tight.Takes mid x rest := by
      refine h.tight hx ((Expr.hereditary_isAligned.unary op x).mp he) fun hnegated => hstop ?_
      simp [Expr.isNegated, hnegated]
    refine Parser.takes_bind.mpr ⟨x, rest, ?_, hpure⟩
    unfold prefixOperand
    split
    · -- behind a `not` a whole predicate is read, which ends here as no comparison follows
      next hkind => exact h.predicate hx' (hstop (by simp [Expr.isNegated, hkind]))
    · exact hx'

/-- A predicate without a comparison. -/
theorem predicates_of_tight (ht : tight.Takes ts e rest) (hstop : Stops predicateOperators rest) :
    (predicates below tight).Takes ts e rest :=
  Parser.takes_bind.mpr ⟨e, rest, ht, (Parser.takes_chain_stop hstop).mpr ⟨rfl, rfl⟩⟩

/-- A predicate with one comparison. -/
theorem predicates_of_round (hl : tight.Takes ts l (op :: us)) (hop : op.compares)
    (hr : (predicateRight below tight op).Takes us r rest)
    (hstop : Stops predicateOperators rest) :
    (predicates below tight).Takes ts (.binary l op r) rest :=
  Parser.takes_bind.mpr ⟨l, op :: us, hl, (Parser.takes_chain_step (Token.compares_iff.mp hop)).mpr
    ⟨.binary l op r, rest, Parser.takes_bind.mpr ⟨r, rest, hr, Parser.takes_pure.mpr ⟨rfl, rfl⟩⟩,
      (Parser.takes_chain_stop hstop).mpr ⟨rfl, rfl⟩⟩⟩

/-- What `is` compares with: a `not` is taken with its operand, and everything else as ever. -/
theorem isTarget_covers (h : below.Covers level)
    (ht : (Parser.signed level.unary level.expression).Takes ts e rest) (he : e.IsAligned)
    (hstop : Stops predicateOperators rest) :
    (isTarget below (prefixed below)).Takes ts e rest := by
  have htight := prefixed_covers h ht he fun _ => hstop
  obtain ⟨op?, mid, hop, hmore⟩ := Parser.takes_bind.mp ht
  cases op? with
  | none =>
    obtain ⟨rfl, hsigns⟩ := Parser.takes_accept_none.mp hop
    exact Parser.takes_bind.mpr ⟨none, _,
      Parser.takes_accept_none.mpr ⟨rfl, hsigns.mono (by decide)⟩, htight⟩
  | some op =>
    obtain ⟨rfl, hsign⟩ := Parser.takes_accept_some.mp hop
    obtain ⟨x, mid', hx, hpure⟩ := Parser.takes_bind.mp hmore
    obtain ⟨rfl, rfl⟩ := Parser.takes_pure.mp hpure
    -- a minus sign is taken by the operand itself
    by_cases hnot : op.kind = .kwNot
    · refine Parser.takes_bind.mpr ⟨some op, mid,
        Parser.takes_accept_some.mpr ⟨rfl, by simp [hnot]⟩, Parser.takes_bind.mpr
        ⟨x, rest, ?_, hpure⟩⟩
      exact h.tight hx ((Expr.hereditary_isAligned.unary op x).mp he) fun _ => hstop
    · exact Parser.takes_bind.mpr ⟨none, _, Parser.takes_accept_none.mpr
        ⟨rfl, Parser.stops_cons.mpr (by simpa using hnot)⟩, htight⟩

/-- The right side of an equality of the language that compares nothing itself. -/
theorem predicateRight_covers (h : below.Covers level)
    (ht : (Parser.equalityRight (Parser.signed level.unary level.expression) level.expression
      op).Takes ts e rest) (he : e.IsAligned) (hplain : e.isComparing = false)
    (hstop : Stops predicateOperators rest) :
    (predicateRight below (prefixed below) op).Takes ts e rest := by
  have htight : Carries predicateOperators Expr.IsAligned (fun _ => True)
      (Parser.signed level.unary level.expression) (prefixed below) :=
    fun _ _ _ ht he hstop => ⟨prefixed_covers h ht he fun _ => hstop, trivial⟩
  unfold Parser.equalityRight at ht
  unfold predicateRight
  split at ht
  · next hin =>
    rw [if_pos hin]
    exact (h.expression.inTarget Expr.hereditary_isAligned hereditary_true (by decide) htight
      (by decide) ht he hstop).1
  · next hin =>
    rw [if_neg hin]
    -- nothing is compared here, so the language has read one operand
    have hunary := comparison_of_not_isComparing ht he.1 hplain
    split
    · exact isTarget_covers h hunary he hstop
    · exact (htight hunary he hstop).1

/-- **Equalities and comparisons of the language are predicates**, if they are aligned. -/
theorem equality_covers (h : below.Covers level) :
    Carries predicateOperators Expr.IsAligned (fun _ => True)
      (Parser.equality (Parser.signed level.unary level.expression) level.expression)
      (predicates below (prefixed below)) := by
  intro ts e rest ht he hstop
  refine ⟨?_, trivial⟩
  obtain ⟨a, mid, hfirst, hchain⟩ := Parser.takes_bind.mp (Parser.takes_equality.mp ht).1
  obtain ⟨rfl, rfl⟩ | ⟨op, us, r, rfl, hcompares, -, hr, rfl⟩ :=
    chain_of_isUnchained (by decide) hchain he.1
  · -- no equality, so there may be a comparison
    obtain hunary | ⟨l, op, us, r, hl, hcompares, hop, hr, rfl⟩ :=
      comparison_of_isUnchained hfirst he.1
    · exact predicates_of_tight (prefixed_covers h hunary he fun _ => hstop) hstop
    · obtain ⟨hle, hre, hneg, -, -⟩ := he.operands hcompares
      have hl' := prefixed_covers h hl hle (by simp [hneg])
      refine predicates_of_round hl' hcompares ?_ hstop
      have hkinds : ∀ k ∈ Tier.comparison.operators, k ≠ .kwIn ∧ k ≠ .kwIs := by decide
      unfold predicateRight
      rw [if_neg (hkinds _ hop).1, if_neg (hkinds _ hop).2]
      exact prefixed_covers h hr hre fun _ => hstop
  · -- an equality, which has no comparison on either side
    obtain ⟨hle, hre, hneg, hlc, hrc⟩ := he.operands hcompares
    have hl := comparison_of_not_isComparing hfirst hle.1 hlc
    have hl' := prefixed_covers h hl hle (by simp [hneg])
    exact predicates_of_round hl' hcompares (predicateRight_covers h hr hre hrc hstop) hstop

end Covers

/-- **Aligned trees of the language are read from SQL**, level by level. -/
theorem grade_covers (n : Nat) : (grade n).Covers (Parser.level n) := by
  induction n with
  | zero =>
    exact ⟨fun _ _ _ h => absurd h Parser.takes_fail, fun _ _ _ h => absurd h Parser.takes_fail,
      fun _ _ _ h => absurd h Parser.takes_fail⟩
  | succ n ih =>
    have hand : Carries predicateOperators Expr.IsAligned (fun _ => True)
        (Parser.infixes [.kwAnd] _) (Parser.infixes [.kwAnd] _) :=
      (equality_covers ih).infixes Expr.hereditary_isAligned hereditary_true (by decide) (by decide)
    exact ⟨fun _ _ _ => prefixed_covers ih, fun _ _ _ => predicates_of_tight,
      hand.infixes Expr.hereditary_isAligned hereditary_true (by decide) (by decide)⟩

end Sql

/-! ### The main statement -/

/-- **A tree is nested less deeply than it has tokens**, its arguments taking one level more. -/
theorem Derives.nesting_lt {rule : Rule} {ts : List Token} {e : Expr} (h : Derives rule ts e) :
    e.nesting < ts.length + if rule = .arguments then 1 else 0 := by
  -- every level comes with a sign or with parentheses, which are tokens of their own
  induction h with
  | @lift tier _ _ _ ih => cases tier <;> exact ih
  | plain _ ih => exact ih
  | parameter _ => simp [Expr.nesting]
  | literal _ => simp [Expr.nesting]
  | name hname =>
    obtain ⟨t, us, rfl, -⟩ := hname.starts
    simp [Expr.nesting]
  | callEmpty _ _ _ => simp [Expr.nesting]
  | chain _ _ _ ihl ihr =>
    simp only [Expr.nesting, List.length_append, List.length_cons, reduceCtorEq, if_false] at ihl ⊢
    split at ihr <;> omega
  | range _ _ _ _ ihl ihr =>
    simp only [Expr.nesting, List.length_append, List.length_cons, reduceCtorEq, if_false] at *
    omega
  | signed _ _ ih =>
    simp only [Expr.nesting, List.length_cons, reduceCtorEq, if_false] at *
    omega
  | members _ _ _ ih =>
    simp only [List.length_append, List.length_cons, reduceCtorEq, if_true, if_false] at *
    omega
  | grouping _ _ _ ih =>
    simp only [Expr.nesting, List.length_append, List.length_cons, reduceCtorEq, if_false] at *
    omega
  | call _ _ hargs _ ih =>
    rw [Expr.nesting, if_neg (by simpa using hargs.items_ne_nil)]
    simp only [Expr.nesting, List.length_append, List.length_cons, reduceCtorEq, if_true,
      if_false] at *
    omega
  | argument _ ih =>
    simp only [Expr.nesting, Expr.nestingOf, reduceCtorEq, if_true, if_false] at *
    omega
  | arguments _ _ _ ihs ih =>
    simp only [Expr.nesting, Expr.nestingOf_append, Expr.nestingOf, List.length_append,
      List.length_cons, reduceCtorEq, if_true, if_false] at *
    omega

/-- An aligned tree is read back from its tokens. -/
theorem Sql.group?_of_isAligned {ts : List Token} {e : Expr}
    (h : Derives (.tier .disjunction) ts e) (he : e.IsAligned) : group? ts = some e := by
  have htakes := (Parser.level_exact ts.length).2.complete ⟨h, h.nesting_lt⟩ Parser.stops_nil
  rw [List.append_nil] at htakes
  exact group?_eq_some_iff.mpr ((grade_covers _).expression htakes he Parser.stops_nil).1

/-- What is read has no `not` on the left of a comparison. -/
theorem Sql.negatesLeft_of_read {t : String} {e : Expr} (h : read t = some e) :
    e.negatesLeft = false := by
  obtain ⟨ts, -, hgroup⟩ := Option.bind_eq_some_iff.mp h
  exact ((grade_sound _).expression (group?_eq_some_iff.mp hgroup) trivial Parser.stops_nil).2

/-- **When SQL text means what the filter says.** If a filter without chains has an SQL text, then
reading that gives back its tree, up to lines, iff no comparison has a `not` on its left. -/
theorem read_text_iff_aligned {s t : String} {e : Expr} {q : Sql.Quoter} (hparse : parse s = .ok e)
    (hchains : e.isUnchained) (ht : Sql.text q e = .ok t) :
    (∃ e', Sql.read t = some e' ∧ e'.atLine 1 = e.atLine 1) ↔ e.negatesLeft = false := by
  constructor
  · -- lines do not matter for what is read
    rintro ⟨e', hread, hatLine⟩
    rw [← Expr.negatesLeft_atLine (n := 1) e, ← hatLine, Expr.negatesLeft_atLine]
    exact Sql.negatesLeft_of_read hread
  · intro hleft
    obtain ⟨ts, hts, hderives, -⟩ := exists_spelled_of_parse hparse
    rw [Sql.text_eq_of_isQuoteFree q Sql.Quoter.doubled (isQuoteFree_of_parse hparse)] at ht
    obtain ⟨S, hspelled, hresolved, -⟩ := exists_resolved hderives hts.isLexical ht
    -- the tokens of the text stand for those of the source, which derive the tree up to lines
    rw [← Sql.resolve_map_atLine 1] at hresolved
    obtain ⟨e', hderives', hatLine⟩ := hderives.of_bare_eq hresolved
    have haligned : e'.IsAligned := by
      constructor
      · rw [← Expr.isUnchained_atLine (n := 1) e', hatLine, Expr.isUnchained_atLine]
        exact hchains
      · rw [← Expr.negatesLeft_atLine (n := 1) e', hatLine, Expr.negatesLeft_atLine]
        exact hleft
    refine ⟨e', ?_, hatLine⟩
    rw [Sql.read, Sql.tokens_of_spelled hspelled]
    exact Sql.group?_of_isAligned hderives' haligned

/-- A filter with a `not` in every place but the left of a comparison. -/
theorem read_text_iff_aligned_negations :
    ∃ e t, parse "not a and x is not null or - -b in (1, not 2) and c in -1 .. not :p" = .ok e ∧
      e.isUnchained ∧ Sql.text Sql.Quoter.doubled e = .ok t ∧
      ∃ e', Sql.read t = some e' ∧ e'.atLine 1 = e.atLine 1 := by
  obtain ⟨e, hparse, hcheck⟩ := exists_ok_of_any (x :=
      parse "not a and x is not null or - -b in (1, not 2) and c in -1 .. not :p")
    (p := fun e => e.isUnchained && !e.negatesLeft &&
      (Sql.text Sql.Quoter.doubled e).toOption.isSome) (by decide +kernel)
  simp only [Bool.and_eq_true, Bool.not_eq_true'] at hcheck
  obtain ⟨⟨hchains, hleft⟩, hsome⟩ := hcheck
  obtain ⟨t, ht⟩ := Option.isSome_iff_exists.mp hsome
  have ht := eq_ok_of_toOption ht
  exact ⟨e, t, hparse, hchains, ht, (read_text_iff_aligned hparse hchains ht).mpr hleft⟩

/-- **Not every SQL text means what the filter says.** The filter `not a = 1` is a comparison, and
its text is read as a negation. -/
theorem read_text_negates_comparison :
    ∃ e e', parse "not a = 1" = .ok e ∧ e.isUnchained ∧ e.isComparison ∧
      Sql.text Sql.Quoter.doubled e = .ok "not a = 1" ∧
      Sql.read "not a = 1" = some e' ∧ e'.isNegated ∧ e'.atLine 1 ≠ e.atLine 1 := by
  obtain ⟨e, hparse, hcheck⟩ := exists_ok_of_any (x := parse "not a = 1")
    (p := fun e => e.isUnchained && e.isComparison &&
      decide ((Sql.text Sql.Quoter.doubled e).toOption = some "not a = 1") &&
      (Sql.read "not a = 1").any fun e' => e'.isNegated && !e'.alike e) (by decide +kernel)
  simp only [Bool.and_eq_true, decide_eq_true_eq, Option.any_eq_true, Bool.not_eq_true'] at hcheck
  obtain ⟨⟨⟨hchains, hcomparison⟩, htext⟩, e', hread, hnegated, halike⟩ := hcheck
  refine ⟨e, e', hparse, hchains, hcomparison, eq_ok_of_toOption htext, hread, hnegated, ?_⟩
  intro hatLine
  rw [Expr.alike_of_atLine_eq hatLine] at halike
  cases halike

end WhereClause
