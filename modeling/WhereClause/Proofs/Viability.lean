import Mathlib.Control.Monad.Basic
import WhereClause.Proofs.Cursor
import WhereClause.Proofs.Lookahead

/-!
# Errors point at the token that is wrong

A parser that complains has not read too far: the tokens in front of the one complained about can
still be continued to an expression, unless the complaint is that there are too many levels. And it
has read far enough: with that token and the next one, no continuation is an expression.

The second half is `Parser.ShortSighted`. For the first half, `Parser.Completable` goes through the
grammar functions as `Parser.Exact` does. Where a function complains itself, what is missing is
known: an operand, a closing parenthesis, the second half of a range, or nothing at all. Where it
hands on a complaint, the continuation comes from the parser that it called, and the tokens taken
before are derived since that parser is exact. The bound on levels is carried along by `Within`, and
no continuation that is made up here uses a level.

* `Parser.Completable` — a complaint leaves something that can be completed;
* `Parser.Completable.chain` — repetitions, by handing the derivation of all rounds so far on;
* `Parser.completable_level` — the parsers of all levels;
* `parse_error_at_offender` — line and token of an error, and both halves for whole expressions.
-/

namespace WhereClause

/-! ### Completable complaints -/

namespace Parser

variable {α β : Type} {D : List Token → α → Prop} {kinds kinds' : List Kind} {ts rest : List Token}
  {c : Complaint}

/-- **Where the parser complains, the tokens taken can be completed** to something that the relation
derives. A complaint about too many levels promises nothing. -/
structure Completable (p : Parser α) (D : List Token → α → Prop) : Prop where
  complete : ∀ {ts c rest}, p.Fails ts c rest → c ≠ .tooDeep →
    ∃ pre us a, ts = pre ++ rest ∧ D (pre ++ us) a

namespace Completable

variable {p : Parser α}

/-- Another parser that complains alike, for a relation that derives more. -/
theorem congr {q : Parser α} {D' : List Token → α → Prop} (hp : p.Completable D)
    (hq : ∀ ts c rest, q.Fails ts c rest → p.Fails ts c rest) (hd : ∀ ts a, D ts a → D' ts a) :
    q.Completable D' := by
  refine ⟨fun {ts c rest} h hc => ?_⟩
  obtain ⟨pre, us, a, hts, ha⟩ := hp.complete (hq ts c rest h) hc
  exact ⟨pre, us, a, hts, hd _ a ha⟩

/-- The result may be put into a tree. -/
theorem map (hp : p.Completable D) (f : α → β) :
    (do let a ← p; pure (f a)).Completable (fun us b => ∃ a, D us a ∧ b = f a) := by
  refine ⟨fun {ts c rest} h hc => ?_⟩
  obtain ⟨pre, us, a, hts, ha⟩ := hp.complete (fails_map.mp h) hc
  exact ⟨pre, us, f a, hts, a, ha, rfl⟩

/-- A closing parenthesis that is missing can be added. -/
theorem closed (hp : p.Completable D) (hexact : Exact p D kinds) (c : Complaint)
    (f : α → Token → β) :
    (do let a ← p; let close ← expect .rightParen c; pure (f a close)).Completable
      (fun us b => ∃ vs a, ∃ close : Token, us = vs ++ [close] ∧ D vs a ∧
        close.kind = Kind.rightParen ∧ b = f a close) := by
  refine ⟨fun {ts c' rest} h hc => ?_⟩
  -- something is missing in front of the parenthesis, or only the parenthesis is
  obtain hfails | ⟨a, mid, htakes, hfails⟩ := fails_bind.mp h
  · obtain ⟨pre, us, a, rfl, ha⟩ := hp.complete hfails hc
    refine ⟨pre, us ++ [.ofKind .rightParen ")"], _, rfl, pre ++ us, a, .ofKind .rightParen ")", ?_,
      ha, rfl, rfl⟩
    rw [List.append_assoc]
  · obtain ⟨-, rfl, -⟩ := fails_expect.mp (fails_map.mp hfails)
    obtain ⟨used, rfl, ha⟩ := hexact.sound htakes
    exact ⟨used, [.ofKind .rightParen ")"], _, rfl, used, a, _, rfl, ha, rfl, rfl⟩

end Completable

section Chain

variable {p : Parser α} {start : List Token → α → Prop} {body : α → Token → Parser α}
  {round : α → Token → List Token → α → Prop}

/-- A round that complains can be completed, and then the repetition ends. -/
theorem completable_chain
    (hbody : ∀ a op, op.kind ∈ kinds → (body a op).Completable (round a op))
    (hexact : ∀ a op, op.kind ∈ kinds → Exact (body a op) (round a op) kinds')
    {a : α} (hfails : (chain kinds body a).Fails ts c rest) (hc : c ≠ .tooDeep) :
    ∀ before, Repeated start kinds round before a →
      ∃ pre us b, ts = pre ++ rest ∧ Repeated start kinds round (before ++ (pre ++ us)) b := by
  -- a round may take any number of tokens, so the induction is on how many are left
  induction hn : ts.length using Nat.strongRecOn generalizing a ts with
  | ind n ih =>
    intro before hbefore
    obtain ⟨op, us, rfl, hop, -⟩ | ⟨hstop, -⟩ := takes_accept kinds ts
    · obtain hround | ⟨b, mid, hround, hmore⟩ := (fails_chain_step hop).mp hfails
      · -- this round complains, and is completed
        obtain ⟨pre, us, b, rfl, hb⟩ := (hbody a op hop).complete hround hc
        exact ⟨op :: pre, us, b, rfl, hbefore.round hop hb⟩
      · -- this round is derived, and a later one complains
        obtain ⟨used, rfl, hb⟩ := (hexact a op hop).sound hround
        have hlength : mid.length < n := by
          rw [← hn, List.length_cons, List.length_append]
          omega
        obtain ⟨pre, us, e, rfl, he⟩ := ih _ hlength hmore rfl _ (hbefore.round hop hb)
        refine ⟨op :: (used ++ pre), us, e, ?_, ?_⟩
        · rw [List.cons_append, List.append_assoc]
        · rw [List.append_assoc] at he
          rwa [List.cons_append, List.append_assoc]
    · -- a repetition that stops does not complain
      exact absurd hfails (not_fails_chain_stop hstop)

/-- **Repetition.** -/
theorem Completable.chain (hp : p.Completable start) (hpexact : Exact p start kinds')
    (hbody : ∀ a op, op.kind ∈ kinds → (body a op).Completable (round a op))
    (hexact : ∀ a op, op.kind ∈ kinds → Exact (body a op) (round a op) kinds') :
    (p >>= Parser.chain kinds body).Completable (Repeated start kinds round) := by
  refine ⟨fun {ts c rest} h hc => ?_⟩
  obtain hfails | ⟨a, mid, htakes, hfails⟩ := fails_bind.mp h
  · -- the complaint is about the first operand, and no round is needed
    obtain ⟨pre, us, a, hts, ha⟩ := hp.complete hfails hc
    exact ⟨pre, us, a, hts, .start ha⟩
  · obtain ⟨used, rfl, ha⟩ := hpexact.sound htakes
    obtain ⟨pre, us, b, rfl, hb⟩ := completable_chain hbody hexact hfails hc used (.start ha)
    refine ⟨used ++ pre, us, b, ?_, ?_⟩
    · rw [List.append_assoc]
    · rwa [List.append_assoc]

end Chain

/-! ### One lemma per grammar function -/

section Grammar

variable {n : Nat} {expr unary : Parser Expr}

/-- A name of one segment, which stands for any operand that is missing. -/
theorem within_operand (n : Nat) :
    Within (n + 1) .operand [.ofKind .identifier "x"]
      (.identifier (Token.ofKind .identifier "x").lexeme) :=
  ⟨.name (.one rfl), by simp [Expr.nesting]⟩

/-- **Arguments.** -/
theorem completable_arguments (he : expr.Completable (Within n (.tier .disjunction)))
    (hexact : Exact expr (Within n (.tier .disjunction)) disjunctionGoesOn) :
    (arguments expr).Completable (WithinArguments n) := by
  have hchain := (he.map fun e => [e]).chain (hexact.map fun e => [e])
    (fun before op (_ : op.kind ∈ [Kind.comma]) => he.map fun e => before ++ [e])
    (fun before op _ => hexact.map fun e => before ++ [e])
  refine hchain.congr (fun ts c rest hfails => ?_) fun _ _ => withinArguments_iff.mpr
  exact gives_bind_assoc.mpr hfails

/-- **Names and calls.** A call lacks arguments or its closing parenthesis. -/
theorem completable_callOrName (he : expr.Completable (Within n (.tier .disjunction)))
    (hexact : Exact expr (Within n (.tier .disjunction)) disjunctionGoesOn) (name : String) :
    (callOrName expr name).Completable (Applied n name) := by
  have hcall := (completable_arguments he hexact).closed (arguments_exact hexact)
    .expectedCloseOfArguments (fun args close => Expr.call (.identifier name) close args)
  refine ⟨fun {ts c rest} h hc => ?_⟩
  -- a name alone and a call without arguments are complete, so the complaint is about arguments
  obtain ⟨opening, mid, rfl, hopen, hmore⟩ | ⟨-, hname⟩ := fails_accept_bind.mp h
  · obtain ⟨close, us, -, -, hempty⟩ | ⟨-, hargs⟩ := fails_accept_bind.mp hmore
    · exact absurd hempty not_fails_pure
    · obtain ⟨pre, us, e, rfl, vs, args, close, hvs, hargs, hclose, rfl⟩ := hcall.complete hargs hc
      refine ⟨opening :: pre, us, .call (.identifier name) close args, rfl, ?_⟩
      rw [List.cons_append, hvs]
      exact .call (List.mem_singleton.mp hopen) hargs hclose
  · exact absurd hname not_fails_pure

/-- An operand complains about its first token, or inside of a call or of parentheses. -/
theorem fails_operand_cons {t : Token} (h : (operand expr).Fails (t :: ts) c rest) :
    rest = t :: ts ∨
      (t.kind = .identifier ∧ (callOrName expr (segments t.lexeme ts).1).Fails
        (segments t.lexeme ts).2 c rest) ∨
      (t.kind = .leftParen ∧ (do
        let inner ← expr
        let _ ← expect .rightParen .expectedCloseOfGrouping
        pure (Expr.grouping inner)).Fails ts c rest) := by
  unfold operand at h
  rw [fails_peek_bind, List.head?_cons] at h
  -- only a name and a parenthesis go on behind their first token
  cases hk : t.kind with
  | parameter | kwFalse | kwTrue | kwNull =>
    simp only [hk] at h
    exact absurd h not_fails_pure
  | string | number =>
    cases hv : t.literal with
    | none =>
      simp only [hk, hv] at h
      exact .inl (fails_fail.mp h).2
    | some v =>
      simp only [hk, hv] at h
      exact absurd h not_fails_pure
  | identifier =>
    simp only [hk] at h
    exact .inr (.inl ⟨rfl, h⟩)
  | leftParen =>
    simp only [hk] at h
    exact .inr (.inr ⟨rfl, h⟩)
  | _ =>
    simp only [hk] at h
    exact .inl (fails_fail.mp h).2

/-- **Operands.** -/
theorem completable_operand (he : expr.Completable (Within n (.tier .disjunction)))
    (hexact : Exact expr (Within n (.tier .disjunction)) disjunctionGoesOn) :
    (operand expr).Completable (Within (n + 1) .operand) := by
  have hgroup := he.closed hexact .expectedCloseOfGrouping (fun inner _ => Expr.grouping inner)
  refine ⟨fun {ts c rest} h hc => ?_⟩
  cases ts with
  | nil =>
    obtain ⟨-, rfl⟩ := fails_fail.mp h
    exact ⟨[], _, _, rfl, within_operand n⟩
  | cons t ts =>
    obtain rfl | ⟨hk, hfails⟩ | ⟨hk, hfails⟩ := fails_operand_cons h
    · exact ⟨[], _, _, rfl, within_operand n⟩
    · -- the name is read to its end before anything can be wrong
      obtain ⟨used, hts, hnamed⟩ := segments_sound (.one hk) ts
      obtain ⟨pre, us, e, hmid, happlied⟩ :=
        (completable_callOrName he hexact _).complete hfails hc
      refine ⟨t :: used ++ pre, us, e, ?_, ?_⟩
      · rw [List.append_assoc, ← hmid]
        exact congrArg (t :: ·) hts
      · rw [List.append_assoc]
        exact happlied.within hnamed
    · -- the parentheses take a level, and what is inside of them is one level further down
      obtain ⟨pre, us, e, rfl, vs, inner, close, hvs, ⟨hd, hn⟩, hclose, rfl⟩ :=
        hgroup.complete hfails hc
      refine ⟨t :: pre, us, .grouping inner, rfl, ?_⟩
      rw [List.cons_append, hvs]
      refine ⟨.grouping hk hd hclose, ?_⟩
      rw [Expr.nesting]
      exact Nat.succ_lt_succ hn

/-- **Prefix operators.** -/
theorem completable_signed (hu : unary.Completable (Within n .unary))
    (he : expr.Completable (Within n (.tier .disjunction)))
    (hexact : Exact expr (Within n (.tier .disjunction)) disjunctionGoesOn) :
    (signed unary expr).Completable (Within (n + 1) .unary) := by
  refine ⟨fun {ts c rest} h hc => ?_⟩
  obtain ⟨op, mid, rfl, hkind, hinner⟩ | ⟨-, hoperand⟩ := fails_accept_bind.mp h
  · obtain ⟨pre, us, x, rfl, hd, hn⟩ := hu.complete (fails_map.mp hinner) hc
    refine ⟨op :: pre, us, .unary op x, rfl, .signed hkind hd, ?_⟩
    rw [Expr.nesting]
    exact Nat.succ_lt_succ hn
  · obtain ⟨pre, us, e, hts, hd, hn⟩ := (completable_operand he hexact).complete hoperand hc
    exact ⟨pre, us, e, hts, .plain hd, hn⟩

/-- Two operands with two dots between them. -/
theorem within_range {us vs : List Token} {op : Token} {first last : Expr}
    (hus : Within n .unary us first) (hparen : Stops [.leftParen] us) (hop : op.kind = .dotDot)
    (hvs : Within n .unary vs last) :
    Within n .target (us ++ op :: vs) (.binary first op last) := by
  refine ⟨.range hus.1 (fun t ht hk => hparen t ht (List.mem_singleton.mpr hk)) hop hvs.1, ?_⟩
  rw [Expr.nesting]
  exact Nat.max_lt.mpr ⟨hus.2, hvs.2⟩

/-- **The right side of `in`.** A range does not start with a parenthesis. Where nothing was taken
yet, its first operand is therefore not the one that the parser of operands would be completed
with. -/
theorem completable_inTarget (hu : unary.Completable (Within (n + 1) .unary))
    (huexact : Exact unary (Within (n + 1) .unary) operandGoesOn)
    (he : expr.Completable (Within n (.tier .disjunction)))
    (hexact : Exact expr (Within n (.tier .disjunction)) disjunctionGoesOn) :
    (inTarget unary expr).Completable (Within (n + 1) .target) := by
  have hlist := (completable_arguments he hexact).closed (arguments_exact hexact)
    .expectedCloseOfList (fun items _ => Expr.list items)
  have hany : ∃ us e, Within (n + 1) .unary us e ∧ Stops [.leftParen] us :=
    ⟨_, _, ⟨.plain (within_operand n).1, (within_operand n).2⟩, stops_cons.mpr (by decide)⟩
  obtain ⟨any, x, hx, hanyparen⟩ := hany
  refine ⟨fun {ts c rest} h hc => ?_⟩
  -- behind a parenthesis the members of a list are read, and a range in all other cases
  obtain ⟨opening, mid, rfl, hopen, hmembers⟩ | ⟨hparen, hrange⟩ := fails_accept_bind.mp h
  · obtain ⟨pre, us, e, rfl, vs, items, close, hvs, ⟨hd, hn⟩, hclose, rfl⟩ :=
      hlist.complete hmembers hc
    refine ⟨opening :: pre, us, .list items, rfl, ?_⟩
    rw [List.cons_append, hvs]
    refine ⟨.members (List.mem_singleton.mp hopen) hd hclose, ?_⟩
    rw [Expr.nesting]
    exact Nat.succ_lt_succ hn
  · obtain hfirst | ⟨first, mid, hfirst, hmore⟩ := fails_bind.mp hrange
    · -- the first bound is missing, or a part of it is
      obtain ⟨pre, us, first, rfl, hus⟩ := hu.complete hfirst hc
      cases pre with
      | nil =>
        -- nothing was taken, and what completes an operand might start with a parenthesis
        exact ⟨[], any ++ .ofKind .dotDot ".." :: any, _, rfl, within_range hx hanyparen rfl hx⟩
      | cons t pre =>
        -- the first token was taken, and is no parenthesis
        have hparen' : Stops [.leftParen] (t :: pre ++ us) := hparen
        refine ⟨t :: pre, us ++ .ofKind .dotDot ".." :: any,
          .binary first (.ofKind .dotDot "..") x, rfl, ?_⟩
        rw [← List.append_assoc]
        exact within_range hus hparen' rfl hx
    · obtain ⟨used, rfl, hused⟩ := huexact.sound hfirst
      have hparen' : Stops [.leftParen] used := by
        obtain ⟨t, us, rfl, -⟩ := hused.1.starts
        exact hparen
      obtain hmarker | ⟨op, mid', hop, hlast⟩ := fails_bind.mp hmore
      · -- the dots are missing, and with them the last bound
        obtain ⟨-, rfl, -⟩ := fails_expect.mp hmarker
        exact ⟨used, .ofKind .dotDot ".." :: any, _, rfl, within_range hused hparen' rfl hx⟩
      · -- the last bound is missing, or a part of it is
        obtain ⟨rfl, hkind⟩ := takes_expect.mp hop
        obtain ⟨pre, us, last, rfl, hvs⟩ := hu.complete (fails_map.mp hlast) hc
        refine ⟨used ++ op :: pre, us, .binary first op last, ?_, ?_⟩
        · rw [List.append_assoc, List.cons_append]
        · rw [List.append_assoc, List.cons_append]
          exact within_range hused hparen' hkind hvs

/-- Operands of one tier with its operators between them. -/
theorem completable_tier {t : Tier} {p : Parser Expr} (right : Token → Parser Expr)
    (hp : p.Completable (Within n t.operand)) (hpexact : Exact p (Within n t.operand) kinds)
    (hright : ∀ op, op.kind ∈ t.operators →
      (right op).Completable (Within n (t.right op.kind)))
    (hexact : ∀ op, op.kind ∈ t.operators → Exact (right op) (Within n (t.right op.kind)) kinds) :
    (p >>= chain t.operators fun left operator => do
      let r ← right operator
      pure (.binary left operator r)).Completable (Within n (.tier t)) := by
  have hchain := hp.chain hpexact (fun l op hop => (hright op hop).map (Expr.binary l op))
    (fun l op hop => (hexact op hop).map (Expr.binary l op))
  exact hchain.congr (fun _ _ _ h => h) fun _ _ => within_tier_iff.mpr

/-- A tier that is no equality. -/
theorem completable_infixes {t : Tier} {p : Parser Expr} (ht : t ≠ .equality)
    (hp : p.Completable (Within n t.operand)) (hexact : Exact p (Within n t.operand) kinds) :
    (infixes t.operators p).Completable (Within n (.tier t)) := by
  refine completable_tier (fun _ => p) hp hexact (fun op hop => ?_) (fun op hop => ?_)
  · rw [right_eq_operand ht hop]
    exact hp
  · rw [right_eq_operand ht hop]
    exact hexact

/-- **Equalities.** In front of `between` there is an equality already, and nothing is missing. -/
theorem completable_equality (hu : unary.Completable (Within (n + 1) .unary))
    (huexact : Exact unary (Within (n + 1) .unary) operandGoesOn)
    (he : expr.Completable (Within n (.tier .disjunction)))
    (hexact : Exact expr (Within n (.tier .disjunction)) disjunctionGoesOn) :
    (equality unary expr).Completable (Within (n + 1) (.tier .equality)) := by
  have hcomparison := completable_infixes (t := .comparison) (by decide) hu huexact
  have hright : ∀ op : Token, op.kind ∈ Tier.equality.operators →
      (equalityRight unary expr op).Completable (Within (n + 1) (Tier.equality.right op.kind)) := by
    intro op _
    unfold Tier.right equalityRight
    split
    · exact completable_inTarget hu huexact he hexact
    · exact hcomparison
  have hchain := completable_tier _ hcomparison (comparison_exact huexact) hright
    (fun op _ => equalityRight_exact huexact hexact op)
  refine ⟨fun {ts c rest} h hc => ?_⟩
  rw [equality_eq] at h
  -- the chain complains, or `between` comes behind it
  obtain hfails | ⟨e, mid, htakes, hfails⟩ := fails_bind.mp (gives_bind_assoc.mpr h)
  · exact hchain.complete hfails hc
  · obtain ⟨-, rfl, -⟩ := fails_rejectBetween.mp (fails_map.mp hfails)
    obtain ⟨used, rfl, he⟩ := (equalityChain_exact huexact hexact).sound htakes
    refine ⟨used, [], e, rfl, ?_⟩
    rwa [List.append_nil]

/-- **The whole of a level.** -/
theorem completable_disjunction (hu : unary.Completable (Within (n + 1) .unary))
    (huexact : Exact unary (Within (n + 1) .unary) operandGoesOn)
    (he : expr.Completable (Within n (.tier .disjunction)))
    (hexact : Exact expr (Within n (.tier .disjunction)) disjunctionGoesOn) :
    (disjunction unary expr).Completable (Within (n + 1) (.tier .disjunction)) := by
  have hequality := equality_exact huexact hexact
  have hconjunction := infixes_exact (t := .conjunction) (by decide) hequality (by decide)
  refine completable_infixes (t := .disjunction) (by decide) ?_ hconjunction
  exact completable_infixes (t := .conjunction) (by decide)
    (completable_equality hu huexact he hexact) hequality

end Grammar

/-- **The parsers of all levels.** -/
theorem completable_level (n : Nat) :
    (level n).unary.Completable (Within n .unary) ∧
      (level n).expression.Completable (Within n (.tier .disjunction)) := by
  induction n with
  | zero =>
    -- with no level left there is only one complaint
    have hnone : ∀ {r : Rule}, (fail .tooDeep : Parser Expr).Completable (Within 0 r) :=
      ⟨fun h hc => absurd (fails_fail.mp h).1 hc⟩
    exact ⟨hnone, hnone⟩
  | succ n ih =>
    obtain ⟨huexact, hexact⟩ := level_exact n
    have hunary := completable_signed ih.1 ih.2 hexact
    exact ⟨hunary, completable_disjunction hunary (signed_exact huexact hexact) ih.2 hexact⟩

/-- An expression with nothing after it. Where something is, nothing is missing in front of it. -/
theorem completable_whole : whole.Completable (Within maxLevels (.tier .disjunction)) := by
  refine ⟨fun {ts c rest} h hc => ?_⟩
  obtain hfails | ⟨e, mid, htakes, hfails⟩ := fails_bind.mp h
  · exact (completable_level maxLevels).2.complete hfails hc
  · obtain ⟨used, rfl, he⟩ := (level_exact maxLevels).2.sound htakes
    rw [fails_peek_bind] at hfails
    cases mid with
    | nil => exact absurd hfails not_fails_pure
    | cons t mid =>
      obtain ⟨-, rfl⟩ := fails_fail.mp hfails
      refine ⟨used, [], e, rfl, ?_⟩
      rwa [List.append_nil]

end Parser

/-! ### Errors of whole expressions -/

/-- No end marker is a part of a name. -/
theorem Named.ne_eof {ts : List Token} {name : String} (h : Named ts name) :
    ∀ t ∈ ts, t.kind ≠ .eof := by
  intro t ht hk
  have hmark := h.isMark t ht
  rw [Token.IsMark, hk] at hmark
  exact absurd hmark (by decide)

/-- No end marker is derived. -/
theorem Derives.ne_eof {r : Rule} {ts : List Token} {e : Expr} (h : Derives r ts e) :
    ∀ t ∈ ts, t.kind ≠ .eof := by
  -- the end marker is neither an operator nor a value, and marks have other kinds
  have hoperators : ∀ t : Tier, .eof ∉ t.operators := by
    intro t
    cases t <;> decide
  have hliteral : ∀ {t : Token} {v : Value}, t.value? = some v → t.kind ≠ .eof := by
    intro t v hv hk
    have hstarts := Token.kind_mem_starters_of_value? hv
    rw [hk] at hstarts
    exact absurd hstarts (by decide)
  induction h with
  | lift _ ih => exact ih
  | plain _ ih => exact ih
  | argument _ ih => exact ih
  | @chain t _ _ op _ _ _ hop _ ihl ihr =>
    have hne : op.kind ≠ .eof := fun hk => hoperators t (hk ▸ hop)
    exact List.forall_mem_append.mpr ⟨ihl, List.forall_mem_cons.mpr ⟨hne, ihr⟩⟩
  | range _ _ hop _ ihl ihr => simpa [hop, or_imp, forall_and] using ⟨ihl, ihr⟩
  | arguments _ hcomma _ ihl ihr => simpa [hcomma, or_imp, forall_and] using ⟨ihl, ihr⟩
  | @signed op _ _ hop _ ih =>
    have hne : op.kind ≠ .eof := by
      intro hk
      rw [hk] at hop
      exact absurd hop (by decide)
    exact List.forall_mem_cons.mpr ⟨hne, ih⟩
  | members ho _ hc ih => simpa [ho, hc, or_imp, forall_and] using ih
  | grouping ho _ hc ih => simpa [ho, hc, or_imp, forall_and] using ih
  | parameter h => simp [h]
  | literal h => exact List.forall_mem_singleton.mpr (hliteral h)
  | name h => exact h.ne_eof
  | callEmpty h ho hc => simpa [ho, hc, or_imp, forall_and] using h.ne_eof
  | call h ho _ hc ih => simpa [ho, hc, or_imp, forall_and] using ⟨h.ne_eof, ih⟩

namespace TokenStream

/-- Where a parser fails on a stream, the error is about the first token left. -/
theorem exists_fails {α : Type} {s left : TokenStream} {p : Parser α} {err : ParseError}
    (h : s.run p = (.error err, left)) :
    ∃ c, p.Fails s.tokens c left.tokens ∧ left.endLine = s.endLine ∧ err = left.errorHere c := by
  unfold run at h
  cases hresult : (p s.tokens).result with
  | ok a =>
    simp only [hresult] at h
    cases h
  | error c =>
    simp only [hresult] at h
    cases h
    exact ⟨c, ⟨hresult, rfl⟩, rfl, rfl⟩

/-- A complaint about the first token left, which is the end marker where none is. -/
theorem exists_errorHere {left : TokenStream} {e : Token} (he : e.kind = .eof)
    (hline : e.line = left.endLine) (htokens : ∀ t ∈ left.tokens, t.kind ≠ .eof) (c : Complaint)
    (after : List Token) :
    ∃ t, (left.tokens ++ e :: after).head? = some t ∧ (left.errorHere c).line = t.line ∧
      (left.errorHere c).near = if t.kind = .eof then none else some t.lexeme := by
  unfold errorHere ParseError.near
  -- with nothing left, the end marker is the next token, and has no text
  cases hleft : left.tokens with
  | nil =>
    refine ⟨e, rfl, hline.symm, ?_⟩
    rw [if_pos he]
    rfl
  | cons t us =>
    have hne : t.kind ≠ .eof := htokens t (hleft ▸ List.mem_cons_self)
    refine ⟨t, rfl, rfl, ?_⟩
    rw [if_neg hne]
    rfl

/-- What the grammar derives within the limit is parsed. -/
theorem parse_ofList_of_within {ts : List Token} {e : Expr}
    (h : Within Parser.maxLevels (.tier .disjunction) ts e) : (ofList ts).parse.1 = .ok e := by
  rw [parse_eq_ok_iff, ofList_of_forall_ne_eof h.1.ne_eof]
  exact h

/-- Where the parser complains there is no tree. -/
theorem parse_ne_ok {s : TokenStream} {c : Complaint} {rest : List Token}
    (h : Parser.whole.Fails s.tokens c rest) (e : Expr) : s.parse.1 ≠ .ok e := by
  intro hok
  rw [parse_eq_run, run_eq_ok_iff] at hok
  obtain ⟨rest', htakes⟩ := hok
  cases (h.unique (Parser.gives_ok.mpr htakes)).1

/-- Tokens that are cut behind the next two, of which the end marker may be one, and continued in
any way go on as before. -/
theorem exists_sameAhead {pre rest after : List Token} {e : Token} (hpre : ∀ t ∈ pre, t.kind ≠ .eof)
    (hrest : ∀ t ∈ rest, t.kind ≠ .eof) (he : e.kind = .eof) (vs : List Token) :
    ∃ rest', (ofList (pre ++ ((rest ++ e :: after).take 2 ++ vs))).tokens = pre ++ rest' ∧
      Parser.SameAhead rest rest' := by
  have hpos : ∀ t ∈ pre, (t.kind != .eof) = true := fun t ht => bne_iff_ne.mpr (hpre t ht)
  refine ⟨((rest ++ e :: after).take 2 ++ vs).takeWhile (·.kind != .eof),
    List.takeWhile_append_of_pos hpos, ?_⟩
  unfold Parser.SameAhead
  -- with fewer than two tokens left, the end marker is among the next two
  rcases rest with _ | ⟨t, _ | ⟨w, rest⟩⟩
  · simp [he]
  · simp [he, hrest t]
  · simp [hrest t, hrest w]

end TokenStream

/-- **Errors point at the token that is wrong.** With `i` tokens taken, the line and the text of an
error are those of the token at `i`, whose text is not named where it is the end marker. The tokens
before it can be continued to an expression, unless there were too many levels, and no continuation
behind it and the token after it is an expression. -/
theorem parse_error_at_offender (ts : List Token) (err : ParseError) (left : TokenStream)
    (h : (TokenStream.ofList ts).parse = (.error err, left))
    (hlevels : ¬ "Expression nested too deeply.".toList <+: err.detail.toList) :
    let i := (TokenStream.ofList ts).tokens.length - left.tokens.length
    (∃ t, (Cursor.completed ts)[i]? = some t ∧ err.line = t.line ∧
      err.near = if t.kind = .eof then none else some t.lexeme) ∧
    (∃ us e, (TokenStream.ofList ((Cursor.completed ts).take i ++ us)).parse.1 = .ok e) ∧
    ∀ vs e, (TokenStream.ofList ((Cursor.completed ts).take (i + 2) ++ vs)).parse.1 ≠ .ok e := by
  intro i
  obtain ⟨c, hfails, hend, rfl⟩ := TokenStream.exists_fails h
  have hc : c ≠ .tooDeep := by
    rintro rfl
    refine hlevels ?_
    rw [ParseError.detail, String.toList_append]
    exact List.prefix_append _ _
  obtain ⟨pre, us, a, hpre, ha⟩ := Parser.completable_whole.complete hfails hc
  -- the tokens are those taken, those left, the end marker and what is behind it
  obtain ⟨e, after, hts, he, hline, hfront⟩ :=
    TokenStream.exists_end (Cursor.exists_eof_completed ts)
  rw [Cursor.ofList_completed] at hts hline hfront
  rw [hpre, List.append_assoc] at hts
  have hi : i = pre.length := by
    simp only [i, hpre, List.length_append, Nat.add_sub_cancel]
  rw [hpre, List.forall_mem_append] at hfront
  rw [hi, hts]
  refine ⟨?_, ⟨us, a, ?_⟩, fun vs b => ?_⟩
  · obtain ⟨t, ht, hline, hnear⟩ :=
      TokenStream.exists_errorHere he (hline.trans hend.symm) hfront.2 c after
    refine ⟨t, ?_, hline, hnear⟩
    rw [List.getElem?_append_right (Nat.le_refl _), Nat.sub_self, ← List.head?_eq_getElem?, ht]
  · rw [List.take_left]
    exact TokenStream.parse_ofList_of_within ha
  · -- the complaint stays the same, since the parser does not look further ahead
    obtain ⟨rest', htokens, hahead⟩ := TokenStream.exists_sameAhead hfront.1 hfront.2 he vs
    have hsame : Parser.whole.Fails (pre ++ rest') c rest' :=
      Parser.shortSighted_whole _ pre left.tokens rest' _ hpre hfails hahead
    rw [List.take_length_add_append, List.append_assoc]
    exact TokenStream.parse_ne_ok (htokens ▸ hsame) b

/-- A name with a dot behind it, and no identifier behind the dot. -/
def danglingDot : List Token :=
  [.ofKind .identifier "a", (Token.ofKind .dot ".").atLine 2, .ofKind .rightParen ")"]

/-- The dot is complained about, which takes a look at the token behind it. The name in front of it
is an expression. -/
theorem parse_error_at_danglingDot :
    (TokenStream.ofList danglingDot).parse.1 = .error ⟨.expectedEnd, 2, danglingDot[1]?⟩ ∧
      (∃ us e, (TokenStream.ofList (danglingDot.take 1 ++ us)).parse.1 = .ok e) ∧
      ∀ vs e, (TokenStream.ofList (danglingDot ++ vs)).parse.1 ≠ .ok e := by
  have hcheck : ((TokenStream.ofList danglingDot).parse.1.map fun _ => ()) =
      .error ⟨.expectedEnd, 2, danglingDot[1]?⟩ := by decide +kernel
  have herror : (TokenStream.ofList danglingDot).parse.1 =
      .error ⟨.expectedEnd, 2, danglingDot[1]?⟩ := by
    cases hresult : (TokenStream.ofList danglingDot).parse.1 with
    | ok e =>
      rw [hresult] at hcheck
      cases hcheck
    | error err =>
      rw [hresult] at hcheck
      exact congrArg Except.error (Except.error.inj hcheck)
  have hposition : (TokenStream.ofList danglingDot).tokens.length -
      (TokenStream.ofList danglingDot).parse.2.tokens.length = 1 := by decide +kernel
  have h := parse_error_at_offender danglingDot _ _ (Prod.ext herror rfl) (by decide +kernel)
  simp only [hposition] at h
  exact ⟨herror, h.2⟩

end WhereClause
