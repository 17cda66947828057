import WhereClause.Proofs.Grammar
import WhereClause.Proofs.Takes

/-!
# The parser accepts exactly its grammar

A parser is `Exact` for a relation between tokens and results when it takes precisely what the
relation derives: whatever it takes is derived (`sound`), and whatever is derived is taken in front
of any tokens that cannot prolong it (`complete`). Each grammar function gets one lemma that says
so, relative to the parsers it calls.

The levels of nesting run through all of them as a bound: `Within n r` are the derivations of trees
nested less than `n` deep. A function that goes down a level is exact at `n + 1` if what it calls is
exact at `n`, and the functions of one level are exact at the same bound as their operands. The
parsers with no level left refuse everything, and no tree is nested less than zero deep.

* `Exact.chain` — a repetition is exact for the left-recursive relation `Repeated`;
* `level_exact` — the parsers with `n` levels left are exact for the trees nested less than `n`
  deep;
* `TokenStream.parse_eq_ok_iff` — a stream of tokens parses to a tree iff the grammar derives the
  tree and the tree stays within the limit;
* `Within.unique` — within the limit, a list of tokens spells at most one tree.
-/

namespace WhereClause

/-! ### Exact parsers -/

namespace Parser

variable {α β : Type} {D : List Token → α → Prop} {kinds kinds' : List Kind}

/-- **A parser that takes exactly what a relation derives.** Tokens of the kinds listed might
prolong what was read, so completeness is stated for a rest that does not start with one. -/
structure Exact (p : Parser α) (D : List Token → α → Prop) (kinds : List Kind) : Prop where
  sound : ∀ {ts a rest}, p.Takes ts a rest → ∃ used, ts = used ++ rest ∧ D used a
  complete : ∀ {used a rest}, D used a → Stops kinds rest → p.Takes (used ++ rest) a rest

namespace Exact

/-- More kinds may be said to prolong what is read. -/
theorem mono {p : Parser α} (h : Exact p D kinds) (hsub : ∀ k ∈ kinds, k ∈ kinds') :
    Exact p D kinds' where
  sound := h.sound
  complete := fun hd hs => h.complete hd (hs.mono hsub)

/-- Another parser that takes the same, for a relation that derives the same. -/
theorem congr {p q : Parser α} {D' : List Token → α → Prop} (h : Exact p D kinds)
    (hp : ∀ ts a rest, q.Takes ts a rest ↔ p.Takes ts a rest) (hd : ∀ ts a, D' ts a ↔ D ts a) :
    Exact q D' kinds where
  sound := by
    intro ts a rest ht
    obtain ⟨used, hts, hused⟩ := h.sound ((hp ts a rest).mp ht)
    exact ⟨used, hts, (hd used a).mpr hused⟩
  complete := fun hd' hs => (hp _ _ _).mpr (h.complete ((hd _ _).mp hd') hs)

/-- The result may be put into a tree. -/
theorem map {p : Parser α} (h : Exact p D kinds) (f : α → β) :
    Exact (do let a ← p; pure (f a)) (fun us b => ∃ a, D us a ∧ b = f a) kinds where
  sound := by
    intro ts b rest ht
    obtain ⟨a, mid, ha, hpure⟩ := takes_bind.mp ht
    obtain ⟨rfl, rfl⟩ := takes_pure.mp hpure
    obtain ⟨used, hused, hd⟩ := h.sound ha
    exact ⟨used, hused, a, hd, rfl⟩
  complete := by
    rintro used b rest ⟨a, hd, rfl⟩ hstop
    exact takes_bind.mpr ⟨a, rest, h.complete hd hstop, takes_pure.mpr ⟨rfl, rfl⟩⟩

/-- Behind what is read there may be a closing parenthesis, and nothing can prolong that. -/
theorem closed {p : Parser α} (h : Exact p D kinds) (hkinds : .rightParen ∉ kinds) (c : Complaint)
    (f : α → Token → β) :
    Exact (do let a ← p; let close ← expect .rightParen c; pure (f a close))
      (fun us b => ∃ vs a close, us = vs ++ [close] ∧ D vs a ∧ close.kind = .rightParen ∧
        b = f a close) [] where
  sound := by
    intro ts b rest ht
    obtain ⟨a, mid, ha, hmore⟩ := takes_bind.mp ht
    obtain ⟨close, mid', hclose, hpure⟩ := takes_bind.mp hmore
    obtain ⟨rfl, rfl⟩ := takes_pure.mp hpure
    obtain ⟨rfl, hkind⟩ := takes_expect.mp hclose
    obtain ⟨used, rfl, hd⟩ := h.sound ha
    exact ⟨used ++ [close], by simp, used, a, close, rfl, hd, hkind, rfl⟩
  complete := by
    rintro used b rest ⟨vs, a, close, rfl, hd, hkind, rfl⟩ -
    -- the parenthesis does not prolong what stands in front of it
    have hstop : Stops kinds (close :: rest) := stops_cons.mpr (hkind ▸ hkinds)
    rw [List.append_assoc]
    exact takes_bind.mpr ⟨a, _, h.complete hd hstop, takes_bind.mpr
      ⟨close, rest, takes_expect.mpr ⟨rfl, hkind⟩, takes_pure.mpr ⟨rfl, rfl⟩⟩⟩

end Exact

/-- **Left recursion.** What `start` derives, followed by any number of rounds, each behind a token
of one of the kinds listed. -/
inductive Repeated (start : List Token → α → Prop) (kinds : List Kind)
    (round : α → Token → List Token → α → Prop) : List Token → α → Prop
  | start {ts : List Token} {a : α} : start ts a → Repeated start kinds round ts a
  | round {ts us : List Token} {op : Token} {a b : α} :
      Repeated start kinds round ts a → op.kind ∈ kinds → round a op us b →
      Repeated start kinds round (ts ++ op :: us) b

section Chain

variable {p : Parser α} {start : List Token → α → Prop} {body : α → Token → Parser α}
  {round : α → Token → List Token → α → Prop}

/-- The tokens that a repetition takes prolong what was read before it. -/
theorem chain_sound (hbody : ∀ a op, op.kind ∈ kinds → Exact (body a op) (round a op) kinds')
    {a b : α} {ts rest : List Token} (h : (chain kinds body a).Takes ts b rest) :
    ∀ us, Repeated start kinds round us a →
      ∃ used, ts = used ++ rest ∧ Repeated start kinds round (us ++ used) b := by
  -- the invariant is open in `us`, the tokens of all rounds so far
  refine chain_induction (Q := fun a ts b rest => ∀ us, Repeated start kinds round us a →
    ∃ used, ts = used ++ rest ∧ Repeated start kinds round (us ++ used) b) ?_ ?_ h
  · -- no round
    intro a ts _ us hus
    exact ⟨[], rfl, by rwa [List.append_nil]⟩
  · -- one round, whose tokens are put behind those of the others
    intro a op ts c mid b rest hop hround ih us hus
    obtain ⟨taken, rfl, hc⟩ := (hbody a op hop).sound hround
    obtain ⟨used, rfl, hb⟩ := ih _ (hus.round hop hc)
    refine ⟨op :: taken ++ used, by simp, ?_⟩
    rwa [List.append_assoc] at hb

/-- What is derived by rounds is read by the operand in front and the repetition behind it: the
repetition is at `a` when the tokens of `a` are used up, and goes on from there. -/
theorem chain_complete (hp : Exact p start kinds')
    (hbody : ∀ a op, op.kind ∈ kinds → Exact (body a op) (round a op) kinds')
    (hkinds : ∀ k ∈ kinds, k ∉ kinds') {ts : List Token} {a : α}
    (h : Repeated start kinds round ts a) {rest out : List Token} {b : α}
    (hstop : Stops kinds' rest) (hrest : (chain kinds body a).Takes rest b out) :
    (p >>= chain kinds body).Takes (ts ++ rest) b out := by
  -- The derivation ends with its last round and the repetition begins with its first one. So the
  -- induction takes rounds off the end and hands them over to the repetition behind.
  induction h generalizing rest with
  | start hs => exact takes_bind.mpr ⟨_, _, hp.complete hs hstop, hrest⟩
  | @round ts us op a c _ hop hround ih =>
    rw [List.append_assoc]
    refine ih (stops_cons.mpr (hkinds _ hop)) ?_
    exact (takes_chain_step hop).mpr ⟨c, rest, (hbody a op hop).complete hround hstop, hrest⟩

/-- **A repetition is exact** for the rounds it makes. -/
theorem Exact.chain (hp : Exact p start kinds')
    (hbody : ∀ a op, op.kind ∈ kinds → Exact (body a op) (round a op) kinds')
    (hkinds : ∀ k ∈ kinds, k ∉ kinds') :
    Exact (p >>= Parser.chain kinds body) (Repeated start kinds round) (kinds ++ kinds') where
  sound := by
    intro ts b rest h
    obtain ⟨a, mid, hfirst, hmore⟩ := takes_bind.mp h
    obtain ⟨used, rfl, ha⟩ := hp.sound hfirst
    obtain ⟨more, rfl, hb⟩ := chain_sound hbody hmore used (.start ha)
    exact ⟨used ++ more, by simp, hb⟩
  complete := by
    intro used b rest h hstop
    have hstop' : Stops kinds' rest := hstop.mono fun k hk => List.mem_append_right _ hk
    -- there is no further round, for no operator follows
    have hend : Stops kinds rest := hstop.mono fun k hk => List.mem_append_left _ hk
    exact chain_complete hp hbody hkinds h hstop' ((takes_chain_stop hend).mpr ⟨rfl, rfl⟩)

end Chain

end Parser

/-! ### Bounded derivations -/

/-- **Derivations of trees nested less than `n` deep.** -/
def Within (n : Nat) (r : Rule) (ts : List Token) (e : Expr) : Prop :=
  Derives r ts e ∧ e.nesting < n

/-- Arguments nested less than `n` deep. -/
def WithinArguments (n : Nat) (ts : List Token) (args : List Expr) : Prop :=
  Derives .arguments ts (.list args) ∧ Expr.nestingOf args < n

/-- The nesting of two lists of trees. -/
theorem Expr.nestingOf_append (xs ys : List Expr) :
    Expr.nestingOf (xs ++ ys) = max (Expr.nestingOf xs) (Expr.nestingOf ys) := by
  induction xs with
  | nil => simp [Expr.nestingOf]
  | cons x xs ih => rw [List.cons_append, Expr.nestingOf, ih, Expr.nestingOf, Nat.max_assoc]

/-- A tier repeats its operands. -/
theorem within_tier_iff {n : Nat} {t : Tier} {ts : List Token} {e : Expr} :
    Within n (.tier t) ts e ↔ Parser.Repeated (Within n t.operand) t.operators
      (fun l op us e => ∃ r, Within n (t.right op.kind) us r ∧ e = .binary l op r) ts e := by
  constructor
  · rintro ⟨h, hn⟩
    -- left recursion stays in the tier, so only the two productions of tiers come up
    generalize hr : Rule.tier t = rule at h
    induction h with
    | lift h _ =>
      cases hr
      exact .start ⟨h, hn⟩
    | chain hl hop hright ihl _ =>
      cases hr
      rw [Expr.nesting] at hn
      have hl := ihl (by omega) rfl
      exact hl.round hop ⟨_, ⟨hright, by omega⟩, rfl⟩
    | _ => cases hr
  · intro h
    induction h with
    | start h => exact ⟨.lift h.1, h.2⟩
    | round _ hop hround ih =>
      obtain ⟨r, ⟨hr, hrn⟩, rfl⟩ := hround
      refine ⟨.chain ih.1 hop hr, ?_⟩
      rw [Expr.nesting]
      exact Nat.max_lt.mpr ⟨ih.2, hrn⟩

/-- Arguments repeat expressions behind commas. -/
theorem withinArguments_iff {n : Nat} {ts : List Token} {args : List Expr} :
    WithinArguments n ts args ↔ Parser.Repeated
      (fun us args => ∃ e, Within n (.tier .disjunction) us e ∧ args = [e]) [.comma]
      (fun before _ us args => ∃ e, Within n (.tier .disjunction) us e ∧ args = before ++ [e])
      ts args := by
  constructor
  · rintro ⟨h, hn⟩
    -- only the two productions of arguments come up
    generalize hr : Rule.arguments = rule at h
    generalize he : Expr.list args = e at h
    induction h generalizing args with
    | argument h _ =>
      cases he
      rw [Expr.nestingOf, Expr.nestingOf] at hn
      exact .start ⟨_, ⟨h, by omega⟩, rfl⟩
    | arguments _ hcomma he' ih _ =>
      cases he
      rw [Expr.nestingOf_append, Expr.nestingOf, Expr.nestingOf] at hn
      have hbefore := ih (by omega) rfl rfl
      exact hbefore.round (by simp [hcomma]) ⟨_, ⟨he', by omega⟩, rfl⟩
    | _ => cases hr
  · intro h
    induction h with
    | start h =>
      obtain ⟨e, ⟨he, hen⟩, rfl⟩ := h
      refine ⟨.argument he, ?_⟩
      rw [Expr.nestingOf, Expr.nestingOf]
      omega
    | round _ hop hround ih =>
      obtain ⟨e, ⟨he, hen⟩, rfl⟩ := hround
      refine ⟨.arguments ih.1 (List.mem_singleton.mp hop) he, ?_⟩
      have hbefore := ih.2
      rw [Expr.nestingOf_append, Expr.nestingOf, Expr.nestingOf]
      omega

/-! ### One lemma per grammar function -/

namespace Parser

variable {n : Nat} {expr unary : Parser Expr}

/-- The kinds that may prolong an operand: a name may go on, and become a call. -/
def operandGoesOn : List Kind := [.dot, .leftParen]

/-- The kinds that may prolong a comparison. -/
def comparisonGoesOn : List Kind := Tier.comparison.operators ++ operandGoesOn

/-- The kinds that may prolong an equality. The word `between` prolongs nothing, but it is refused
behind every equality. -/
def equalityGoesOn : List Kind := .kwBetween :: (Tier.equality.operators ++ comparisonGoesOn)

/-- The kinds that may prolong a conjunction. -/
def conjunctionGoesOn : List Kind := Tier.conjunction.operators ++ equalityGoesOn

/-- The kinds that may prolong a disjunction. -/
def disjunctionGoesOn : List Kind := Tier.disjunction.operators ++ conjunctionGoesOn

/-- Operands of one tier with its operators between them. -/
theorem tier_exact {t : Tier} {p : Parser Expr} (right : Token → Parser Expr) {kinds : List Kind}
    (hp : Exact p (Within n t.operand) kinds)
    (hright : ∀ op, op.kind ∈ t.operators → Exact (right op) (Within n (t.right op.kind)) kinds)
    (hkinds : ∀ k ∈ t.operators, k ∉ kinds) :
    Exact (p >>= chain t.operators fun left operator => do
        let r ← right operator
        pure (.binary left operator r))
      (Within n (.tier t)) (t.operators ++ kinds) := by
  have hchain := hp.chain (fun l op hop => (hright op hop).map (Expr.binary l op)) hkinds
  exact hchain.congr (fun _ _ _ => Iff.rfl) (fun _ _ => within_tier_iff)

/-- Outside of the equalities, both sides of an operator follow the same rule. -/
theorem right_eq_operand {t : Tier} {k : Kind} (ht : t ≠ .equality) (hk : k ∈ t.operators) :
    t.right k = t.operand := by
  unfold Tier.right
  rw [if_neg]
  rintro rfl
  cases t <;> simp_all [Tier.operators]

/-- A tier that is no equality. -/
theorem infixes_exact {t : Tier} {p : Parser Expr} {kinds : List Kind} (ht : t ≠ .equality)
    (hp : Exact p (Within n t.operand) kinds) (hkinds : ∀ k ∈ t.operators, k ∉ kinds) :
    Exact (infixes t.operators p) (Within n (.tier t)) (t.operators ++ kinds) := by
  refine tier_exact (fun _ => p) hp (fun op hop => ?_) hkinds
  rw [right_eq_operand ht hop]
  exact hp

/-- Arguments are exact if expressions are. -/
theorem arguments_exact (he : Exact expr (Within n (.tier .disjunction)) disjunctionGoesOn) :
    Exact (arguments expr) (WithinArguments n) (.comma :: disjunctionGoesOn) := by
  have hchain := (he.map fun e => [e]).chain
    (fun before op (_ : op.kind ∈ [Kind.comma]) => he.map fun e => before ++ [e]) (by decide)
  refine hchain.congr (fun ts args rest => ?_) (fun _ _ => withinArguments_iff)
  -- The first argument is put into a list of its own before the repetition starts.
  unfold arguments
  rw [takes_bind, takes_bind]
  constructor
  · rintro ⟨e, mid, hfirst, hmore⟩
    exact ⟨[e], mid, takes_bind.mpr ⟨e, mid, hfirst, takes_pure.mpr ⟨rfl, rfl⟩⟩, hmore⟩
  · rintro ⟨first, mid, hfirst, hmore⟩
    obtain ⟨e, mid', he', hpure⟩ := takes_bind.mp hfirst
    obtain ⟨rfl, rfl⟩ := takes_pure.mp hpure
    exact ⟨e, mid, he', hmore⟩

/-! Names are read greedily, so a name is followed to its end whatever it started with. -/

/-- The segments that are read prolong the name before them. -/
theorem segments_sound {name : String} {us : List Token} (h : Named us name) (ts : List Token) :
    ∃ used, ts = used ++ (segments name ts).2 ∧ Named (us ++ used) (segments name ts).1 := by
  fun_induction segments name ts generalizing us with
  | case1 name d w ts hkinds ih =>
    obtain ⟨used, hts, hnamed⟩ := ih (h.more hkinds.1 hkinds.2)
    refine ⟨d :: w :: used, by rw [List.cons_append, List.cons_append, ← hts], ?_⟩
    rwa [List.append_assoc] at hnamed
  | case2 => exact ⟨[], rfl, by rwa [List.append_nil]⟩
  | case3 => exact ⟨[], rfl, by rwa [List.append_nil]⟩

/-- A name is read from its first identifier on. -/
theorem segments_complete {us : List Token} {name : String} (h : Named us name) :
    ∃ t vs, us = t :: vs ∧ t.kind = .identifier ∧
      ∀ rest, segments t.lexeme (vs ++ rest) = segments name rest := by
  induction h with
  | @one t h => exact ⟨t, [], rfl, h, fun rest => rfl⟩
  | @more ts name dot w _ hdot hw ih =>
    obtain ⟨t, vs, rfl, ht, hsegments⟩ := ih
    refine ⟨t, vs ++ [dot, w], rfl, ht, fun rest => ?_⟩
    rw [List.append_assoc, hsegments]
    simp [segments, hdot, hw]

/-- Without a dot, a name is at its end. -/
theorem segments_stop {name : String} {ts : List Token} (h : Stops [.dot] ts) :
    segments name ts = (name, ts) := by
  fun_cases segments name ts with
  | case1 d w ts hkinds =>
    rw [stops_cons, hkinds.1] at h
    exact absurd (by decide) h
  | case2 => rfl
  | case3 => rfl

/-- **What may follow a name**: nothing, or the arguments of a call. -/
inductive Applied (n : Nat) (name : String) : List Token → Expr → Prop
  | name : Applied n name [] (.identifier name)
  | empty {opening close : Token} :
      opening.kind = .leftParen → close.kind = .rightParen →
      Applied n name [opening, close] (.call (.identifier name) close [])
  | call {opening close : Token} {us : List Token} {args : List Expr} :
      opening.kind = .leftParen → WithinArguments n us args → close.kind = .rightParen →
      Applied n name (opening :: us ++ [close]) (.call (.identifier name) close args)

/-- A name with what follows it is an operand, one level above its arguments. -/
theorem Applied.within {name : String} {us vs : List Token} {e : Expr} (h : Applied n name vs e)
    (hname : Named us name) : Within (n + 1) .operand (us ++ vs) e := by
  cases h with
  | name =>
    rw [List.append_nil]
    exact ⟨.name hname, by simp [Expr.nesting]⟩
  | empty hopen hclose => exact ⟨.callEmpty hname hopen hclose, by simp [Expr.nesting]⟩
  | @call opening close ws args hopen hargs hclose =>
    refine ⟨?_, ?_⟩
    · have h := Derives.call hname hopen hargs.1 hclose
      rwa [List.append_assoc] at h
    · rw [Expr.nesting, if_neg (by simpa using hargs.1.items_ne_nil)]
      exact Nat.succ_lt_succ hargs.2

/-- **Names and calls** are exact for what may follow a name. -/
theorem callOrName_exact (he : Exact expr (Within n (.tier .disjunction)) disjunctionGoesOn)
    (name : String) : Exact (callOrName expr name) (Applied n name) [.leftParen] := by
  have hcall := (arguments_exact he).closed (by decide) .expectedCloseOfArguments
    (fun args close => Expr.call (.identifier name) close args)
  constructor
  · intro ts e rest h
    obtain ⟨opening?, mid, hopening, hmore⟩ := takes_bind.mp h
    cases opening? with
    | none =>
      obtain ⟨rfl, -⟩ := takes_accept_none.mp hopening
      obtain ⟨rfl, rfl⟩ := takes_pure.mp hmore
      exact ⟨[], rfl, .name⟩
    | some opening =>
      obtain ⟨rfl, hopen⟩ := takes_accept_some.mp hopening
      have hopen := List.mem_singleton.mp hopen
      obtain ⟨close?, mid', hclosing, hargs⟩ := takes_bind.mp hmore
      -- an empty list of arguments is noticed by its closing parenthesis
      cases close? with
      | none =>
        obtain ⟨rfl, -⟩ := takes_accept_none.mp hclosing
        obtain ⟨used, rfl, vs, args, close, rfl, hw, hclose, rfl⟩ := hcall.sound hargs
        exact ⟨opening :: vs ++ [close], by simp, .call hopen hw hclose⟩
      | some close =>
        obtain ⟨rfl, hclose⟩ := takes_accept_some.mp hclosing
        obtain ⟨rfl, rfl⟩ := takes_pure.mp hargs
        exact ⟨[opening, close], rfl, .empty hopen (List.mem_singleton.mp hclose)⟩
  · intro used e rest h hstop
    cases h with
    | name =>
      exact takes_bind.mpr ⟨none, rest, takes_accept_none.mpr ⟨rfl, hstop⟩,
        takes_pure.mpr ⟨rfl, rfl⟩⟩
    | @empty opening close hopen hclose =>
      refine takes_bind.mpr ⟨some opening, close :: rest,
        takes_accept_some.mpr ⟨rfl, by simp [hopen]⟩, takes_bind.mpr ⟨some close, rest,
        takes_accept_some.mpr ⟨rfl, by simp [hclose]⟩, takes_pure.mpr ⟨rfl, rfl⟩⟩⟩
    | @call opening close us args hopen hargs hclose =>
      -- The first argument does not start with a closing parenthesis.
      have hfirst : Stops [.rightParen] (us ++ [close] ++ rest) := by
        obtain ⟨t, vs, rfl, ht⟩ := hargs.1.starts
        have hstarters : ∀ k ∈ Rule.arguments.starters, k ∉ [Kind.rightParen] := by decide
        exact stops_cons.mpr (hstarters _ ht)
      refine takes_bind.mpr ⟨some opening, us ++ [close] ++ rest,
        takes_accept_some.mpr ⟨rfl, by simp [hopen]⟩, takes_bind.mpr ⟨none, _,
        takes_accept_none.mpr ⟨rfl, hfirst⟩, ?_⟩⟩
      exact hcall.complete ⟨us, args, close, rfl, hargs, hclose, rfl⟩ (by simp [Stops])

/-- What an operand can be is decided by its first token. -/
theorem takes_operand_cons {t : Token} {ts rest : List Token} {e : Expr} :
    (operand expr).Takes (t :: ts) e rest ↔
      (t.kind = .parameter ∧ e = .parameter t.lexeme ∧ rest = ts) ∨
      (∃ v, t.value? = some v ∧ e = .literal v ∧ rest = ts) ∨
      (t.kind = .identifier ∧ (callOrName expr (segments t.lexeme ts).1).Takes
        (segments t.lexeme ts).2 e rest) ∨
      (t.kind = .leftParen ∧ (do
        let inner ← expr
        let _ ← expect .rightParen .expectedCloseOfGrouping
        pure (Expr.grouping inner)).Takes ts e rest) := by
  have hname : ∀ {name : String}, (dottedName name >>= callOrName expr).Takes ts e rest ↔
      (callOrName expr (segments name ts).1).Takes (segments name ts).2 e rest := Iff.rfl
  unfold operand
  rw [takes_peek_bind]
  -- each kind makes one of the four cases possible at most
  cases hk : t.kind with
  | identifier => simp [hk, Token.value?, hname]
  | string => cases hv : t.literal <;> simp [hk, hv, Token.value?]
  | number => cases hv : t.literal <;> simp [hk, hv, Token.value?]
  | _ => simp [hk, Token.value?]

/-- An operand that starts with a name goes on behind the whole name. -/
theorem takes_operand_named {us mid rest : List Token} {name : String} {e : Expr}
    (hname : Named us name) (hmid : Stops [.dot] mid)
    (h : (callOrName expr name).Takes mid e rest) : (operand expr).Takes (us ++ mid) e rest := by
  obtain ⟨t, vs, rfl, ht, hsegments⟩ := segments_complete hname
  rw [List.cons_append]
  refine takes_operand_cons.mpr (.inr (.inr (.inl ⟨ht, ?_⟩)))
  rwa [hsegments, segments_stop hmid]

/-- **Operands** are exact one level above the expressions inside them. -/
theorem operand_exact (he : Exact expr (Within n (.tier .disjunction)) disjunctionGoesOn) :
    Exact (operand expr) (Within (n + 1) .operand) operandGoesOn := by
  have hgroup := he.closed (by decide) .expectedCloseOfGrouping (fun inner _ => Expr.grouping inner)
  have hleaf : ∀ l : Leaf, (Expr.leaf l).nesting < n + 1 := fun l => by simp [Expr.nesting]
  constructor
  · intro ts e rest h
    cases ts with
    | nil => exact absurd h takes_fail
    | cons t ts =>
      obtain ⟨hk, rfl, rfl⟩ | ⟨v, hv, rfl, rfl⟩ | ⟨hk, hmore⟩ | ⟨hk, hinner⟩ :=
        takes_operand_cons.mp h
      · exact ⟨[t], rfl, .parameter hk, hleaf _⟩
      · exact ⟨[t], rfl, .literal hv, hleaf _⟩
      · -- the name is read to its end before a parenthesis is looked for
        obtain ⟨used, hts, hnamed⟩ := segments_sound (.one hk) ts
        obtain ⟨more, hmid, happlied⟩ := (callOrName_exact he _).sound hmore
        refine ⟨t :: used ++ more, ?_, happlied.within hnamed⟩
        rw [List.append_assoc, ← hmid]
        exact congrArg (t :: ·) hts
      · obtain ⟨used, rfl, vs, inner, close, rfl, ⟨hd, hn⟩, hclose, rfl⟩ := hgroup.sound hinner
        refine ⟨t :: vs ++ [close], by simp, .grouping hk hd hclose, ?_⟩
        rw [Expr.nesting]
        exact Nat.succ_lt_succ hn
  · rintro used e rest ⟨h, hn⟩ hstop
    have hparen : Stops [.leftParen] rest := hstop.mono (by decide)
    cases h with
    | parameter hk => exact takes_operand_cons.mpr (.inl ⟨hk, rfl, rfl⟩)
    | literal hv => exact takes_operand_cons.mpr (.inr (.inl ⟨_, hv, rfl, rfl⟩))
    | name hname =>
      refine takes_operand_named hname (hstop.mono (by decide)) ?_
      exact (callOrName_exact he _).complete .name hparen
    | callEmpty hname hopen hclose =>
      rw [List.append_assoc]
      refine takes_operand_named hname (stops_cons.mpr (by simp [hopen])) ?_
      exact (callOrName_exact he _).complete (.empty hopen hclose) hparen
    | @call us vs name opening close args hname hopen hargs hclose =>
      -- only arguments that are there take a level
      rw [Expr.nesting, if_neg (by simpa using hargs.items_ne_nil)] at hn
      rw [List.append_assoc, List.append_assoc]
      refine takes_operand_named hname (stops_cons.mpr (by simp [hopen])) ?_
      have h := (callOrName_exact he name).complete
        (.call hopen ⟨hargs, Nat.lt_of_succ_lt_succ hn⟩ hclose) hparen
      rwa [List.append_assoc] at h
    | @grouping opening close ts inner hopen hd hclose =>
      rw [Expr.nesting] at hn
      refine takes_operand_cons.mpr (.inr (.inr (.inr ⟨hopen, ?_⟩)))
      exact hgroup.complete ⟨ts, inner, close, rfl, ⟨hd, Nat.lt_of_succ_lt_succ hn⟩, hclose, rfl⟩
        (by simp [Stops])

/-- **Prefix operators** go one level down; without one, an operand follows. -/
theorem signed_exact (hu : Exact unary (Within n .unary) operandGoesOn)
    (he : Exact expr (Within n (.tier .disjunction)) disjunctionGoesOn) :
    Exact (signed unary expr) (Within (n + 1) .unary) operandGoesOn := by
  constructor
  · intro ts e rest h
    obtain ⟨op?, mid, hop, hmore⟩ := takes_bind.mp h
    cases op? with
    | some op =>
      obtain ⟨rfl, hkind⟩ := takes_accept_some.mp hop
      -- the operand has a level less than the sign
      obtain ⟨used, rfl, x, ⟨hd, hn⟩, rfl⟩ := (hu.map (Expr.unary op)).sound hmore
      refine ⟨op :: used, rfl, .signed hkind hd, ?_⟩
      rw [Expr.nesting]
      exact Nat.succ_lt_succ hn
    | none =>
      obtain ⟨rfl, -⟩ := takes_accept_none.mp hop
      obtain ⟨used, hts, hd, hn⟩ := (operand_exact he).sound hmore
      exact ⟨used, hts, .plain hd, hn⟩
  · rintro used e rest ⟨h, hn⟩ hstop
    cases h with
    | @signed op us x hkind hd =>
      rw [Expr.nesting] at hn
      refine takes_bind.mpr ⟨some op, us ++ rest, takes_accept_some.mpr ⟨rfl, hkind⟩, ?_⟩
      exact (hu.map (Expr.unary op)).complete ⟨x, ⟨hd, Nat.lt_of_succ_lt_succ hn⟩, rfl⟩ hstop
    | plain hd =>
      -- an operand does not start with a sign
      have hsign : Stops [.kwNot, .minus] (used ++ rest) := by
        obtain ⟨t, us, rfl, ht⟩ := hd.starts
        have hsigns : ∀ k ∈ Rule.operand.starters, k ∉ [Kind.kwNot, Kind.minus] := by decide
        exact stops_cons.mpr (hsigns _ ht)
      exact takes_bind.mpr ⟨none, _, takes_accept_none.mpr ⟨rfl, hsign⟩,
        (operand_exact he).complete ⟨hd, hn⟩ hstop⟩

/-- **The right side of `in`.** A parenthesis always starts a list, so a range is only tried where
no parenthesis comes first. -/
theorem inTarget_exact (hu : Exact unary (Within (n + 1) .unary) operandGoesOn)
    (he : Exact expr (Within n (.tier .disjunction)) disjunctionGoesOn) :
    Exact (inTarget unary expr) (Within (n + 1) .target) operandGoesOn := by
  have hlist := (arguments_exact he).closed (by decide) .expectedCloseOfList
    (fun items _ => Expr.list items)
  constructor
  · intro ts e rest h
    obtain ⟨opening?, mid, hopening, hmore⟩ := takes_bind.mp h
    cases opening? with
    | some opening =>
      obtain ⟨rfl, hopen⟩ := takes_accept_some.mp hopening
      obtain ⟨used, rfl, vs, items, close, rfl, ⟨hd, hn⟩, hclose, rfl⟩ := hlist.sound hmore
      refine ⟨opening :: vs ++ [close], by simp,
        .members (List.mem_singleton.mp hopen) hd hclose, ?_⟩
      rw [Expr.nesting]
      exact Nat.succ_lt_succ hn
    | none =>
      obtain ⟨rfl, hparen⟩ := takes_accept_none.mp hopening
      obtain ⟨first, mid, hfirst, hmore⟩ := takes_bind.mp hmore
      obtain ⟨op, mid', hmarker, hmore⟩ := takes_bind.mp hmore
      obtain ⟨last, mid'', hlast, hpure⟩ := takes_bind.mp hmore
      obtain ⟨rfl, rfl⟩ := takes_pure.mp hpure
      obtain ⟨rfl, hop⟩ := takes_expect.mp hmarker
      obtain ⟨us, rfl, hus, husn⟩ := hu.sound hfirst
      obtain ⟨vs, rfl, hvs, hvsn⟩ := hu.sound hlast
      refine ⟨us ++ op :: vs, by simp, .range hus ?_ hop hvs, ?_⟩
      · -- the parenthesis that was looked for in vain is the first token of the range
        obtain ⟨t, us, rfl, -⟩ := hus.starts
        simpa [Stops] using hparen
      · rw [Expr.nesting]
        exact Nat.max_lt.mpr ⟨husn, hvsn⟩
  · rintro used e rest ⟨h, hn⟩ hstop
    cases h with
    | @members opening close ts items hopen hd hclose =>
      rw [Expr.nesting] at hn
      refine takes_bind.mpr ⟨some opening, ts ++ [close] ++ rest,
        takes_accept_some.mpr ⟨rfl, by simp [hopen]⟩, ?_⟩
      exact hlist.complete ⟨ts, items, close, rfl, ⟨hd, Nat.lt_of_succ_lt_succ hn⟩, hclose, rfl⟩
        (by simp [Stops])
    | @range us vs op first last hus hparen hop hvs =>
      rw [Expr.nesting] at hn
      obtain ⟨hfirst, hlast⟩ := Nat.max_lt.mp hn
      have hparen' : Stops [.leftParen] (us ++ op :: vs ++ rest) := by
        obtain ⟨t, us, rfl, -⟩ := hus.starts
        simpa using hparen
      -- two dots do not prolong a name, as one dot would
      have hrange : Stops operandGoesOn (op :: vs ++ rest) := stops_cons.mpr (by rw [hop]; decide)
      refine takes_bind.mpr ⟨none, _, takes_accept_none.mpr ⟨rfl, hparen'⟩, ?_⟩
      rw [List.append_assoc]
      exact takes_bind.mpr ⟨first, _, hu.complete ⟨hus, hfirst⟩ hrange, takes_bind.mpr
        ⟨op, _, takes_expect.mpr ⟨rfl, hop⟩, takes_bind.mpr
        ⟨last, rest, hu.complete ⟨hvs, hlast⟩ hstop, takes_pure.mpr ⟨rfl, rfl⟩⟩⟩⟩

/-- Comparisons are on the level of their operands. -/
theorem comparison_exact (hu : Exact unary (Within n .unary) operandGoesOn) :
    Exact (comparison unary) (Within n (.tier .comparison)) comparisonGoesOn :=
  infixes_exact (t := .comparison) (by decide) hu (by decide)

/-- Nothing is taken, and `between` is refused. -/
@[simp] theorem takes_rejectBetween {ts rest : List Token} {u : Unit} :
    rejectBetween.Takes ts u rest ↔ rest = ts ∧ Stops [.kwBetween] ts := by
  unfold rejectBetween
  rw [takes_peek_bind]
  cases ts with
  | nil => simp
  | cons t ts => by_cases h : t.kind = .kwBetween <;> simp [h]

/-- The parser for what stands on the right of an operator of the equalities. -/
def equalityRight (unary expr : Parser Expr) (operator : Token) : Parser Expr :=
  if operator.kind = .kwIn then inTarget unary expr else comparison unary

/-- The equalities, with the parser on the right of an operator by its name. -/
theorem equality_eq : equality unary expr = (do
    let first ← comparison unary
    let e ← chain Tier.equality.operators (fun left operator => do
      let r ← equalityRight unary expr operator
      pure (.binary left operator r)) first
    rejectBetween
    pure e) := by
  -- the choice of the parser on the right is made inside of the round
  have hbody : ∀ left operator, (do
      let right ← if operator.kind = Kind.kwIn then inTarget unary expr else comparison unary
      pure (Expr.binary left operator right)) = (do
        let r ← equalityRight unary expr operator
        pure (Expr.binary left operator r)) := by
    intro left operator
    unfold equalityRight
    split <;> rfl
  unfold equality
  simp only [hbody]
  rfl

/-- Equalities are a chain in front of anything but `between`. -/
theorem takes_equality {ts rest : List Token} {e : Expr} :
    (equality unary expr).Takes ts e rest ↔
      (comparison unary >>= chain Tier.equality.operators fun left operator => do
        let r ← equalityRight unary expr operator
        pure (.binary left operator r)).Takes ts e rest ∧ Stops [.kwBetween] rest := by
  rw [equality_eq, takes_bind, takes_bind]
  constructor
  · rintro ⟨first, mid, hfirst, hmore⟩
    obtain ⟨e', mid', hchain, hmore⟩ := takes_bind.mp hmore
    obtain ⟨_, mid'', hreject, hpure⟩ := takes_bind.mp hmore
    obtain ⟨rfl, rfl⟩ := takes_pure.mp hpure
    obtain ⟨rfl, hstop⟩ := takes_rejectBetween.mp hreject
    exact ⟨⟨first, mid, hfirst, hchain⟩, hstop⟩
  · rintro ⟨⟨first, mid, hfirst, hchain⟩, hstop⟩
    exact ⟨first, mid, hfirst, takes_bind.mpr ⟨e, rest, hchain, takes_bind.mpr
      ⟨(), rest, takes_rejectBetween.mpr ⟨rfl, hstop⟩, takes_pure.mpr ⟨rfl, rfl⟩⟩⟩⟩

/-- The right side of an equality, by its operator. -/
theorem equalityRight_exact (hu : Exact unary (Within (n + 1) .unary) operandGoesOn)
    (he : Exact expr (Within n (.tier .disjunction)) disjunctionGoesOn) (op : Token) :
    Exact (equalityRight unary expr op) (Within (n + 1) (Tier.equality.right op.kind))
      comparisonGoesOn := by
  unfold Tier.right equalityRight
  split
  · exact (inTarget_exact hu he).mono (by decide)
  · exact comparison_exact hu

/-- Equalities before `between` is looked for. -/
theorem equalityChain_exact (hu : Exact unary (Within (n + 1) .unary) operandGoesOn)
    (he : Exact expr (Within n (.tier .disjunction)) disjunctionGoesOn) :
    Exact (comparison unary >>= chain Tier.equality.operators fun left operator => do
        let r ← equalityRight unary expr operator
        pure (.binary left operator r))
      (Within (n + 1) (.tier .equality)) (Tier.equality.operators ++ comparisonGoesOn) :=
  tier_exact _ (comparison_exact hu) (fun op _ => equalityRight_exact hu he op) (by decide)

/-- **Equalities** are on the level of their operands. -/
theorem equality_exact (hu : Exact unary (Within (n + 1) .unary) operandGoesOn)
    (he : Exact expr (Within n (.tier .disjunction)) disjunctionGoesOn) :
    Exact (equality unary expr) (Within (n + 1) (.tier .equality)) equalityGoesOn := by
  have hchain := equalityChain_exact hu he
  constructor
  · intro ts e rest h
    exact hchain.sound (takes_equality.mp h).1
  · -- `between` is among the kinds that may not follow, so it is not met here
    intro used e rest h hstop
    exact takes_equality.mpr
      ⟨hchain.complete h (hstop.mono fun k hk => List.mem_cons_of_mem _ hk), hstop.mono (by decide)⟩

/-- **The whole of a level.** -/
theorem disjunction_exact (hu : Exact unary (Within (n + 1) .unary) operandGoesOn)
    (he : Exact expr (Within n (.tier .disjunction)) disjunctionGoesOn) :
    Exact (disjunction unary expr) (Within (n + 1) (.tier .disjunction)) disjunctionGoesOn := by
  have hand := infixes_exact (t := .conjunction) (by decide) (equality_exact hu he) (by decide)
  exact infixes_exact (t := .disjunction) (by decide) hand (by decide)

/-! ### Levels and streams -/

/-- **The parsers with `n` levels left** read exactly the trees nested less than `n` deep. -/
theorem level_exact (n : Nat) :
    Exact (level n).unary (Within n .unary) operandGoesOn ∧
      Exact (level n).expression (Within n (.tier .disjunction)) disjunctionGoesOn := by
  induction n with
  | zero =>
    -- With no level left nothing is read, and no tree is nested less than zero deep.
    have hnone : ∀ {r : Rule} {kinds : List Kind},
        Exact (fail .tooDeep : Parser Expr) (Within 0 r) kinds :=
      ⟨fun h => absurd h takes_fail, fun h => absurd h.2 (Nat.not_lt_zero _)⟩
    exact ⟨hnone, hnone⟩
  | succ n ih =>
    -- one level further up, prefix operators come first and all the rest is made of them
    have hu := signed_exact ih.1 ih.2
    exact ⟨hu, disjunction_exact hu ih.2⟩

end Parser

namespace TokenStream

theorem run_eq_ok_iff {α : Type} {s : TokenStream} {p : Parser α} {a : α} :
    (s.run p).1 = .ok a ↔ ∃ rest, p.Takes s.tokens a rest := by
  unfold run Parser.Takes
  cases h : (p s.tokens).result <;> simp [h]

/-- A stream parses to a tree iff the grammar derives the tree within the limit. -/
theorem parse_eq_ok_iff {s : TokenStream} {e : Expr} :
    s.parse.1 = .ok e ↔ Within Parser.maxLevels (.tier .disjunction) s.tokens e := by
  have hexact := (Parser.level_exact Parser.maxLevels).2
  unfold parse
  rw [run_eq_ok_iff]
  constructor
  · rintro ⟨rest, h⟩
    obtain ⟨e', mid, hexpr, hend⟩ := Parser.takes_bind.mp h
    rw [Parser.takes_peek_bind] at hend
    cases mid with
    -- tokens that are left over are complained about
    | cons t mid => exact absurd hend Parser.takes_fail
    | nil =>
      obtain ⟨rfl, -⟩ := Parser.takes_pure.mp hend
      obtain ⟨used, hused, hw⟩ := hexact.sound hexpr
      rwa [hused, List.append_nil]
  · intro h
    have hexpr := hexact.complete h Parser.stops_nil
    rw [List.append_nil] at hexpr
    exact ⟨[], Parser.takes_bind.mpr ⟨e, [], hexpr, Parser.takes_pure.mpr ⟨rfl, rfl⟩⟩⟩

end TokenStream

/-- **Within the limit the grammar is unambiguous.** -/
theorem Within.unique {ts : List Token} {e e' : Expr}
    (h : Within Parser.maxLevels (.tier .disjunction) ts e)
    (h' : Within Parser.maxLevels (.tier .disjunction) ts e') : e = e' := by
  -- both trees are the answer of the parser to these tokens, on whatever line the stream ends
  have hparse := (TokenStream.parse_eq_ok_iff (s := ⟨ts, 1⟩)).mpr h
  have hparse' := (TokenStream.parse_eq_ok_iff (s := ⟨ts, 1⟩)).mpr h'
  rw [hparse] at hparse'
  exact Except.ok.inj hparse'

/-- **The parser accepts exactly its grammar.** A list of tokens parses to a tree iff the grammar
derives the tree from the tokens before the first end marker, and the tree, which takes a level of
its own, is nested less deeply than there are levels. -/
theorem parse_ofList_eq_ok_iff (ts : List Token) (e : Expr) :
    (TokenStream.ofList ts).parse.1 = .ok e ↔
      Derives (.tier .disjunction) (ts.takeWhile (·.kind != .eof)) e ∧
        e.nesting < Parser.maxLevels :=
  TokenStream.parse_eq_ok_iff

end WhereClause
