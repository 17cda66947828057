import WhereClause.Proofs.Parsing
import WhereClause.Proofs.SqlGrouping

/-!
# From one parser to another

Two parsers that are put together in the same way from parts that agree on some trees agree on these
trees too. `Parser.Carries` states the agreement: if `p` takes tokens and the result is in `P`, then
`q` takes the same tokens with the same result, and this is in `Q`. With `q` different from `p` it
carries results over; with `q` the same as `p` it says what all results of a parser are like. Each
combinator of the grammar gets one lemma for both uses.

The classes `P` and `Q` of trees have to fit the combinators. They are `Hereditary`: a tree is in
the class iff its children are, unless it is a comparison. Comparisons are where grammars differ,
and no lemma here is about them.

* `Hereditary`, `hereditary_someNode` — classes of trees that exclude some comparisons;
* `Parser.Carries` — agreement of two parsers on a class of trees;
* `Parser.chain_carries` — agreement on a repetition, from that on one round;
* `Parser.Carries.operand`, `Parser.Carries.inTarget`, `Parser.Carries.infixes` — agreement on the
  combinators of the grammar.
-/

namespace WhereClause

/-! ### Classes of trees -/

/-- **A class of trees that is decided by comparisons**: all other nodes are in it iff their
children are. -/
structure Hereditary (T : Expr → Prop) : Prop where
  leaf : ∀ l, T (.leaf l)
  unary : ∀ op x, T (.unary op x) ↔ T x
  binary : ∀ l op r, ¬ op.compares → (T (.binary l op r) ↔ T l ∧ T r)
  grouping : ∀ x, T (.grouping x) ↔ T x
  call : ∀ name close args, T (.call (.identifier name) close args) ↔ ∀ a ∈ args, T a
  list : ∀ items, T (.list items) ↔ ∀ a ∈ items, T a

/-- All trees. -/
theorem hereditary_true : Hereditary fun _ => True where
  leaf _ := trivial
  unary _ _ := Iff.rfl
  binary _ _ _ _ := (and_self_iff (a := True)).symm
  grouping _ := Iff.rfl
  call _ _ _ := iff_of_true trivial fun _ _ => trivial
  list _ := iff_of_true trivial fun _ _ => trivial

/-- Trees in two classes. -/
theorem Hereditary.and {T T' : Expr → Prop} (h : Hereditary T) (h' : Hereditary T') :
    Hereditary fun e => T e ∧ T' e where
  leaf l := ⟨h.leaf l, h'.leaf l⟩
  unary op x := and_congr (h.unary op x) (h'.unary op x)
  binary l op r hop := by
    rw [h.binary l op r hop, h'.binary l op r hop]
    exact and_and_and_comm
  grouping x := and_congr (h.grouping x) (h'.grouping x)
  call name close args := by simp only [h.call, h'.call, imp_and, forall_and]
  list items := by simp only [h.list, h'.list, imp_and, forall_and]

/-- A property of some node of several trees, or of none of their nodes. -/
theorem Expr.someNodeOf_eq_false {p : Expr → Bool} {es : List Expr} :
    someNodeOf p es = false ↔ ∀ e ∈ es, e.someNode p = false := by
  induction es with
  | nil => simp [someNodeOf]
  | cons e es ih => simp [someNodeOf, ih]

/-- **Trees without certain comparisons.** -/
theorem hereditary_someNode {p : Expr → Bool} (hp : ∀ e, ¬ e.isComparison → p e = false) :
    Hereditary fun e => e.someNode p = false where
  leaf l := hp (.leaf l) (by simp [Expr.isComparison])
  unary op x := by simp [Expr.someNode, hp (.unary op x) (by simp [Expr.isComparison])]
  binary l op r hop := by
    have hbinary := hp (.binary l op r) hop
    simp [Expr.someNode, hbinary]
  grouping x := by simp [Expr.someNode, hp (.grouping x) (by simp [Expr.isComparison])]
  call name close args := by
    have hcall := hp (.call (.identifier name) close args) (by simp [Expr.isComparison])
    have hname := hp (.identifier name) (by simp [Expr.isComparison])
    simp [Expr.someNode, hcall, hname, Expr.someNodeOf_eq_false]
  list items := by
    simp [Expr.someNode, hp (.list items) (by simp [Expr.isComparison]), Expr.someNodeOf_eq_false]

/-! ### Agreement of parsers -/

namespace Parser

variable {α : Type} {P Q : α → Prop} {p q : Parser α} {stop kinds : List Kind}

/-- **What one parser takes, another one takes as well**, with a result in `Q` if it is in `P`, in
front of tokens that do not go on with one of the given kinds. -/
def Carries (stop : List Kind) (P Q : α → Prop) (p q : Parser α) : Prop :=
  ∀ ⦃ts a rest⦄, p.Takes ts a rest → P a → Stops stop rest → q.Takes ts a rest ∧ Q a

/-- **Repetitions agree** if their rounds do. The class `P` is passed from the result back to where
the repetition started, and the class `Q` from there to the result. -/
theorem chain_carries {body body' : α → Token → Parser α} (hkinds : ∀ k ∈ kinds, k ∉ stop)
    (hbody : ∀ a t, t.kind ∈ kinds → ∀ {ts c mid}, (body a t).Takes ts c mid → P c →
      Stops stop mid → P a ∧ (body' a t).Takes ts c mid ∧ (Q a → Q c))
    {a b : α} {ts rest : List Token} (h : (chain kinds body a).Takes ts b rest) (hb : P b)
    (hrest : Stops stop rest) :
    P a ∧ Stops stop ts ∧ (chain kinds body' a).Takes ts b rest ∧ (Q a → Q b) := by
  refine chain_induction (Q := fun a ts b rest => P b → Stops stop rest →
    P a ∧ Stops stop ts ∧ (chain kinds body' a).Takes ts b rest ∧ (Q a → Q b)) ?_ ?_ h hb hrest
  · intro a ts hstop ha hts
    exact ⟨ha, hts, (takes_chain_stop hstop).mpr ⟨rfl, rfl⟩, id⟩
  · -- the class `P` comes back from the later rounds, and `Q` is handed on to them
    intro a t ts c mid b rest ht hround ih hb hrest
    obtain ⟨hc, hmid, hmore, hresult⟩ := ih hb hrest
    obtain ⟨ha, hround', hstep⟩ := hbody a t ht hround hc hmid
    exact ⟨ha, stops_cons.mpr (hkinds _ ht),
      (takes_chain_step ht).mpr ⟨c, mid, hround', hmore⟩, fun ha => hresult (hstep ha)⟩

namespace Carries

variable {P Q : Expr → Prop} {expr expr' : Parser Expr}

/-- Operands of an infix operator that is no comparison. -/
theorem infixes (hP : Hereditary P) (hQ : Hereditary Q) {p q : Parser Expr}
    (h : Carries stop P Q p q) (hkinds : ∀ k ∈ kinds, k ∉ stop)
    (hplain : ∀ k ∈ kinds, k ∉ Sql.predicateOperators) :
    Carries stop P Q (infixes kinds p) (infixes kinds q) := by
  have hround : ∀ l op, op.kind ∈ kinds → ∀ {us c mid},
      (do let r ← p; pure (Expr.binary l op r) : Parser Expr).Takes us c mid → P c →
      Stops stop mid →
        P l ∧ (do let r ← q; pure (Expr.binary l op r) : Parser Expr).Takes us c mid ∧
          (Q l → Q c) := by
    intro l op hop us c mid htakes hc hmid
    obtain ⟨r, mid', hr, hpure⟩ := takes_bind.mp htakes
    obtain ⟨rfl, rfl⟩ := takes_pure.mp hpure
    -- no operator of these kinds compares, so the tree is in the class iff its operands are
    have hop' : ¬ op.compares := fun h => hplain _ hop (Token.compares_iff.mp h)
    obtain ⟨hPl, hPr⟩ := (hP.binary l op r hop').mp hc
    obtain ⟨hr', hQr⟩ := h hr hPr hmid
    exact ⟨hPl, takes_bind.mpr ⟨r, _, hr', takes_pure.mpr ⟨rfl, rfl⟩⟩,
      fun hQl => (hQ.binary l op r hop').mpr ⟨hQl, hQr⟩⟩
  -- from the rounds to the whole row of operands
  intro ts e rest ht hPe hrest
  obtain ⟨first, mid, hfirst, hchain⟩ := takes_bind.mp ht
  obtain ⟨hPfirst, hmid, hchain', hresult⟩ := chain_carries hkinds hround hchain hPe hrest
  obtain ⟨hfirst', hQfirst⟩ := h hfirst hPfirst hmid
  exact ⟨takes_bind.mpr ⟨first, mid, hfirst', hchain'⟩, hresult hQfirst⟩

/-- Arguments agree if expressions do. -/
theorem arguments (he : Carries stop P Q expr expr') (hcomma : .comma ∉ stop) :
    Carries stop (fun args => ∀ a ∈ args, P a) (fun args => ∀ a ∈ args, Q a)
      (arguments expr) (arguments expr') := by
  -- a round puts one more expression behind those before, which it does not look at
  have hround : ∀ (before : List Expr) (op : Token), op.kind ∈ [Kind.comma] → ∀ {us c mid},
      (do let e ← expr; pure (before ++ [e]) : Parser (List Expr)).Takes us c mid →
      (∀ a ∈ c, P a) → Stops stop mid →
        (∀ a ∈ before, P a) ∧
          (do let e ← expr'; pure (before ++ [e]) : Parser (List Expr)).Takes us c mid ∧
          ((∀ a ∈ before, Q a) → ∀ a ∈ c, Q a) := by
    intro before _ _ us c mid htakes hc hmid
    obtain ⟨e, mid', hexpr, hpure⟩ := takes_bind.mp htakes
    obtain ⟨rfl, rfl⟩ := takes_pure.mp hpure
    obtain ⟨hbefore, hlast⟩ := List.forall_mem_append.mp hc
    obtain ⟨hexpr', hQe⟩ := he hexpr (hlast e (List.mem_singleton.mpr rfl)) hmid
    exact ⟨hbefore, takes_bind.mpr ⟨e, _, hexpr', takes_pure.mpr ⟨rfl, rfl⟩⟩,
      fun hQbefore => List.forall_mem_append.mpr ⟨hQbefore, List.forall_mem_singleton.mpr hQe⟩⟩
  intro ts args rest ht hargs hrest
  obtain ⟨first, mid, hfirst, hchain⟩ := takes_bind.mp ht
  obtain ⟨hPfirst, hmid, hchain', hresult⟩ :=
    chain_carries (by simpa using hcomma) hround hchain hargs hrest
  obtain ⟨hfirst', hQfirst⟩ := he hfirst (hPfirst first (List.mem_singleton.mpr rfl)) hmid
  exact ⟨takes_bind.mpr ⟨first, mid, hfirst', hchain'⟩,
    hresult (List.forall_mem_singleton.mpr hQfirst)⟩

/-- What stands in parentheses agrees whatever follows the closing one. -/
theorem closed {α β : Type} {P Q : α → Prop} {p q : Parser α} (h : Carries stop P Q p q)
    (hclose : .rightParen ∉ stop) (c : Complaint) (f : α → Token → β) {P' Q' : β → Prop}
    (hP : ∀ a close, P' (f a close) → P a) (hQ : ∀ a close, Q a → Q' (f a close)) :
    Carries [] P' Q'
      (do let a ← p; let close ← expect .rightParen c; pure (f a close))
      (do let a ← q; let close ← expect .rightParen c; pure (f a close)) := by
  intro ts b rest ht hb _
  obtain ⟨a, mid, ha, hmore⟩ := takes_bind.mp ht
  obtain ⟨close, mid', hexpect, hpure⟩ := takes_bind.mp hmore
  obtain ⟨rfl, rfl⟩ := takes_pure.mp hpure
  obtain ⟨rfl, hkind⟩ := takes_expect.mp hexpect
  -- inside, the next token is the closing parenthesis, which is none of those to stop at
  have hstop : Stops stop (close :: rest) := stops_cons.mpr (hkind ▸ hclose)
  obtain ⟨ha', hQa⟩ := h ha (hP a close hb) hstop
  exact ⟨takes_bind.mpr ⟨a, _, ha', hmore⟩, hQ a close hQa⟩

section Operands

variable (hP : Hereditary P) (hQ : Hereditary Q) (he : Carries stop P Q expr expr')
  (hstop : .rightParen ∉ stop ∧ .comma ∉ stop)

include hP hQ he hstop

/-- A name, with or without arguments. -/
theorem callOrName (name : String) :
    Carries [] P Q (callOrName expr name) (callOrName expr' name) := by
  intro ts e rest ht hPe _
  obtain ⟨opening?, mid, hopening, hmore⟩ := takes_bind.mp ht
  -- what follows the name decides between a column, a call without arguments and one with them
  cases opening? with
  | none =>
    obtain ⟨rfl, rfl⟩ := takes_pure.mp hmore
    exact ⟨takes_bind.mpr ⟨none, _, hopening, hmore⟩, hQ.leaf _⟩
  | some opening =>
    obtain ⟨close?, mid', hclosing, hargs⟩ := takes_bind.mp hmore
    cases close? with
    | some close =>
      obtain ⟨rfl, rfl⟩ := takes_pure.mp hargs
      refine ⟨takes_bind.mpr ⟨some opening, mid, hopening,
        takes_bind.mpr ⟨some close, _, hclosing, takes_pure.mpr ⟨rfl, rfl⟩⟩⟩, ?_⟩
      exact (hQ.call name close []).mpr (by simp)
    | none =>
      have hcall := (he.arguments hstop.2).closed hstop.1 .expectedCloseOfArguments
        (fun args close => Expr.call (.identifier name) close args)
        (fun args close => (hP.call name close args).mp)
        (fun args close => (hQ.call name close args).mpr)
      obtain ⟨hargs', hQe⟩ := hcall hargs hPe (by simp [Stops])
      exact ⟨takes_bind.mpr ⟨some opening, mid, hopening,
        takes_bind.mpr ⟨none, mid', hclosing, hargs'⟩⟩, hQe⟩

/-- **Operands agree** if the expressions inside them do. -/
theorem operand : Carries [] P Q (operand expr) (operand expr') := by
  intro ts e rest ht hPe _
  cases ts with
  | nil => exact absurd ht takes_fail
  | cons t ts =>
    rw [takes_operand_cons]
    -- parameters and literals are leaves; names and parentheses have expressions in them
    obtain ⟨hk, rfl, rfl⟩ | ⟨v, hv, rfl, rfl⟩ | ⟨hk, hmore⟩ | ⟨hk, hinner⟩ :=
      takes_operand_cons.mp ht
    · exact ⟨.inl ⟨hk, rfl, rfl⟩, hQ.leaf _⟩
    · exact ⟨.inr (.inl ⟨v, hv, rfl, rfl⟩), hQ.leaf _⟩
    · obtain ⟨hmore', hQe⟩ := he.callOrName hP hQ hstop _ hmore hPe (by simp [Stops])
      exact ⟨.inr (.inr (.inl ⟨hk, hmore'⟩)), hQe⟩
    · have hgroup := he.closed hstop.1 .expectedCloseOfGrouping (fun inner _ => Expr.grouping inner)
        (fun inner _ => (hP.grouping inner).mp) (fun inner _ => (hQ.grouping inner).mpr)
      obtain ⟨hinner', hQe⟩ := hgroup hinner hPe (by simp [Stops])
      exact ⟨.inr (.inr (.inr ⟨hk, hinner'⟩)), hQe⟩

/-- **The right side of `in`** agrees if the ends of ranges and the members of lists do. -/
theorem inTarget {ends : List Kind} {unary unary' : Parser Expr}
    (hu : Carries ends P Q unary unary') (hends : .dotDot ∉ ends) :
    Carries ends P Q (inTarget unary expr) (inTarget unary' expr') := by
  intro ts e rest ht hPe hrest
  obtain ⟨opening?, mid, hopening, hmore⟩ := takes_bind.mp ht
  cases opening? with
  | some opening =>
    have hlist := (he.arguments hstop.2).closed hstop.1 .expectedCloseOfList
      (fun items _ => Expr.list items) (fun items _ => (hP.list items).mp)
      (fun items _ => (hQ.list items).mpr)
    obtain ⟨hitems, hQe⟩ := hlist hmore hPe (by simp [Stops])
    exact ⟨takes_bind.mpr ⟨some opening, mid, hopening, hitems⟩, hQe⟩
  | none =>
    obtain ⟨first, mid₁, hfirst, hmore⟩ := takes_bind.mp hmore
    obtain ⟨op, mid₂, hmarker, hmore⟩ := takes_bind.mp hmore
    obtain ⟨last, mid₃, hlast, hpure⟩ := takes_bind.mp hmore
    obtain ⟨rfl, rfl⟩ := takes_pure.mp hpure
    obtain ⟨rfl, hop⟩ := takes_expect.mp hmarker
    -- two dots make no comparison, and they end whatever is in front of them
    have hplain : ¬ op.compares := by
      rw [Token.compares_iff, hop]
      decide
    have hdots : Stops ends (op :: mid₂) := stops_cons.mpr (hop ▸ hends)
    obtain ⟨hPfirst, hPlast⟩ := (hP.binary first op last hplain).mp hPe
    obtain ⟨hfirst', hQfirst⟩ := hu hfirst hPfirst hdots
    obtain ⟨hlast', hQlast⟩ := hu hlast hPlast hrest
    exact ⟨takes_bind.mpr ⟨none, mid, hopening, takes_bind.mpr ⟨first, _, hfirst',
      takes_bind.mpr ⟨op, _, hmarker, takes_bind.mpr ⟨last, _, hlast', hpure⟩⟩⟩⟩,
      (hQ.binary first op last hplain).mpr ⟨hQfirst, hQlast⟩⟩

end Operands

end Carries

end Parser

end WhereClause
