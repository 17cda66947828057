import WhereClause.Compile
import WhereClause.Proofs.Answers
import WhereClause.Proofs.Lines
import WhereClause.Proofs.Rebuilding
import WhereClause.Proofs.Rendering

/-!
# Everything on one line

Lines are handed on from tokens to trees and to errors, and nobody asks for them. So it makes no
difference whether all tokens are moved to one line at the start or what came of them at the end.
This holds for each stage from tokens to SQL text.

*Parsing* goes through the grammar function by function, and each of them is compared with itself.
Its parts are not: behind a token that was taken, what comes next has that token in its hands, on
one line or on the other. Hence `Parser.Relines` relates two parsers, and a function that changes
the result of the one into that of the other.

*Passes over leaves* see leaves only, which have no lines. They may put trees with lines of their
own in the places of leaves; these are compared up to lines too.

*Writing* never looks at the line of an operator, but complains about the operator as it is. Hence
`Sql.Writer.Same` compares two writers on every sink, and their errors up to lines.

* `Parser.Relines.bind`, `Parser.Relines.chain` — sequences and repetitions of such parsers;
* `TokenStream.parse_atLine` — parsing on one line;
* `applyPasses_of_atLine_eq` — passes over leaves on two trees that differ in lines only;
* `Sql.text_atLine` — the SQL text of a tree on one line.
-/

namespace WhereClause

namespace Parser

variable {α β γ δ : Type} {n : Nat}

/-- **`q` is `p` on line `n`**: of tokens moved to that line, `q` takes as many as `p` takes where
they are, and its result is that of `p` changed by `φ`. -/
def Relines (n : Nat) (φ : α → β) (p : Parser α) (q : Parser β) : Prop :=
  ∀ ts r rest, p.Gives ts r rest →
    q.Gives (ts.map (·.atLine n)) (r.map φ) (rest.map (·.atLine n))

section Combinators

variable {φ : α → β} {ψ : γ → δ} {p : Parser α} {q : Parser β} {f : α → Parser γ}
  {g : β → Parser δ}

theorem relines_pure {a : α} {b : β} (h : φ a = b) : Relines n φ (pure a) (pure b) := by
  intro ts r rest hpure
  obtain ⟨rfl, rfl⟩ := gives_pure.mp hpure
  exact gives_pure.mpr ⟨congrArg Except.ok h, rfl⟩

theorem relines_fail (c : Complaint) : Relines n φ (fail c) (fail c) := by
  intro ts r rest h
  obtain ⟨rfl, rfl⟩ := gives_fail.mp h
  exact gives_fail.mpr ⟨rfl, rfl⟩

/-- **Sequencing.** The second parsers are given results that differ by `φ`. -/
theorem Relines.bind (hp : Relines n φ p q)
    (hf : ∀ a, Relines n ψ (f a) (g (φ a))) : Relines n ψ (p >>= f) (q >>= g) := by
  intro ts r rest h
  obtain ⟨a, mid, htakes, hgives⟩ | ⟨c, rfl, hfails⟩ := gives_bind.mp h
  · exact gives_bind.mpr (.inl ⟨φ a, _, hp _ _ _ htakes, hf a _ _ _ hgives⟩)
  · exact gives_bind.mpr (.inr ⟨c, rfl, hp _ _ _ hfails⟩)

/-- A choice that does not depend on lines. -/
theorem Relines.ite {b b' : Prop} [Decidable b] [Decidable b'] (hb : b ↔ b') {p₁ p₂ : Parser α}
    {q₁ q₂ : Parser β} (h₁ : Relines n φ p₁ q₁) (h₂ : Relines n φ p₂ q₂) :
    Relines n φ (if b then p₁ else p₂) (if b' then q₁ else q₂) := by
  by_cases h : b
  · rwa [if_pos h, if_pos (hb.mp h)]
  · rwa [if_neg h, if_neg fun h' => h (hb.mpr h')]

/-- A token that is looked at is on the other line. -/
theorem relines_peek : Relines n (Option.map (·.atLine n)) peek peek := by
  rintro ts r rest ⟨rfl, rfl⟩
  exact ⟨congrArg Except.ok List.head?_map, rfl⟩

theorem relines_skip : Relines n id skip skip := by
  rintro ts r rest ⟨rfl, rfl⟩
  exact ⟨rfl, List.map_tail.symm⟩

/-- A token that may be there. -/
theorem relines_accept (kinds : List Kind) :
    Relines n (Option.map (·.atLine n)) (accept kinds) (accept kinds) := by
  refine relines_peek.bind fun o => ?_
  cases o with
  | none => exact relines_pure rfl
  | some t =>
    -- the kind decides, which is the same on every line
    exact .ite Iff.rfl (relines_skip.bind fun _ => relines_pure rfl) (relines_pure rfl)

/-- A token that has to be there. -/
theorem relines_expect (kind : Kind) (c : Complaint) :
    Relines n (·.atLine n) (expect kind c) (expect kind c) := by
  refine (relines_accept _).bind fun o => ?_
  cases o with
  | none => exact relines_fail c
  | some t => exact relines_pure rfl

/-- **Repetition.** A round is given what was read so far and the token that started it. -/
theorem Relines.chain {kinds : List Kind} {body : α → Token → Parser α}
    {body' : β → Token → Parser β}
    (hbody : ∀ a t, Relines n φ (body a t) (body' (φ a) (t.atLine n))) (a : α) :
    Relines n φ (Parser.chain kinds body a) (Parser.chain kinds body' (φ a)) := by
  intro ts
  -- a round may take any number of tokens, so the induction is on how many are left
  induction hlength : ts.length using Nat.strongRecOn generalizing a ts with
  | ind k ih =>
    intro r rest h
    obtain ⟨op, us, rfl, hkind, -⟩ | ⟨hstop, -⟩ := takes_accept kinds ts
    · rw [gives_chain_step hkind] at h
      rw [List.map_cons, gives_chain_step (t := op.atLine n) hkind]
      obtain ⟨b, mid, htakes, hgives⟩ | ⟨c, rfl, hfails⟩ := gives_bind.mp h
      · have hlt : mid.length < k := by
          have hle := (gives_ok.mpr htakes).suffix.length_le
          rw [← hlength, List.length_cons]
          exact Nat.lt_succ_of_le hle
        have hround := hbody a op _ _ _ (gives_ok.mpr htakes)
        exact gives_bind.mpr (.inl ⟨φ b, _, hround, ih _ hlt b mid rfl r rest hgives⟩)
      · exact gives_bind.mpr (.inr ⟨c, rfl, hbody a op _ _ _ hfails⟩)
    · -- the token that stops the one stops the other, being of the same kind
      obtain ⟨rfl, rfl⟩ := (gives_chain_stop hstop).mp h
      have hstop' : Stops kinds (rest.map (·.atLine n)) := by
        cases rest with
        | nil => exact stops_nil
        | cons t us => exact stops_cons.mpr fun hmem => stops_cons.mp hstop hmem
      exact (gives_chain_stop hstop').mpr ⟨rfl, rfl⟩

end Combinators

/-! ### The grammar functions -/

/-- Kinds decide where a name ends, and lexemes what it is. -/
theorem segments_map_atLine (name : String) (ts : List Token) :
    segments name (ts.map (·.atLine n)) =
      ((segments name ts).1, (segments name ts).2.map (·.atLine n)) := by
  fun_induction segments name ts with
  | case1 name d w ts hkinds ih =>
    have hkinds' : (d.atLine n).kind = .dot ∧ (w.atLine n).kind = .identifier := hkinds
    rw [List.map_cons, List.map_cons, segments, if_pos hkinds']
    exact ih
  | case2 name d w ts hkinds =>
    have hkinds' : ¬ ((d.atLine n).kind = .dot ∧ (w.atLine n).kind = .identifier) := hkinds
    rw [List.map_cons, List.map_cons, segments, if_neg hkinds']
  | case3 name ts hts =>
    -- fewer than two tokens are left, and the name ends
    rcases ts with _ | ⟨d, _ | ⟨w, us⟩⟩
    · rfl
    · rfl
    · exact absurd rfl (hts d w us)

/-- Names are made of lexemes and kinds. -/
theorem relines_dottedName (name : String) :
    Relines n id (dottedName name) (dottedName name) := by
  intro ts r rest h
  obtain ⟨rfl, rfl⟩ := gives_dottedName.mp h
  rw [gives_dottedName, segments_map_atLine]
  exact ⟨rfl, rfl⟩

section Grammar

variable {inner expr unary : Parser Expr}

/-- Arguments. -/
theorem relines_arguments (he : Relines n (Expr.atLine n) expr expr) :
    Relines n (Expr.atLineAll n) (arguments expr) (arguments expr) := by
  refine he.bind fun first => ?_
  refine Relines.chain (φ := Expr.atLineAll n) (fun before _ => he.bind fun e => ?_) [first]
  have hsnoc : Expr.atLineAll n (before ++ [e]) = Expr.atLineAll n before ++ [e.atLine n] :=
    Expr.atLineAll_append before [e]
  exact relines_pure hsnoc

/-- Names and calls. The tree keeps a closing parenthesis, which moves with its token. -/
theorem relines_callOrName (he : Relines n (Expr.atLine n) expr expr) (name : String) :
    Relines n (Expr.atLine n) (callOrName expr name) (callOrName expr name) := by
  refine (relines_accept _).bind fun o => ?_
  cases o with
  | none => exact relines_pure rfl
  | some _ =>
    refine (relines_accept _).bind fun o => ?_
    cases o with
    | some close => exact relines_pure rfl
    | none =>
      exact (relines_arguments he).bind fun args => (relines_expect _ _).bind fun close =>
        relines_pure rfl

/-- **Operands.** -/
theorem relines_operand (he : Relines n (Expr.atLine n) expr expr) :
    Relines n (Expr.atLine n) (operand expr) (operand expr) := by
  have hskip : ∀ l : Leaf, Relines n (Expr.atLine n) (do skip; pure (.leaf l))
      (do skip; pure (.leaf l)) :=
    fun l => relines_skip.bind fun _ => relines_pure rfl
  refine relines_peek.bind fun o => ?_
  cases o with
  | none => exact relines_fail _
  | some t =>
    simp only [Option.map_some, Token.kind_atLine]
    cases hk : t.kind with
    | parameter | kwFalse | kwTrue | kwNull => exact hskip _
    | identifier =>
      exact relines_skip.bind fun _ => (relines_dottedName _).bind fun name =>
        relines_callOrName he name
    | string | number =>
      -- the value of a literal is not on a line
      have hliteral : (t.atLine n).literal = t.literal := rfl
      simp only [hliteral]
      cases t.literal with
      | none => exact relines_fail _
      | some v => exact hskip _
    | leftParen =>
      exact relines_skip.bind fun _ => he.bind fun inner => (relines_expect _ _).bind fun _ =>
        relines_pure rfl
    | _ => exact relines_fail _

theorem relines_signed (hi : Relines n (Expr.atLine n) inner inner)
    (he : Relines n (Expr.atLine n) expr expr) :
    Relines n (Expr.atLine n) (signed inner expr) (signed inner expr) := by
  refine (relines_accept _).bind fun o => ?_
  cases o with
  | none => exact relines_operand he
  | some op => exact hi.bind fun x => relines_pure rfl

/-- The right side of `in`. The tree keeps the dots of a range, which move with their token. -/
theorem relines_inTarget (hu : Relines n (Expr.atLine n) unary unary)
    (he : Relines n (Expr.atLine n) expr expr) :
    Relines n (Expr.atLine n) (inTarget unary expr) (inTarget unary expr) := by
  refine (relines_accept _).bind fun o => ?_
  cases o with
  | none =>
    exact hu.bind fun first => (relines_expect _ _).bind fun op => hu.bind fun last =>
      relines_pure rfl
  | some _ =>
    exact (relines_arguments he).bind fun items => (relines_expect _ _).bind fun _ =>
      relines_pure rfl

/-- Operands with operators between them. The operators move with their tokens. -/
theorem relines_infixes (kinds : List Kind) (hu : Relines n (Expr.atLine n) unary unary) :
    Relines n (Expr.atLine n) (infixes kinds unary) (infixes kinds unary) := by
  refine hu.bind fun first => .chain (fun left op => ?_) first
  exact hu.bind fun right => relines_pure rfl

/-- The complaint about `between`. -/
theorem relines_rejectBetween : Relines n id rejectBetween rejectBetween := by
  refine relines_peek.bind fun o => ?_
  cases o with
  | none => exact relines_pure rfl
  | some t =>
    exact .ite Iff.rfl (relines_fail _) (relines_pure rfl)

/-- Equalities. -/
theorem relines_equality (hu : Relines n (Expr.atLine n) unary unary)
    (he : Relines n (Expr.atLine n) expr expr) :
    Relines n (Expr.atLine n) (equality unary expr) (equality unary expr) := by
  have hcomparison : Relines n (Expr.atLine n) (comparison unary) (comparison unary) :=
    relines_infixes _ hu
  refine hcomparison.bind fun first => Relines.bind (φ := Expr.atLine n)
    (.chain (fun left op => ?_) first)
    fun e => relines_rejectBetween.bind fun _ => relines_pure rfl
  refine .ite Iff.rfl ?_ ?_
  · exact (relines_inTarget hu he).bind fun right => relines_pure rfl
  · exact hcomparison.bind fun right => relines_pure rfl

theorem relines_disjunction (hu : Relines n (Expr.atLine n) unary unary)
    (he : Relines n (Expr.atLine n) expr expr) :
    Relines n (Expr.atLine n) (disjunction unary expr) (disjunction unary expr) :=
  relines_infixes _ (relines_infixes _ (relines_equality hu he))

end Grammar

/-- **All levels.** -/
theorem relines_level (k : Nat) :
    Relines n (Expr.atLine n) (level k).unary (level k).unary ∧
      Relines n (Expr.atLine n) (level k).expression (level k).expression := by
  induction k with
  | zero => exact ⟨relines_fail _, relines_fail _⟩
  | succ k ih =>
    have hunary := relines_signed ih.1 ih.2
    exact ⟨hunary, relines_disjunction hunary ih.2⟩

/-- **The whole of a filter.** -/
theorem relines_whole : Relines n (Expr.atLine n) whole whole := by
  refine (relines_level maxLevels).2.bind fun e => relines_peek.bind fun o => ?_
  cases o with
  | none => exact relines_pure rfl
  | some _ => exact relines_fail _

end Parser

/-! ### Streams of tokens -/

/-- A parse error with its token on another line, which is the line it names then. -/
def ParseError.atLine (n : Nat) (e : ParseError) : ParseError where
  complaint := e.complaint
  line := n
  token := e.token.map (·.atLine n)

namespace ParseError

variable {e e' : ParseError} {n : Nat}

/-- What an error stands near to has no line. -/
theorem near_eq_of_atLine_eq (h : e.atLine n = e'.atLine n) : e.near = e'.near := by
  have hnear : ∀ e : ParseError, e.near = (e.atLine n).near := by
    intro e
    rw [near, near, atLine, Option.map_map]
    rfl
  rw [hnear, h, ← hnear]

/-- The text of an error has no line. -/
theorem detail_eq_of_atLine_eq (h : e.atLine n = e'.atLine n) : e.detail = e'.detail := by
  have hdetail : ∀ e : ParseError, e.detail = (e.atLine n).detail := by
    intro e
    obtain ⟨complaint, line, token⟩ := e
    cases token <;> rfl
  rw [hdetail, h, ← hdetail]

end ParseError

namespace TokenStream

/-- A stream on one line. -/
def atLine (n : Nat) (s : TokenStream) : TokenStream where
  tokens := s.tokens.map (·.atLine n)
  endLine := n

/-- **Parsing on one line** gives the tree or the error moved to that line. -/
theorem parse_atLine (n : Nat) (s : TokenStream) :
    (s.atLine n).parse.1 = (s.parse.1.map (Expr.atLine n)).mapError (ParseError.atLine n) := by
  obtain ⟨hresult, hrest⟩ := Parser.relines_whole (n := n) s.tokens _ _ ⟨rfl, rfl⟩
  rw [parse_eq_run, parse_eq_run, run, run]
  change (Parser.whole (s.atLine n).tokens).result = _ at hresult
  change (Parser.whole (s.atLine n).tokens).rest = _ at hrest
  simp only [hresult, hrest]
  cases (Parser.whole s.tokens).result with
  | ok e => rfl
  | error c =>
    -- the error is about the first token that is left, or about the end of the input
    cases (Parser.whole s.tokens).rest <;> rfl

end TokenStream

/-! ### Passes over leaves -/

section Passes

variable {σ : Type} {n : Nat}

/-- Whether an answer is taken for a callee is no matter of lines. -/
theorem Expr.calleeOr_atLine (callee answered : Expr) :
    (callee.calleeOr answered).atLine n = (callee.atLine n).calleeOr (answered.atLine n) := by
  cases answered with
  | leaf l => cases l <;> rfl
  | _ => rfl

mutual

/-- **Trees in the places of leaves** are put there whatever the lines of the tree are. -/
theorem Expr.graft_atLine (f : Leaf → StateM σ Expr) : ∀ (e : Expr) (s : σ),
    ∃ x y s', (e.graft f).run s = (x, s') ∧ ((e.atLine n).graft f).run s = (y, s') ∧
      y.atLine n = x.atLine n
  | .leaf l, s => ⟨_, _, _, rfl, rfl, rfl⟩
  | .unary op x, s => by
    obtain ⟨x', y', s₁, hx, hy, hxy⟩ := graft_atLine f x s
    -- the trees that come for the leaves may have lines of their own, hence two results
    refine ⟨.unary op x', .unary (op.atLine n) y', s₁, ?_, ?_, ?_⟩
    · rw [graft, run_bind_of_run hx]
      rfl
    · rw [atLine, graft, run_bind_of_run hy]
      rfl
    · rw [atLine, atLine, hxy, Token.atLine_atLine]
  | .binary l op r, s => by
    obtain ⟨lx, ly, s₁, hlx, hly, hl⟩ := graft_atLine f l s
    -- the leaves on the left are the same ones, so both runs are in the same state behind them
    obtain ⟨rx, ry, s₂, hrx, hry, hr⟩ := graft_atLine f r s₁
    refine ⟨.binary lx op rx, .binary ly (op.atLine n) ry, s₂, ?_, ?_, ?_⟩
    · rw [graft, run_bind_of_run hlx, run_bind_of_run hrx]
      rfl
    · rw [atLine, graft, run_bind_of_run hly, run_bind_of_run hry]
      rfl
    · rw [atLine, atLine, hl, hr, Token.atLine_atLine]
  | .grouping x, s => by
    obtain ⟨x', y', s₁, hx, hy, hxy⟩ := graft_atLine f x s
    refine ⟨.grouping x', .grouping y', s₁, ?_, ?_, ?_⟩
    · rw [graft, run_bind_of_run hx]
      rfl
    · rw [atLine, graft, run_bind_of_run hy]
      rfl
    · rw [atLine, atLine, hxy]
  | .call callee close args, s => by
    obtain ⟨cx, cy, s₁, hcx, hcy, hc⟩ := graft_atLine f callee s
    obtain ⟨xs, ys, s₂, hxs, hys, hs⟩ := graftAll_atLineAll f args s₁
    refine ⟨.call (callee.calleeOr cx) close xs,
      .call ((callee.atLine n).calleeOr cy) (close.atLine n) ys, s₂, ?_, ?_, ?_⟩
    · rw [graft, run_bind_of_run hcx, run_bind_of_run hxs]
      rfl
    · rw [atLine, graft, run_bind_of_run hcy, run_bind_of_run hys]
      rfl
    · -- whether the callee stays or the answer takes its place, it is moved to the line at the end
      rw [atLine, atLine, calleeOr_atLine, calleeOr_atLine, hc, hs, Token.atLine_atLine,
        atLine_atLine]
  | .list items, s => by
    obtain ⟨xs, ys, s₁, hxs, hys, hs⟩ := graftAll_atLineAll f items s
    refine ⟨.list xs, .list ys, s₁, ?_, ?_, ?_⟩
    · rw [graft, run_bind_of_run hxs]
      rfl
    · rw [atLine, graft, run_bind_of_run hys]
      rfl
    · rw [atLine, atLine, hs]

/-- The same for several trees in turn. -/
theorem Expr.graftAll_atLineAll (f : Leaf → StateM σ Expr) : ∀ (es : List Expr) (s : σ),
    ∃ xs ys s', (graftAll f es).run s = (xs, s') ∧ (graftAll f (atLineAll n es)).run s = (ys, s') ∧
      atLineAll n ys = atLineAll n xs
  | [], s => ⟨[], [], s, rfl, rfl, rfl⟩
  | e :: es, s => by
    obtain ⟨x, y, s₁, hx, hy, hxy⟩ := graft_atLine f e s
    obtain ⟨xs, ys, s₂, hxs, hys, hs⟩ := graftAll_atLineAll f es s₁
    refine ⟨x :: xs, y :: ys, s₂, run_graftAll_cons hx hxs, run_graftAll_cons hy hys, ?_⟩
    rw [atLineAll, atLineAll, hxy, hs]

end

/-- **Passes over leaves do not see lines.** -/
theorem applyPasses_of_atLine_eq {passes : List (Pass (StateM σ))}
    (hpasses : ∀ p ∈ passes, ∃ f, p = Pass.ofLeaf f) {e e' : Expr}
    (he : e'.atLine n = e.atLine n) (st : σ) :
    ∃ x x' st', (applyPasses passes e).run st = (x, st') ∧
      (applyPasses passes e').run st = (x', st') ∧ x'.atLine n = x.atLine n := by
  induction passes generalizing e e' st with
  | nil => exact ⟨e, e', st, rfl, rfl, he⟩
  | cons p passes ih =>
    obtain ⟨⟨f, rfl⟩, hpasses'⟩ := List.forall_mem_cons.mp hpasses
    -- both trees are compared with the one that has all tokens on one line
    have hstep : ∀ e : Expr, ∃ r y st₁, ((Pass.ofLeaf f).apply e).run st = (r, st₁) ∧
        ((e.atLine n).graft (Pass.onLeaf f)).run st = (y, st₁) ∧ y.atLine n = r.tree.atLine n := by
      intro e
      obtain ⟨r, x, st₁, happly, hgraft, hr⟩ := Pass.apply_ofLeaf f e st
      obtain ⟨x', y, st₂, hx, hy, hxy⟩ := Expr.graft_atLine (n := n) (Pass.onLeaf f) e st
      obtain ⟨rfl, rfl⟩ := Prod.mk.inj (hgraft.symm.trans hx)
      exact ⟨r, y, st₁, happly, hy, hr.tree_eq ▸ hxy⟩
    obtain ⟨r, y, st₁, hr, hy, hry⟩ := hstep e
    obtain ⟨r', y', st₂, hr', hy', hry'⟩ := hstep e'
    rw [he, hy] at hy'
    obtain ⟨rfl, rfl⟩ := Prod.mk.inj hy'
    obtain ⟨x, x', st', hx, hx', hxx'⟩ := ih hpasses' (hry'.symm.trans hry) st₁
    refine ⟨x, x', st', ?_, ?_, hxx'⟩
    · rw [applyPasses_cons, run_bind_of_run hr]
      exact hx
    · rw [applyPasses_cons, run_bind_of_run hr']
      exact hx'

end Passes

/-! ### Writing -/

/-- An error with its operator on another line. -/
def SqlError.atLine (n : Nat) : SqlError → SqlError
  | invalidUnaryOperator op => invalidUnaryOperator (op.atLine n)
  | invalidBinaryOperator op => invalidBinaryOperator (op.atLine n)
  | e => e

/-- Results that are the same up to a change of errors. -/
theorem cases_of_mapError_eq {ε ε' α : Type} {f : ε → ε'} {x y : Except ε α}
    (h : x.mapError f = y.mapError f) :
    (∃ a, x = .ok a ∧ y = .ok a) ∨ ∃ e e', x = .error e ∧ y = .error e' ∧ f e = f e' := by
  cases x with
  | ok a =>
    cases y with
    | ok b => exact .inl ⟨a, rfl, congrArg Except.ok (Except.ok.inj h).symm⟩
    | error e' => cases h
  | error e =>
    cases y with
    | ok b => cases h
    | error e' => exact .inr ⟨e, e', rfl, rfl, Except.error.inj h⟩

namespace Sql

variable {n : Nat}

/-- **Two writers that write the same**, and differ in the lines of their errors only. -/
def Writer.Same (n : Nat) (w v : Writer Unit) : Prop :=
  ∀ sink, (w.runOn sink).1.mapError (SqlError.atLine n) =
      (v.runOn sink).1.mapError (SqlError.atLine n) ∧ (w.runOn sink).2 = (v.runOn sink).2

namespace Writer.Same

variable {w v : Writer Unit} {f g : Unit → Writer Unit}

theorem refl (w : Writer Unit) : w.Same n w :=
  fun _ => ⟨rfl, rfl⟩

/-- Errors that differ by lines. -/
theorem throw {e e' : SqlError} (h : e.atLine n = e'.atLine n) :
    (MonadExcept.throw e : Writer Unit).Same n (MonadExcept.throw e') :=
  fun _ => ⟨congrArg Except.error h, rfl⟩

/-- Both stop at their first failure, which is at the same place. -/
theorem bind (hw : w.Same n v) (hf : (f ()).Same n (g ())) : (w >>= f).Same n (v >>= g) := by
  intro sink
  rw [runOn_bind, runOn_bind]
  obtain ⟨hresult, hsink⟩ := hw sink
  rcases hx : w.runOn sink with ⟨r, sink₁⟩
  rcases hy : v.runOn sink with ⟨r', sink₂⟩
  rw [hx, hy] at hresult hsink
  obtain rfl : sink₁ = sink₂ := hsink
  obtain ⟨u, rfl, rfl⟩ | ⟨e, e', rfl, rfl, he⟩ := cases_of_mapError_eq hresult
  · exact hf sink₁
  · exact ⟨congrArg Except.error he, rfl⟩

/-- The texts of two such writers. -/
theorem text_eq (h : w.Same n v) :
    w.text.mapError (SqlError.atLine n) = v.text.mapError (SqlError.atLine n) := by
  obtain ⟨hresult, hsink⟩ := h .empty
  unfold Writer.text
  rcases hx : w.runOn .empty with ⟨r, sink₁⟩
  rcases hy : v.runOn .empty with ⟨r', sink₂⟩
  rw [hx, hy] at hresult hsink
  obtain rfl : sink₁ = sink₂ := hsink
  -- on the empty sink both succeed or both fail
  obtain ⟨u, rfl, rfl⟩ | ⟨e, e', rfl, rfl, he⟩ := cases_of_mapError_eq hresult
  · rfl
  · exact congrArg Except.error he

end Writer.Same

mutual

/-- **Rendering does not look at lines**, whatever is written for quotes. They may show in the
operator that is the reason of a failure. -/
theorem render_atLine (q : Quoter) : ∀ e : Expr, (render q (e.atLine n)).Same n (render q e)
  | .leaf l => .refl _
  | .unary op x => by
    have hx := render_atLine q x
    rw [Expr.atLine, render, render, Token.kind_atLine]
    -- the kind decides on what is written, and the error has the operator with its line
    cases op.kind.sqlUnary? with
    | none => exact .throw rfl
    | some sign =>
      refine (Writer.Same.refl _).bind ?_
      split
      · -- the operand was written apart, with the same text or the same failure
        obtain ⟨text, hy, hz⟩ | ⟨e, e', hy, hz, he⟩ := cases_of_mapError_eq hx.text_eq
        · rw [hy, hz]
          exact .refl _
        · rw [hy, hz]
          exact .throw he
      · exact hx
  | .binary l op r => by
    have hl := render_atLine q l
    have hr := render_atLine q r
    rw [Expr.atLine, render.eq_def q (.binary (l.atLine n) _ _), render.eq_def q (.binary l _ _)]
    dsimp only
    rw [Token.kind_atLine]
    split
    · refine hl.bind ?_
      -- a list stays a list on another line
      cases r with
      | list items =>
        have hitems := renderItems_atLineAll q items
        exact (Writer.Same.refl _).bind (hitems.bind (.refl _))
      | _ => exact (Writer.Same.refl _).bind hr
    · split
      · exact (Writer.Same.refl _).bind (hl.bind ((Writer.Same.refl _).bind hr))
      · cases op.kind.sqlBinary? with
        | none => exact .throw rfl
        | some spelling => exact hl.bind ((Writer.Same.refl _).bind hr)
  | .grouping x => by
    rw [Expr.atLine, render, render]
    exact (Writer.Same.refl _).bind ((render_atLine q x).bind (.refl _))
  | .call callee close args => by
    rw [Expr.atLine, render, render]
    exact (render_atLine q callee).bind
      ((Writer.Same.refl _).bind ((renderItems_atLineAll q args).bind (.refl _)))
  | .list items => by
    rw [Expr.atLine, render, render]
    exact .throw rfl

/-- Items. -/
theorem renderItems_atLineAll (q : Quoter) : ∀ es : List Expr,
    (renderItems q (Expr.atLineAll n es)).Same n (renderItems q es)
  | [] => .refl _
  | e :: es => by
    rw [Expr.atLineAll, renderItems, renderItems]
    exact (render_atLine q e).bind (renderMore_atLineAll q es)

/-- Further items. -/
theorem renderMore_atLineAll (q : Quoter) : ∀ es : List Expr,
    (renderMore q (Expr.atLineAll n es)).Same n (renderMore q es)
  | [] => .refl _
  | e :: es => by
    rw [Expr.atLineAll, renderMore, renderMore]
    exact (Writer.Same.refl _).bind ((render_atLine q e).bind (renderMore_atLineAll q es))

end

/-- **The SQL text of a tree on one line** is that of the tree, and so is the reason why there is
none. -/
theorem text_atLine (q : Quoter) (e : Expr) :
    (text q (e.atLine n)).mapError (SqlError.atLine n) =
      (text q e).mapError (SqlError.atLine n) :=
  (render_atLine q e).text_eq

end Sql

end WhereClause
