import WhereClause.Proofs.Answers

/-!
# Two tokens ahead

What a parser answers, and where it stops, depends on the tokens that it takes and on the two behind
them. The second one matters only behind a dot, which belongs to a name if an identifier follows.
So a complaint about a token stays the same whatever comes behind that token and the next one, and
tokens that go on in the same way for so long cannot be read after all.

The property is stated at a list of tokens, since a repetition has it for as many tokens as are left
to it. Sequencing composes it: what the second parser takes is a part of what the first one leaves.

* `Parser.ShortSightedAt` — the answer does not change with what comes further behind;
* `Parser.ShortSighted.chain` — repetitions of short-sighted rounds are short-sighted;
* `Parser.shortSighted_level` — so are the parsers of all levels.
-/

namespace WhereClause.Parser

variable {α β : Type} {ts us : List Token}

/-! ### Tokens ahead -/

/-- The same tokens come first, as far as two of them are concerned. -/
def SameAhead (ts us : List Token) : Prop :=
  ts.take 2 = us.take 2

namespace SameAhead

/-- More tokens in front only move the rest out of sight. -/
theorem append (h : SameAhead ts us) (pre : List Token) : SameAhead (pre ++ ts) (pre ++ us) := by
  -- so many of the tokens stay in sight
  have hless := congrArg (List.take (2 - pre.length)) h
  rw [List.take_take, List.take_take, Nat.min_eq_left (Nat.sub_le _ _)] at hless
  rw [SameAhead, List.take_append, List.take_append, hless]

theorem head?_eq (h : SameAhead ts us) : ts.head? = us.head? := by
  have hhead := congrArg List.head? h
  rwa [List.head?_take, List.head?_take, if_neg (by decide), if_neg (by decide)] at hhead

/-- Where the same tokens come first, the same kinds stop a parser. -/
theorem stops {kinds : List Kind} (h : SameAhead ts us) (hstop : Stops kinds ts) :
    Stops kinds us := by
  unfold Stops at *
  rwa [← h.head?_eq]

/-- Fewer than two tokens are all there are. -/
theorem eq_of_length_lt (h : SameAhead ts us) (hlength : ts.length < 2) : ts = us := by
  unfold SameAhead at h
  have hlen := congrArg List.length h
  rw [List.length_take, List.length_take] at hlen
  rwa [List.take_of_length_le (by omega), List.take_of_length_le (by omega)] at h

end SameAhead

/-! ### Short-sighted parsers -/

/-- **The answer of the parser to `ts` depends on the tokens that it takes and the two behind
them.** -/
def ShortSightedAt (p : Parser α) (ts : List Token) : Prop :=
  ∀ pre rest rest' r, ts = pre ++ rest → p.Gives ts r rest → SameAhead rest rest' →
    p.Gives (pre ++ rest') r rest'

/-- **A parser that looks two tokens ahead at most**, whatever the tokens are. -/
def ShortSighted (p : Parser α) : Prop :=
  ∀ ts, p.ShortSightedAt ts

section Combinators

variable {p : Parser α} {f : α → Parser β}

/-- What takes no token has only to answer the same where the same tokens come first. -/
theorem shortSightedAt_of_stay (hstay : ∀ r rest, p.Gives ts r rest → rest = ts)
    (hsame : ∀ r us, p.Gives ts r ts → SameAhead ts us → p.Gives us r us) :
    p.ShortSightedAt ts := by
  intro pre rest rest' r hts hgives hahead
  obtain rfl := hstay r rest hgives
  obtain rfl : pre = [] := List.self_eq_append_left.mp hts
  exact hsame r rest' hgives hahead

theorem shortSighted_pure (a : α) : (pure a : Parser α).ShortSighted := by
  intro ts
  refine shortSightedAt_of_stay (fun r rest h => (gives_pure.mp h).2) (fun r us h _ => ?_)
  exact gives_pure.mpr ⟨(gives_pure.mp h).1, rfl⟩

theorem shortSighted_fail (c : Complaint) : (fail c : Parser α).ShortSighted := by
  intro ts
  refine shortSightedAt_of_stay (fun r rest h => (gives_fail.mp h).2) (fun r us h _ => ?_)
  exact gives_fail.mpr ⟨(gives_fail.mp h).1, rfl⟩

/-- **Sequencing.** The second parser has to be short-sighted only where the first one stops. -/
theorem ShortSightedAt.bind (hp : p.ShortSightedAt ts)
    (hf : ∀ a mid, p.Takes ts a mid → (f a).ShortSightedAt mid) :
    (p >>= f).ShortSightedAt ts := by
  intro pre rest rest' r hts hgives hahead
  obtain ⟨a, mid, hp', hf'⟩ | ⟨c, rfl, hp'⟩ := gives_bind.mp hgives
  · obtain ⟨before, hbefore⟩ := (gives_ok.mpr hp').suffix
    obtain ⟨between, rfl⟩ := hf'.suffix
    -- what was taken is what the first parser took and then the second
    obtain rfl : pre = before ++ between := by
      rw [hts, ← List.append_assoc] at hbefore
      exact (List.append_cancel_right hbefore).symm
    have hsecond := hf a _ hp' between rest rest' r rfl hf' hahead
    have hfirst := hp before (between ++ rest) _ (.ok a) hbefore.symm hp' (hahead.append between)
    rw [List.append_assoc]
    exact gives_bind.mpr (.inl ⟨a, between ++ rest', hfirst, hsecond⟩)
  · -- a complaint of the first parser is the answer
    exact gives_bind.mpr (.inr ⟨c, rfl, hp pre rest rest' _ hts hp' hahead⟩)

/-- Sequencing, for all tokens. -/
theorem ShortSighted.bind (hp : p.ShortSighted) (hf : ∀ a, (f a).ShortSighted) :
    (p >>= f).ShortSighted :=
  fun ts => (hp ts).bind fun a mid _ => hf a mid

/-- Looking at the next token. -/
theorem shortSighted_peek : peek.ShortSighted := by
  intro ts
  refine shortSightedAt_of_stay (fun r rest h => h.2.symm) (fun r us h hahead => ⟨?_, rfl⟩)
  have hresult : Except.ok ts.head? = r := h.1
  rw [hahead.head?_eq] at hresult
  exact hresult

/-- Taking the next token. -/
theorem shortSighted_skip : skip.ShortSighted := by
  intro ts pre rest rest' r hts hgives hahead
  obtain ⟨hresult, htail⟩ := hgives
  cases ts with
  | nil =>
    obtain ⟨rfl, rfl⟩ := List.nil_eq_append_iff.mp hts
    -- none is left on one side, so none is on the other
    rw [← hahead.eq_of_length_lt (by decide)]
    exact ⟨hresult, rfl⟩
  | cons t us =>
    obtain rfl : us = rest := htail
    obtain rfl : [t] = pre := List.append_cancel_right hts
    exact ⟨hresult, rfl⟩

/-- Taking a token of some kinds, if there is one. -/
theorem shortSighted_accept (kinds : List Kind) : (accept kinds).ShortSighted := by
  refine shortSighted_peek.bind fun o => ?_
  cases o with
  | none => exact shortSighted_pure _
  | some t =>
    by_cases hkind : t.kind ∈ kinds
    · simp only [if_pos hkind]
      exact shortSighted_skip.bind fun _ => shortSighted_pure _
    · simp only [if_neg hkind]
      exact shortSighted_pure _

theorem shortSighted_expect (kind : Kind) (c : Complaint) : (expect kind c).ShortSighted := by
  refine (shortSighted_accept _).bind fun o => ?_
  cases o with
  | none => exact shortSighted_fail _
  | some t => exact shortSighted_pure _

/-- **Repetition.** -/
theorem ShortSighted.chain {kinds : List Kind} {body : α → Token → Parser α}
    (hbody : ∀ a op, (body a op).ShortSighted) (a : α) :
    (Parser.chain kinds body a).ShortSighted := by
  intro ts
  -- a round may take any number of tokens, so the induction is on how many are left
  induction hn : ts.length using Nat.strongRecOn generalizing a ts with
  | ind n ih =>
    obtain ⟨op, us, rfl, hkind, -⟩ | ⟨hstop, -⟩ := takes_accept kinds ts
    · have hround : (body a op >>= Parser.chain kinds body).ShortSightedAt us := by
        refine (hbody a op us).bind fun b mid htakes => ih _ ?_ b mid rfl
        have hle := (gives_ok.mpr htakes).suffix.length_le
        rw [← hn, List.length_cons]
        exact Nat.lt_succ_of_le hle
      -- the operator in front is among the tokens that are taken
      intro pre rest rest' r hts hgives hahead
      rw [gives_chain_step hkind] at hgives
      obtain ⟨taken, rfl⟩ := hgives.suffix
      obtain rfl : op :: taken = pre := List.append_cancel_right hts
      rw [List.cons_append, gives_chain_step hkind]
      exact hround taken rest rest' r rfl hgives hahead
    · refine shortSightedAt_of_stay (fun r rest h => ((gives_chain_stop hstop).mp h).2)
        (fun r us h hahead => ?_)
      exact (gives_chain_stop (hahead.stops hstop)).mpr ⟨((gives_chain_stop hstop).mp h).1, rfl⟩

end Combinators

/-! ### The grammar functions -/

/-- **Names look two tokens ahead**, for a dot and an identifier behind it. -/
theorem shortSighted_dottedName (name : String) : (dottedName name).ShortSighted := by
  intro ts
  fun_induction segments name ts with
  | case1 name d w ts hkinds ih =>
    -- a dot and a word are taken whatever follows them
    have hsegments : ∀ us, segments name (d :: w :: us) =
        segments (name ++ "." ++ w.lexeme) us := by
      intro us
      rw [segments, if_pos hkinds]
    have hgives : ∀ {us r rest}, (dottedName name).Gives (d :: w :: us) r rest ↔
        (dottedName (name ++ "." ++ w.lexeme)).Gives us r rest := by
      intro us r rest
      rw [gives_dottedName, gives_dottedName, hsegments]
    intro pre rest rest' r hts h hahead
    rw [hgives] at h
    obtain ⟨taken, rfl⟩ := h.suffix
    obtain rfl : d :: w :: taken = pre := List.append_cancel_right hts
    exact hgives.mpr (ih taken rest rest' r rfl h hahead)
  | case2 name d w ts hkinds =>
    have hstop : ∀ us, segments name (d :: w :: us) = (name, d :: w :: us) := by
      intro us
      rw [segments, if_neg hkinds]
    refine shortSightedAt_of_stay (fun r rest h => ?_) (fun r us h hahead => ?_)
    · rw [gives_dottedName, hstop] at h
      exact h.2
    -- the two tokens that decided against a segment are still the first ones
    · have hus : d :: w :: us.drop 2 = us := by
        have htake := List.take_append_drop 2 us
        rwa [← hahead] at htake
      rw [← hus]
      rw [gives_dottedName, hstop] at h ⊢
      exact ⟨h.1, rfl⟩
  | case3 name ts hts =>
    -- with one token left there is no segment, and the other tokens are the same ones
    have hlength : ts.length < 2 := by
      rcases ts with _ | ⟨d, _ | ⟨w, us⟩⟩
      · exact Nat.zero_lt_two
      · exact Nat.one_lt_two
      · exact absurd rfl (hts d w us)
    have hstop : segments name ts = (name, ts) := by
      rw [segments]
      exact hts
    refine shortSightedAt_of_stay (fun r rest h => ?_) (fun r us h hahead => ?_)
    · rw [gives_dottedName, hstop] at h
      exact h.2
    · rwa [← hahead.eq_of_length_lt hlength]

section Grammar

variable {inner expr unary : Parser Expr}

theorem shortSighted_arguments (he : expr.ShortSighted) : (arguments expr).ShortSighted :=
  he.bind fun _ => .chain (fun _ _ => he.bind fun _ => shortSighted_pure _) _

theorem shortSighted_callOrName (he : expr.ShortSighted) (name : String) :
    (callOrName expr name).ShortSighted := by
  refine (shortSighted_accept _).bind fun o => ?_
  cases o with
  | none => exact shortSighted_pure _
  | some _ =>
    refine (shortSighted_accept _).bind fun o => ?_
    cases o with
    | some _ => exact shortSighted_pure _
    | none =>
      exact (shortSighted_arguments he).bind fun _ =>
        (shortSighted_expect _ _).bind fun _ => shortSighted_pure _

/-- **Operands.** Only names look further than at the next token. -/
theorem shortSighted_operand (he : expr.ShortSighted) : (operand expr).ShortSighted := by
  have hskip : ∀ e : Expr, (do skip; pure e : Parser Expr).ShortSighted :=
    fun e => shortSighted_skip.bind fun _ => shortSighted_pure e
  refine shortSighted_peek.bind fun o => ?_
  cases o with
  | none => exact shortSighted_fail _
  | some t =>
    -- the first token decides, and it stays the same
    cases hk : t.kind with
    | parameter | kwFalse | kwTrue | kwNull =>
      simp only [hk]
      exact hskip _
    | identifier =>
      simp only [hk]
      exact shortSighted_skip.bind fun _ => (shortSighted_dottedName _).bind fun name =>
        shortSighted_callOrName he name
    | string | number =>
      cases hv : t.literal with
      | none =>
        simp only [hk, hv]
        exact shortSighted_fail _
      | some v =>
        simp only [hk, hv]
        exact hskip _
    | leftParen =>
      simp only [hk]
      exact shortSighted_skip.bind fun _ => he.bind fun _ =>
        (shortSighted_expect _ _).bind fun _ => shortSighted_pure _
    | _ =>
      simp only [hk]
      exact shortSighted_fail _

theorem shortSighted_signed (hi : inner.ShortSighted) (he : expr.ShortSighted) :
    (signed inner expr).ShortSighted := by
  refine (shortSighted_accept _).bind fun o => ?_
  cases o with
  | none => exact shortSighted_operand he
  | some _ => exact hi.bind fun _ => shortSighted_pure _

/-- The right side of `in`. -/
theorem shortSighted_inTarget (hu : unary.ShortSighted) (he : expr.ShortSighted) :
    (inTarget unary expr).ShortSighted := by
  refine (shortSighted_accept _).bind fun o => ?_
  cases o with
  | none =>
    exact hu.bind fun _ => (shortSighted_expect _ _).bind fun _ => hu.bind fun _ =>
      shortSighted_pure _
  | some _ =>
    exact (shortSighted_arguments he).bind fun _ =>
      (shortSighted_expect _ _).bind fun _ => shortSighted_pure _

/-- Operands with operators between them. -/
theorem shortSighted_infixes (kinds : List Kind) (hu : unary.ShortSighted) :
    (infixes kinds unary).ShortSighted :=
  hu.bind fun _ => .chain (fun _ _ => hu.bind fun _ => shortSighted_pure _) _

/-- The complaint about `between`. -/
theorem shortSighted_rejectBetween : rejectBetween.ShortSighted := by
  refine shortSighted_peek.bind fun o => ?_
  cases o with
  | none => exact shortSighted_pure _
  | some t =>
    by_cases hkind : t.kind = .kwBetween
    · simp only [if_pos hkind]
      exact shortSighted_fail _
    · simp only [if_neg hkind]
      exact shortSighted_pure _

/-- Equalities, with `in` among their operators. -/
theorem shortSighted_equality (hu : unary.ShortSighted) (he : expr.ShortSighted) :
    (equality unary expr).ShortSighted := by
  have hcomparison : (comparison unary).ShortSighted := shortSighted_infixes _ hu
  refine hcomparison.bind fun first => ShortSighted.bind (.chain (fun left op => ?_) first)
    fun _ => shortSighted_rejectBetween.bind fun _ => shortSighted_pure _
  by_cases hin : op.kind = .kwIn
  · simp only [if_pos hin]
    exact (shortSighted_inTarget hu he).bind fun _ => shortSighted_pure _
  · simp only [if_neg hin]
    exact hcomparison.bind fun _ => shortSighted_pure _

theorem shortSighted_disjunction (hu : unary.ShortSighted) (he : expr.ShortSighted) :
    (disjunction unary expr).ShortSighted :=
  shortSighted_infixes _ (shortSighted_infixes _ (shortSighted_equality hu he))

end Grammar

/-- **The parsers of all levels are short-sighted.** -/
theorem shortSighted_level (n : Nat) :
    (level n).unary.ShortSighted ∧ (level n).expression.ShortSighted := by
  induction n with
  -- no level is left: the answer is a complaint about the first token
  | zero => exact ⟨shortSighted_fail _, shortSighted_fail _⟩
  | succ n ih =>
    have hunary := shortSighted_signed ih.1 ih.2
    exact ⟨hunary, shortSighted_disjunction hunary ih.2⟩

/-- **The whole of a filter**, too, is parsed with two tokens in sight. -/
theorem shortSighted_whole : whole.ShortSighted := by
  refine (shortSighted_level maxLevels).2.bind fun e => shortSighted_peek.bind fun o => ?_
  cases o with
  | none => exact shortSighted_pure _
  | some _ => exact shortSighted_fail _

end WhereClause.Parser
