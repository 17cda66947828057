import WhereClause.Proofs.Parsing

/-!
# Answers of parsers

`Parser.Takes` is about success. A parser that complains also stops somewhere, and what it had taken
before matters where errors are concerned. `Parser.Gives` covers both: it relates the tokens given,
the result, which may be a complaint, and the tokens left. `Parser.Takes` is the part of it where
the result is a success, and `Parser.Fails` the part where it is a complaint.

* `Parser.gives_bind` — the second parser is only reached behind a success of the first;
* `Parser.fails_bind`, `Parser.fails_accept_bind`, `Parser.fails_expect` — where a complaint comes
  from;
* `Parser.fails_chain_step` — a repetition complains in its first round or in a later one;
* `Parser.whole` — the parser that `TokenStream.parse` runs.
-/

namespace WhereClause

namespace Parser

variable {α β : Type} {ts rest : List Token}

/-- **Any answer.** The parser answers the result `r` to the tokens `ts` and leaves `rest`. -/
def Gives (p : Parser α) (ts : List Token) (r : Except Complaint α) (rest : List Token) : Prop :=
  (p ts).result = r ∧ (p ts).rest = rest

/-- **Failure.** The parser complains about the first of the tokens `rest`. -/
def Fails (p : Parser α) (ts : List Token) (c : Complaint) (rest : List Token) : Prop :=
  p.Gives ts (.error c) rest

/-- Success is one of the answers. -/
theorem gives_ok {p : Parser α} {a : α} : p.Gives ts (.ok a) rest ↔ p.Takes ts a rest :=
  Iff.rfl

/-- There is one answer only. -/
theorem Gives.unique {p : Parser α} {r r' : Except Complaint α} {rest' : List Token}
    (h : p.Gives ts r rest) (h' : p.Gives ts r' rest') : r = r' ∧ rest = rest' :=
  ⟨h.1.symm.trans h'.1, h.2.symm.trans h'.2⟩

theorem Gives.suffix {p : Parser α} {r : Except Complaint α} (h : p.Gives ts r rest) :
    rest <:+ ts :=
  h.2 ▸ (p ts).suffix

/-! ### Sequencing -/

/-- A parser that takes nothing succeeds at once. -/
theorem gives_pure {a : α} {r : Except Complaint α} :
    (pure a : Parser α).Gives ts r rest ↔ r = .ok a ∧ rest = ts := by
  change (Except.ok a = r ∧ ts = rest) ↔ _
  rw [eq_comm, eq_comm (a := ts)]

/-- A parser that only complains does so where it stands. -/
theorem gives_fail {c : Complaint} {r : Except Complaint α} :
    (fail c : Parser α).Gives ts r rest ↔ r = .error c ∧ rest = ts := by
  change (Except.error c = r ∧ ts = rest) ↔ _
  rw [eq_comm, eq_comm (a := ts)]

/-- **Sequencing.** A complaint of the first parser is the answer of both. -/
theorem gives_bind {p : Parser α} {f : α → Parser β} {r : Except Complaint β} :
    (p >>= f).Gives ts r rest ↔
      (∃ a mid, p.Takes ts a mid ∧ (f a).Gives mid r rest) ∨
        ∃ c, r = .error c ∧ p.Fails ts c rest := by
  change ((p ts).next fun a rest _ => f a rest).result = r
    ∧ ((p ts).next fun a rest _ => f a rest).rest = rest ↔ _
  unfold Fails Takes Gives
  -- the second parser runs only if the first has a result to give it
  cases hp : p ts with
  | mk result mid suffix =>
    cases result with
    | ok a =>
      constructor
      · intro h
        exact .inl ⟨a, mid, ⟨rfl, rfl⟩, h⟩
      · rintro (⟨a', mid', ⟨ha, hmid⟩, h⟩ | ⟨c, -, hc, -⟩)
        · cases ha
          cases hmid
          exact h
        · cases hc
    | error c =>
      constructor
      · rintro ⟨hresult, hrest⟩
        exact .inr ⟨c, hresult.symm, rfl, hrest⟩
      · rintro (⟨a, -, ⟨ha, -⟩, -⟩ | ⟨c', rfl, hc, hrest⟩)
        · cases ha
        · cases hc
          exact ⟨rfl, hrest⟩

/-- Looking at the next token leaves all tokens where they are. -/
theorem gives_peek_bind {f : Option Token → Parser β} {r : Except Complaint β} :
    (peek >>= f).Gives ts r rest ↔ (f ts.head?).Gives ts r rest :=
  Iff.rfl

/-- Giving the result on changes nothing. -/
theorem gives_bind_pure {p : Parser α} {r : Except Complaint α} :
    (p >>= pure).Gives ts r rest ↔ p.Gives ts r rest := by
  rw [gives_bind]
  constructor
  · -- a success is handed on as it is, and a complaint does not reach the second parser
    rintro (⟨a, mid, htakes, hpure⟩ | ⟨c, rfl, hfails⟩)
    · obtain ⟨rfl, rfl⟩ := gives_pure.mp hpure
      exact htakes
    · exact hfails
  · intro h
    cases r with
    | ok a => exact .inl ⟨a, rest, h, gives_pure.mpr ⟨rfl, rfl⟩⟩
    | error c => exact .inr ⟨c, rfl, h⟩

/-- What comes behind two parsers with the same answers has the same answers too. -/
theorem gives_bind_congr {p q : Parser α} {f : α → Parser β} {us : List Token}
    {r : Except Complaint β} (h : ∀ r rest, p.Gives ts r rest ↔ q.Gives us r rest) :
    (p >>= f).Gives ts r rest ↔ (q >>= f).Gives us r rest := by
  rw [gives_bind, gives_bind]
  exact or_congr (exists_congr fun a => exists_congr fun mid => and_congr_left' (h (.ok a) mid))
    (exists_congr fun c => and_congr_right' (h (.error c) rest))

/-- Sequences may be grouped either way. -/
theorem gives_bind_assoc {γ : Type} {p : Parser α} {f : α → Parser β} {g : β → Parser γ}
    {r : Except Complaint γ} :
    ((p >>= f) >>= g).Gives ts r rest ↔ (p >>= fun a => f a >>= g).Gives ts r rest := by
  rw [gives_bind, gives_bind]
  constructor
  -- on both sides there are three cases: all succeed up to the last one, the second complains, or
  -- the first does
  · rintro (⟨b, mid, hpf, hg⟩ | ⟨c, rfl, hpf⟩)
    · obtain ⟨a, mid', hp, hf⟩ := takes_bind.mp hpf
      exact .inl ⟨a, mid', hp, gives_bind.mpr (.inl ⟨b, mid, hf, hg⟩)⟩
    · obtain ⟨a, mid, hp, hf⟩ | ⟨c', hc, hp⟩ := gives_bind.mp hpf
      · exact .inl ⟨a, mid, hp, gives_bind.mpr (.inr ⟨c, rfl, hf⟩)⟩
      · cases hc
        exact .inr ⟨c, rfl, hp⟩
  · rintro (⟨a, mid, hp, hfg⟩ | ⟨c, rfl, hp⟩)
    · obtain ⟨b, mid', hf, hg⟩ | ⟨c, rfl, hf⟩ := gives_bind.mp hfg
      · exact .inl ⟨b, mid', takes_bind.mpr ⟨a, mid, hp, hf⟩, hg⟩
      · exact .inr ⟨c, rfl, gives_bind.mpr (.inl ⟨a, mid, hp, hf⟩)⟩
    · exact .inr ⟨c, rfl, gives_bind.mpr (.inr ⟨c, rfl, hp⟩)⟩

theorem not_fails_pure {a : α} {c : Complaint} : ¬ (pure a : Parser α).Fails ts c rest := by
  rintro ⟨h, -⟩
  cases h

theorem fails_fail {c c' : Complaint} :
    (fail c : Parser α).Fails ts c' rest ↔ c' = c ∧ rest = ts := by
  rw [Fails, gives_fail, Except.error.injEq]

/-- **A sequence complains** where its first parser does, or behind it. -/
theorem fails_bind {p : Parser α} {f : α → Parser β} {c : Complaint} :
    (p >>= f).Fails ts c rest ↔
      p.Fails ts c rest ∨ ∃ a mid, p.Takes ts a mid ∧ (f a).Fails mid c rest := by
  rw [Fails, gives_bind, or_comm]
  constructor
  · rintro (⟨c', hc, h⟩ | h)
    · cases hc
      exact .inl h
    · exact .inr h
  · rintro (h | h)
    · exact .inl ⟨c, rfl, h⟩
    · exact .inr h

theorem fails_peek_bind {f : Option Token → Parser β} {c : Complaint} :
    (peek >>= f).Fails ts c rest ↔ (f ts.head?).Fails ts c rest :=
  Iff.rfl

/-- Putting the result into a tree adds no complaint. -/
theorem fails_map {p : Parser α} {f : α → β} {c : Complaint} :
    (do let a ← p; pure (f a)).Fails ts c rest ↔ p.Fails ts c rest := by
  rw [fails_bind]
  constructor
  · rintro (h | ⟨a, mid, -, h⟩)
    · exact h
    · exact absurd h not_fails_pure
  · exact .inl

/-! ### Single tokens -/

/-- Taking a token of some kinds, or none, always succeeds. -/
theorem takes_accept (kinds : List Kind) (ts : List Token) :
    (∃ t us, ts = t :: us ∧ t.kind ∈ kinds ∧ (accept kinds).Takes ts (some t) us) ∨
      (Stops kinds ts ∧ (accept kinds).Takes ts none ts) := by
  cases ts with
  | nil => exact .inr ⟨stops_nil, takes_accept_none.mpr ⟨rfl, stops_nil⟩⟩
  | cons t us =>
    by_cases h : t.kind ∈ kinds
    · exact .inl ⟨t, us, rfl, h, takes_accept_some.mpr ⟨rfl, h⟩⟩
    · exact .inr ⟨stops_cons.mpr h, takes_accept_none.mpr ⟨rfl, stops_cons.mpr h⟩⟩

/-- A token that need not be there is never complained about. -/
theorem not_fails_accept {kinds : List Kind} {c : Complaint} :
    ¬ (accept kinds).Fails ts c rest := by
  intro h
  obtain ⟨t, us, -, -, htakes⟩ | ⟨-, htakes⟩ := takes_accept kinds ts
  · cases (h.unique (gives_ok.mpr htakes)).1
  · cases (h.unique (gives_ok.mpr htakes)).1

/-- Behind a token that may be there, a complaint comes from one of two ways to go on. -/
theorem fails_accept_bind {kinds : List Kind} {f : Option Token → Parser β} {c : Complaint} :
    (accept kinds >>= f).Fails ts c rest ↔
      (∃ t us, ts = t :: us ∧ t.kind ∈ kinds ∧ (f (some t)).Fails us c rest) ∨
        (Stops kinds ts ∧ (f none).Fails ts c rest) := by
  rw [fails_bind]
  constructor
  · rintro (h | ⟨o, mid, ho, h⟩)
    · exact absurd h not_fails_accept
    · -- what comes next is told by what was taken
      cases o with
      | some t =>
        obtain ⟨rfl, hkind⟩ := takes_accept_some.mp ho
        exact .inl ⟨t, mid, rfl, hkind, h⟩
      | none =>
        obtain ⟨rfl, hstop⟩ := takes_accept_none.mp ho
        exact .inr ⟨hstop, h⟩
  · rintro (⟨t, us, rfl, hkind, h⟩ | ⟨hstop, h⟩)
    · exact .inr ⟨some t, us, takes_accept_some.mpr ⟨rfl, hkind⟩, h⟩
    · exact .inr ⟨none, ts, takes_accept_none.mpr ⟨rfl, hstop⟩, h⟩

/-- A token that has to be there is complained about where another one is. -/
theorem fails_expect {kind : Kind} {c c' : Complaint} :
    (expect kind c).Fails ts c' rest ↔ c' = c ∧ rest = ts ∧ Stops [kind] ts := by
  unfold expect
  rw [fails_accept_bind]
  constructor
  · rintro (⟨t, us, -, -, h⟩ | ⟨hstop, h⟩)
    · exact absurd h not_fails_pure
    · obtain ⟨rfl, rfl⟩ := fails_fail.mp h
      exact ⟨rfl, rfl, hstop⟩
  · rintro ⟨rfl, rfl, hstop⟩
    exact .inr ⟨hstop, fails_fail.mpr ⟨rfl, rfl⟩⟩

/-- Names are read without complaint. -/
theorem gives_dottedName {name : String} {r : Except Complaint String} :
    (dottedName name).Gives ts r rest ↔
      r = .ok (segments name ts).1 ∧ rest = (segments name ts).2 := by
  change (Except.ok (segments name ts).1 = r ∧ (segments name ts).2 = rest) ↔ _
  rw [eq_comm, eq_comm (a := (segments name ts).2)]

/-- The word `between` is complained about where it comes next. -/
theorem fails_rejectBetween {c : Complaint} :
    rejectBetween.Fails ts c rest ↔
      c = .betweenReserved ∧ rest = ts ∧ ∃ t us, ts = t :: us ∧ t.kind = .kwBetween := by
  unfold rejectBetween
  rw [fails_peek_bind]
  cases ts with
  | nil =>
    refine iff_of_false not_fails_pure ?_
    rintro ⟨-, -, t, us, hts, -⟩
    cases hts
  | cons t us =>
    -- without the word nothing is complained about, so both sides are false
    by_cases hkind : t.kind = .kwBetween
    · simp only [List.head?_cons, if_pos hkind, fails_fail]
      exact and_congr_right' (iff_self_and.mpr fun _ => ⟨t, us, rfl, hkind⟩)
    · simp only [List.head?_cons, if_neg hkind]
      refine iff_of_false not_fails_pure ?_
      rintro ⟨-, -, t', us', hts, hkind'⟩
      cases hts
      exact hkind hkind'

/-! ### Repetition -/

section Chain

variable {kinds : List Kind} {body : α → Token → Parser α}

/-- A repetition ends where no token of its kinds comes next. -/
theorem gives_chain_stop {a : α} {r : Except Complaint α} (h : Stops kinds ts) :
    (chain kinds body a).Gives ts r rest ↔ r = .ok a ∧ rest = ts := by
  -- there is one answer only, and this one is known
  have hgives : (chain kinds body a).Gives ts (.ok a) ts := (takes_chain_stop h).mpr ⟨rfl, rfl⟩
  constructor
  · intro h'
    obtain ⟨rfl, rfl⟩ := hgives.unique h'
    exact ⟨rfl, rfl⟩
  · rintro ⟨rfl, rfl⟩
    exact hgives

/-- Where a token of its kinds comes next, a repetition goes one round and then on. -/
theorem gives_chain_step {a : α} {t : Token} {r : Except Complaint α} (h : t.kind ∈ kinds) :
    (chain kinds body a).Gives (t :: ts) r rest ↔
      (body a t >>= chain kinds body).Gives ts r rest := by
  unfold Gives
  rw [chain, if_pos h]
  rfl

theorem not_fails_chain_stop {a : α} {c : Complaint} (h : Stops kinds ts) :
    ¬ (chain kinds body a).Fails ts c rest := by
  intro hfails
  cases ((gives_chain_stop h).mp hfails).1

/-- **A repetition complains** in its next round, or in one behind that. -/
theorem fails_chain_step {a : α} {t : Token} {c : Complaint} (h : t.kind ∈ kinds) :
    (chain kinds body a).Fails (t :: ts) c rest ↔
      (body a t).Fails ts c rest ∨
        ∃ b mid, (body a t).Takes ts b mid ∧ (chain kinds body b).Fails mid c rest := by
  rw [Fails, gives_chain_step h, ← Fails, fails_bind]

end Chain

/-! ### Whole expressions -/

/-- An expression with nothing after it. -/
def whole : Parser Expr := do
  let e ← expression
  match ← peek with
  | none => pure e
  | some _ => fail .expectedEnd

end Parser

/-- The parser of a stream runs the parser for whole expressions. -/
theorem TokenStream.parse_eq_run (s : TokenStream) : s.parse = s.run Parser.whole :=
  rfl

end WhereClause
