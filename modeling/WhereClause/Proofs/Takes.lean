import WhereClause.Expr.Parser

/-!
# Parsers as relations

A parser that succeeds takes a front part of the tokens and leaves the rest. `Parser.Takes` states
this as a relation between the tokens given, the result and the tokens left, and each combinator
gets one equivalence that opens it. The grammar functions are then opened by rewriting with these,
and no later proof looks into a `Step` again.

* `Parser.takes_bind` — sequencing is composition of relations;
* `Parser.takes_accept_some`, `Parser.takes_accept_none`, `Parser.takes_expect` — one token of a
  given kind, or none;
* `Parser.takes_chain_stop`, `Parser.takes_chain_step` — a repetition stops or goes one round;
* `Parser.chain_induction` — what every round keeps, the whole repetition keeps.
-/

namespace WhereClause.Parser

variable {α β : Type} {ts rest : List Token}

/-- **Success.** The parser answers `a` to the tokens `ts` and leaves `rest`. -/
def Takes (p : Parser α) (ts : List Token) (a : α) (rest : List Token) : Prop :=
  (p ts).result = .ok a ∧ (p ts).rest = rest

/-! ### Primitives -/

@[simp] theorem takes_pure {a b : α} :
    (pure a : Parser α).Takes ts b rest ↔ b = a ∧ rest = ts := by
  change (Except.ok a = Except.ok b ∧ ts = rest) ↔ _
  rw [Except.ok.injEq, eq_comm, eq_comm (a := ts)]

@[simp] theorem takes_fail {c : Complaint} {a : α} : ¬ (fail c : Parser α).Takes ts a rest := by
  rintro ⟨h, -⟩
  cases h

/-- **Sequencing is composition.** -/
@[simp] theorem takes_bind {p : Parser α} {f : α → Parser β} {b : β} :
    (p >>= f).Takes ts b rest ↔ ∃ a mid, p.Takes ts a mid ∧ (f a).Takes mid b rest := by
  change ((p ts).next fun a rest _ => f a rest).result = .ok b
    ∧ ((p ts).next fun a rest _ => f a rest).rest = rest ↔ _
  unfold Takes
  -- the proof that the rest is a suffix is carried along and never looked at
  cases hp : p ts with
  | mk result mid suffix =>
    cases result with
    | error c => simp [Step.next]
    | ok a =>
      constructor
      · intro h
        exact ⟨a, mid, ⟨rfl, rfl⟩, h⟩
      · rintro ⟨a', mid', ⟨ha, hmid⟩, h⟩
        cases ha
        cases hmid
        exact h

/-- Looking at the next token leaves all tokens where they are. -/
@[simp high] theorem takes_peek_bind {f : Option Token → Parser β} {b : β} :
    (peek >>= f).Takes ts b rest ↔ (f ts.head?).Takes ts b rest :=
  Iff.rfl

@[simp high] theorem takes_skip_bind {f : Unit → Parser β} {b : β} :
    (skip >>= f).Takes ts b rest ↔ (f ()).Takes ts.tail b rest :=
  Iff.rfl

/-! ### Single tokens -/

/-- The tokens do not go on with one of the given kinds. -/
def Stops (kinds : List Kind) (ts : List Token) : Prop :=
  ∀ t ∈ ts.head?, t.kind ∉ kinds

@[simp] theorem stops_nil {kinds : List Kind} : Stops kinds [] := by
  simp [Stops]

@[simp] theorem stops_cons {kinds : List Kind} {t : Token} :
    Stops kinds (t :: ts) ↔ t.kind ∉ kinds := by
  simp [Stops]

/-- Fewer kinds are asked for. -/
theorem Stops.mono {kinds kinds' : List Kind} (h : Stops kinds' ts)
    (hsub : ∀ k ∈ kinds, k ∈ kinds') : Stops kinds ts :=
  fun t ht hk => h t ht (hsub _ hk)

/-- A token of one of the kinds asked for is taken. -/
theorem takes_accept_some {kinds : List Kind} {t : Token} :
    (accept kinds).Takes ts (some t) rest ↔ ts = t :: rest ∧ t.kind ∈ kinds := by
  unfold accept
  cases ts with
  | nil => simp
  | cons u us =>
    by_cases h : u.kind ∈ kinds
    · -- this token and no other is the answer
      simp only [takes_peek_bind, List.head?_cons, if_pos h, takes_skip_bind, takes_pure,
        List.tail_cons, Option.some.injEq, List.cons.injEq]
      constructor
      · rintro ⟨rfl, rfl⟩
        exact ⟨⟨rfl, rfl⟩, h⟩
      · rintro ⟨⟨rfl, rfl⟩, -⟩
        exact ⟨rfl, rfl⟩
    · simp only [takes_peek_bind, List.head?_cons, if_neg h, takes_pure, reduceCtorEq, false_and,
        List.cons.injEq, false_iff, not_and]
      rintro ⟨rfl, rfl⟩
      exact h

/-- Where the next token is of no kind asked for, none is taken. -/
theorem takes_accept_none {kinds : List Kind} :
    (accept kinds).Takes ts none rest ↔ rest = ts ∧ Stops kinds ts := by
  unfold accept
  cases ts with
  | nil => simp
  | cons u us =>
    by_cases h : u.kind ∈ kinds
    · simp [h]
    · simp [h]

/-- The one token that is asked for is taken. -/
@[simp] theorem takes_expect {kind : Kind} {c : Complaint} {t : Token} :
    (expect kind c).Takes ts t rest ↔ ts = t :: rest ∧ t.kind = kind := by
  unfold expect
  rw [takes_bind]
  constructor
  · rintro ⟨o, mid, ho, h⟩
    -- without the token there is a complaint
    cases o with
    | none => exact absurd h takes_fail
    | some u =>
      obtain ⟨rfl, rfl⟩ := takes_pure.mp h
      simpa using takes_accept_some.mp ho
  · rintro ⟨rfl, hk⟩
    exact ⟨some t, rest, takes_accept_some.mpr ⟨rfl, by simp [hk]⟩, takes_pure.mpr ⟨rfl, rfl⟩⟩

/-! ### Repetition -/

section Chain

variable {kinds : List Kind} {body : α → Token → Parser α}

/-- A repetition ends where no token of its kinds comes next. -/
theorem takes_chain_stop {a b : α} (h : Stops kinds ts) :
    (chain kinds body a).Takes ts b rest ↔ b = a ∧ rest = ts := by
  cases ts with
  | nil =>
    unfold Takes
    rw [chain]
    exact takes_pure
  | cons t ts =>
    unfold Takes
    rw [chain, if_neg (stops_cons.mp h)]
    exact takes_pure

/-- Where a token of its kinds comes next, a repetition goes one round and then on. -/
theorem takes_chain_step {a b : α} {t : Token} (h : t.kind ∈ kinds) :
    (chain kinds body a).Takes (t :: ts) b rest ↔
      ∃ c mid, (body a t).Takes ts c mid ∧ (chain kinds body c).Takes mid b rest := by
  rw [← takes_bind]
  unfold Takes
  rw [chain, if_pos h]
  rfl

/-- A repetition that succeeds has ended at once or gone one round. -/
theorem takes_chain_cases {a b : α} (h : (chain kinds body a).Takes ts b rest) :
    (b = a ∧ rest = ts ∧ Stops kinds ts) ∨
      ∃ t us c mid, ts = t :: us ∧ t.kind ∈ kinds ∧ (body a t).Takes us c mid ∧
        (chain kinds body c).Takes mid b rest := by
  by_cases hstop : Stops kinds ts
  · obtain ⟨rfl, rfl⟩ := (takes_chain_stop hstop).mp h
    exact .inl ⟨rfl, rfl, hstop⟩
  · cases ts with
    | nil => exact absurd stops_nil hstop
    | cons t us =>
      have ht : t.kind ∈ kinds := Decidable.not_not.mp fun hk => hstop (stops_cons.mpr hk)
      obtain ⟨c, mid, hround, hmore⟩ := (takes_chain_step ht).mp h
      exact .inr ⟨t, us, c, mid, rfl, ht, hround, hmore⟩

/-- **What every round keeps, the repetition keeps.** `Q a ts b rest` reads: with `a` read so far
and `ts` left, the repetition went on to `b` and left `rest`. -/
theorem chain_induction {Q : α → List Token → α → List Token → Prop}
    (stop : ∀ a ts, Stops kinds ts → Q a ts a ts)
    (step : ∀ a t ts c mid b rest, t.kind ∈ kinds → (body a t).Takes ts c mid →
      Q c mid b rest → Q a (t :: ts) b rest)
    {a b : α} (h : (chain kinds body a).Takes ts b rest) : Q a ts b rest := by
  -- a round may take any number of tokens, so the induction is on how many are left
  induction hn : ts.length using Nat.strongRecOn generalizing a ts with
  | ind n ih =>
    cases ts with
    | nil =>
      obtain ⟨rfl, rfl⟩ := (takes_chain_stop stops_nil).mp h
      exact stop _ _ stops_nil
    | cons t ts =>
      by_cases hk : t.kind ∈ kinds
      · obtain ⟨c, mid, hbody, hrest⟩ := (takes_chain_step hk).mp h
        have hlen : mid.length < n := by
          have hsuffix := (body a t ts).suffix.length_le
          rw [hbody.2] at hsuffix
          rw [← hn, List.length_cons]
          omega
        exact step a t ts c mid b rest hk hbody (ih _ hlen hrest rfl)
      · have hstop : Stops kinds (t :: ts) := stops_cons.mpr hk
        obtain ⟨rfl, rfl⟩ := (takes_chain_stop hstop).mp h
        exact stop _ _ hstop

end Chain

end WhereClause.Parser
