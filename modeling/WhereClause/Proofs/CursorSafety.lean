import WhereClause.Proofs.Answers
import WhereClause.Proofs.Cursor

/-!
# The machine never breaks down

The machine of `Machine.expression` does what the parsers do: from every sound cursor it comes to an
answer, which is that of the parser on the tokens left, and the cursor then stands where the parser
stops. `Machine.Follows` says this of a machine and a parser, for a given number of levels in use.
It goes through sequences, loops and changes of level, so that every rule of the machine has one
lemma beside the parser of the same rule.

That the machine breaks down nowhere is a part of it, since what breaks down has no answer. The
bounds come from `Cursor.Sound`, an invariant over all moments of the past: each single step keeps
it, and it forbids to look behind the end marker or to count below zero. On the way down the levels
in use and the levels left add up to the limit, which is how the counter of the machine meets the
recursion of `Parser.level`.

* `Cursor.Sound`, `Cursor.Reaches` — the invariant, and what every rule does to a cursor;
* `Machine.follows_loop` — a loop follows a repetition with what comes behind it;
* `Machine.follows_level` — the machine on a level does what the parsers with the levels left do;
* `answers?_start` — any demands in turn are answered as on a stream, within all bounds.
-/

namespace WhereClause

variable {α β : Type}

/-! ### Sound cursors -/

namespace Cursor

/-- The tokens before the first end marker. -/
def front (c : Cursor) : List Token :=
  (TokenStream.ofList c.tokens).tokens

/-- The tokens that are left before the first end marker. -/
def rest (c : Cursor) : List Token :=
  c.front.drop c.current

/-- The stream that is left. -/
def stream (c : Cursor) : TokenStream :=
  ⟨c.rest, (TokenStream.ofList c.tokens).endLine⟩

/-- **The invariant of cursors**: there is an end marker, no moment so far was behind the first one
or beyond the limit of levels, and the index never went back. -/
structure Sound (c : Cursor) : Prop where
  ends : ∃ t ∈ c.tokens, t.kind = .eof
  bounded : ∀ m ∈ c.moments, m.current ≤ c.front.length ∧ m.depth ≤ Parser.maxLevels
  ordered : c.moments.Pairwise fun later earlier => earlier.current ≤ later.current

/-- **What a rule does to a cursor.** It is on the same level again, over the same tokens, and no
moment was dropped. -/
structure Reaches (c c' : Cursor) : Prop where
  sound : c'.Sound
  depth_eq : c'.depth = c.depth
  tokens_eq : c'.tokens = c.tokens
  moments_suffix : c.moments <:+ c'.moments

variable {c c' c'' : Cursor}

theorem Sound.reaches_self (h : c.Sound) : c.Reaches c :=
  ⟨h, rfl, rfl, List.suffix_refl _⟩

theorem Reaches.trans (h : c.Reaches c') (h' : c'.Reaches c'') : c.Reaches c'' :=
  ⟨h'.sound, h'.depth_eq.trans h.depth_eq, h'.tokens_eq.trans h.tokens_eq,
    h.moments_suffix.trans h'.moments_suffix⟩

theorem Sound.current_le (h : c.Sound) : c.current ≤ c.front.length :=
  (h.bounded _ List.mem_cons_self).1

theorem Sound.depth_le (h : c.Sound) : c.depth ≤ Parser.maxLevels :=
  (h.bounded _ List.mem_cons_self).2

/-- Any moment may follow that is within the bounds and not in front of the index. -/
theorem Sound.become (h : c.Sound) {m : Moment} (hcurrent : c.current ≤ m.current)
    (hend : m.current ≤ c.front.length) (hdepth : m.depth ≤ Parser.maxLevels) :
    (c.become m).Sound where
  ends := h.ends
  bounded := by
    intro m' hm'
    rcases List.mem_cons.mp hm' with rfl | hm'
    · exact ⟨hend, hdepth⟩
    · exact h.bounded m' hm'
  ordered := by
    refine List.pairwise_cons.mpr ⟨fun m' hm' => ?_, h.ordered⟩
    rcases List.mem_cons.mp hm' with rfl | hm'
    · exact hcurrent
    · exact Nat.le_trans ((List.pairwise_cons.mp h.ordered).1 m' hm') hcurrent

/-- A level may be entered as long as there is one left. -/
theorem Sound.down (h : c.Sound) (hdepth : c.depth < Parser.maxLevels) : c.down.Sound :=
  h.become (Nat.le_refl _) h.current_le hdepth

/-- Behind a token that is left there is another one, or the end marker. -/
theorem Sound.reaches_forth (h : c.Sound) {t : Token} {us : List Token} (hrest : c.rest = t :: us) :
    c.Reaches c.forth := by
  -- otherwise no token would be left
  have hlt : c.current < c.front.length := by
    refine Nat.lt_of_not_le fun hle => ?_
    rw [Cursor.rest, List.drop_eq_nil_iff.mpr hle] at hrest
    cases hrest
  exact ⟨h.become (Nat.le_succ _) hlt h.depth_le, rfl, rfl, List.suffix_cons _ _⟩

/-- A step forth leaves the tokens behind the first one. -/
theorem rest_forth {t : Token} {us : List Token} (hrest : c.rest = t :: us) :
    c.forth.rest = us := by
  have htail := congrArg List.tail hrest
  rwa [Cursor.rest, List.tail_drop] at htail

/-- The tokens are those in front of the first end marker, the marker and what follows it. -/
theorem Sound.exists_end (h : c.Sound) : ∃ e after, c.tokens = c.front ++ e :: after ∧
    e.kind = .eof ∧ e.line = c.stream.endLine ∧ ∀ t ∈ c.front, t.kind ≠ .eof :=
  TokenStream.exists_end h.ends

/-- There are no more tokens left than there are at all. -/
theorem Sound.length_rest_le (h : c.Sound) : c.rest.length ≤ c.tokens.length := by
  obtain ⟨e, after, htokens, -⟩ := h.exists_end
  rw [Cursor.rest, List.length_drop, htokens, List.length_append]
  omega

/-- The current token is the first one left. -/
theorem Sound.getElem_cons (h : c.Sound) {t : Token} {us : List Token} (hrest : c.rest = t :: us) :
    c.tokens[c.current]? = some t ∧ t.kind ≠ .eof := by
  obtain ⟨e, after, htokens, -, -, hfront⟩ := h.exists_end
  have hget : c.front[c.current]? = some t := by
    have hhead := congrArg List.head? hrest
    rwa [Cursor.rest, List.head?_drop] at hhead
  have hlt : c.current < c.front.length := (List.getElem?_eq_some_iff.mp hget).1
  constructor
  · rw [htokens, List.getElem?_append_left hlt, hget]
  · exact hfront t (List.mem_of_getElem? hget)

/-- Where no token is left, the current one is the end marker. -/
theorem Sound.getElem_nil (h : c.Sound) (hrest : c.rest = []) :
    ∃ e, c.tokens[c.current]? = some e ∧ e.kind = .eof ∧ e.line = c.stream.endLine := by
  obtain ⟨e, after, htokens, hkind, hline, -⟩ := h.exists_end
  have hcurrent : c.current = c.front.length :=
    Nat.le_antisymm h.current_le (List.drop_eq_nil_iff.mp hrest)
  refine ⟨e, ?_, hkind, hline⟩
  rw [hcurrent, htokens, List.getElem?_append_right (Nat.le_refl _), Nat.sub_self]
  rfl

/-- An answer of a parser as the machine gives it: complaints are about the current token. -/
def reply (c : Cursor) : Except Complaint α → Except ParseError α
  | .ok a => .ok a
  | .error x => .error (c.stream.errorHere x)

end Cursor

namespace Machine

open Cursor (Sound)

variable {c c' : Cursor}

/-! ### Steps of the machine -/

/-- Behind an answer the machine goes on from the cursor it has come to. -/
theorem bind_of_ok {m : Machine α} {g : α → Machine β} {a : α} (h : m c = some (.ok a, c')) :
    (m >>= g) c = g a c' := by
  change (m c).bind _ = _
  rw [h]
  rfl

/-- An error is the answer of the whole sequence. -/
theorem bind_of_error {m : Machine α} {g : α → Machine β} {e : ParseError}
    (h : m c = some (.error e, c')) : (m >>= g) c = some (.error e, c') := by
  change (m c).bind _ = _
  rw [h]
  rfl

/-- A sequence goes on as another one does whose first step ends in the same way. -/
theorem bind_of_eq {m m' : Machine α} {g : α → Machine β} (h : m c = m' c') :
    (m >>= g) c = (m' >>= g) c' := by
  change (m c).bind _ = (m' c').bind _
  rw [h]

theorem tokenAt_eq {t : Token} {i : Nat} (h : c.tokens[i]? = some t) :
    tokenAt i c = some (.ok t, c) := by
  rw [tokenAt, h]
  rfl

theorem peek_cons {t : Token} {us : List Token} (h : c.Sound) (hrest : c.rest = t :: us) :
    peek c = some (.ok t, c) :=
  tokenAt_eq (h.getElem_cons hrest).1

theorem peek_nil (h : c.Sound) (hrest : c.rest = []) :
    ∃ e, peek c = some (.ok e, c) ∧ e.kind = .eof ∧ e.line = c.stream.endLine := by
  obtain ⟨e, hget, hkind, hline⟩ := h.getElem_nil hrest
  exact ⟨e, tokenAt_eq hget, hkind, hline⟩

/-- The kind behind the current token is that of the second token left. -/
theorem nextKind_eq {t : Token} {us : List Token} (h : c.Sound) (hrest : c.rest = t :: us) :
    nextKind c = some (.ok (us.head?.elim .eof (·.kind)), c) := by
  have hforth := (h.reaches_forth hrest).sound
  have hus := Cursor.rest_forth hrest
  rw [nextKind]
  -- one step forth, the cursor is sound too, and what comes second is current there
  cases us with
  | nil =>
    obtain ⟨e, hget, hkind, -⟩ := hforth.getElem_nil hus
    have hget : c.tokens[c.current + 1]? = some e := hget
    rw [hget, Option.elim_some, hkind]
    rfl
  | cons w vs =>
    have hget : c.tokens[c.current + 1]? = some w := (hforth.getElem_cons hus).1
    rw [hget]
    rfl

/-- The machine is at the end where no token is left. -/
theorem atEnd_eq (h : c.Sound) : atEnd c = some (.ok c.rest.isEmpty, c) := by
  unfold atEnd
  cases hrest : c.rest with
  | nil =>
    obtain ⟨e, hpeek, hkind, -⟩ := peek_nil h hrest
    rw [bind_of_ok hpeek, hkind]
    rfl
  | cons t us =>
    rw [bind_of_ok (peek_cons h hrest), beq_eq_false_iff_ne.mpr (h.getElem_cons hrest).2]
    rfl

/-- The token that was current is the previous one afterwards. -/
theorem advance_eq {t : Token} {us : List Token} (h : c.Sound) (hrest : c.rest = t :: us) :
    advance c = some (.ok t, c.forth) := by
  unfold advance
  rw [bind_of_ok (atEnd_eq h), hrest]
  exact tokenAt_eq (h.getElem_cons hrest).1

/-- A check looks at the first token left. -/
theorem check_eq (h : c.Sound) (kind : Kind) :
    check kind c = some (.ok (c.rest.head?.any (·.kind == kind)), c) := by
  unfold check
  rw [bind_of_ok (atEnd_eq h)]
  cases hrest : c.rest with
  | nil => rfl
  | cons t us =>
    change (peek >>= _) c = _
    rw [bind_of_ok (peek_cons h hrest)]
    rfl

/-- A check for another kind fails. -/
theorem check_of_stops {kind : Kind} (h : c.Sound) (hstop : Parser.Stops [kind] c.rest) :
    check kind c = some (.ok false, c) := by
  have hnone : (c.rest.head?.any (·.kind == kind)) = false := by
    cases hrest : c.rest with
    | nil => rfl
    | cons t us =>
      rw [hrest] at hstop
      simpa using hstop
  rw [check_eq h, hnone]

/-- A check for the kind of the first token left succeeds. -/
theorem check_of_kind {kind : Kind} {t : Token} {us : List Token} (h : c.Sound)
    (hrest : c.rest = t :: us) (hkind : t.kind ∈ [kind]) : check kind c = some (.ok true, c) := by
  rw [check_eq h, hrest]
  simpa using hkind

/-- Checks for several kinds in turn look at one token all the time. -/
theorem anyM_check_eq (h : c.Sound) (kinds : List Kind) :
    kinds.anyM check c = some (.ok (c.rest.head?.any fun t => t.kind ∈ kinds), c) := by
  induction kinds with
  | nil => cases c.rest <;> rfl
  | cons k ks ih =>
    rw [List.anyM, bind_of_ok (check_eq h k)]
    cases hrest : c.rest with
    | nil =>
      rw [hrest] at ih
      exact ih
    | cons t us =>
      rw [hrest] at ih
      -- the first kind that fits ends the search, and the others are asked for in turn
      by_cases hk : t.kind = k
      · simp [hk]
        rfl
      · have hbeq : (t.kind == k) = false := beq_eq_false_iff_ne.mpr hk
        simp only [List.head?_cons, Option.any_some, hbeq, List.mem_cons, hk, false_or] at ih ⊢
        exact ih

/-- The machine stays where no token of the kinds asked for comes next. -/
theorem matchAny_of_stops {kinds : List Kind} (h : c.Sound) (hstop : Parser.Stops kinds c.rest) :
    matchAny kinds c = some (.ok none, c) := by
  have hnone : (c.rest.head?.any fun t => t.kind ∈ kinds) = false := by
    cases hrest : c.rest with
    | nil => rfl
    | cons t us =>
      rw [hrest] at hstop
      simpa using hstop
  rw [matchAny, bind_of_ok (anyM_check_eq h kinds), hnone]
  rfl

/-- The machine goes on behind a token of one of the kinds asked for. -/
theorem matchAny_of_mem {kinds : List Kind} {t : Token} {us : List Token} (h : c.Sound)
    (hrest : c.rest = t :: us) (hkind : t.kind ∈ kinds) :
    matchAny kinds c = some (.ok (some t), c.forth) := by
  have hany : (c.rest.head?.any fun t => t.kind ∈ kinds) = true := by simp [hrest, hkind]
  rw [matchAny, bind_of_ok (anyM_check_eq h kinds), hany, if_pos rfl,
    bind_of_ok (advance_eq h hrest)]
  rfl

/-- Complaints of the machine are about the token at which it stands. -/
theorem failHere_eq (h : c.Sound) (x : Complaint) :
    (failHere x : Machine α) c = some (c.reply (.error x), c) := by
  -- a complaint names the token, unless it is the end marker
  unfold failHere
  cases hrest : c.rest with
  | nil =>
    obtain ⟨e, hpeek, hkind, hline⟩ := peek_nil h hrest
    have herror : ParseError.about e x = c.stream.errorHere x := by
      simp [ParseError.about, TokenStream.errorHere, Cursor.stream, hrest, hkind, hline]
    rw [bind_of_ok hpeek, herror]
    rfl
  | cons t us =>
    have hkind := (h.getElem_cons hrest).2
    have herror : ParseError.about t x = c.stream.errorHere x := by
      simp [ParseError.about, TokenStream.errorHere, Cursor.stream, hrest, hkind]
    rw [bind_of_ok (peek_cons h hrest), herror]
    rfl

/-! ### Machines that follow a parser -/

/-- **The machine does what the parser does**, from the cursor `c` on: it gives the answer of the
parser and stands where the parser stops. -/
def Agrees (m : Machine α) (p : Parser α) (c : Cursor) : Prop :=
  ∃ r c', p.Gives c.rest r c'.rest ∧ m c = some (c'.reply r, c') ∧ c.Reaches c'

/-- **The machine does what the parser does**, from every sound cursor with `d` levels in use. -/
def Follows (m : Machine α) (p : Parser α) (d : Nat) : Prop :=
  ∀ c : Cursor, c.Sound → c.depth = d → Agrees m p c

section Follows

variable {m : Machine α} {p : Parser α} {g : α → Machine β} {f : α → Parser β} {d : Nat}

theorem agrees_pure (h : c.Sound) (a : α) : Agrees (pure a) (pure a) c :=
  ⟨.ok a, c, Parser.gives_pure.mpr ⟨rfl, rfl⟩, rfl, h.reaches_self⟩

theorem agrees_fail (h : c.Sound) (x : Complaint) :
    Agrees (failHere x : Machine α) (Parser.fail x) c :=
  ⟨.error x, c, Parser.gives_fail.mpr ⟨rfl, rfl⟩, failHere_eq h x, h.reaches_self⟩

/-- What agrees from a later cursor on agrees from an earlier one that leads there. -/
theorem Agrees.of_eq {m' : Machine α} {p' : Parser α} (h : Agrees m' p' c') (hm : m c = m' c')
    (hp : ∀ r rest, p'.Gives c'.rest r rest → p.Gives c.rest r rest) (hc : c.Reaches c') :
    Agrees m p c := by
  obtain ⟨r, c'', hgives, hrun, hreach⟩ := h
  exact ⟨r, c'', hp r _ hgives, hm.trans hrun, hc.trans hreach⟩

/-- **Sequencing.** -/
theorem Agrees.bind (h : Agrees m p c)
    (hg : ∀ a c', c.Reaches c' → p.Takes c.rest a c'.rest → Agrees (g a) (f a) c') :
    Agrees (m >>= g) (p >>= f) c := by
  obtain ⟨r, c', hgives, hrun, hreach⟩ := h
  -- an error keeps the second machine from running, as a complaint keeps the second parser
  cases r with
  | ok a =>
    refine (hg a c' hreach hgives).of_eq (bind_of_ok hrun) (fun r rest hmore => ?_) hreach
    exact Parser.gives_bind.mpr (.inl ⟨a, _, hgives, hmore⟩)
  | error x =>
    exact ⟨.error x, c', Parser.gives_bind.mpr (.inr ⟨x, rfl, hgives⟩), bind_of_error hrun, hreach⟩

/-- Rules in sequence, each of which comes back to its level. -/
theorem Follows.bind (h : Follows m p d) (hg : ∀ a, Follows (g a) (f a) d) :
    Follows (m >>= g) (p >>= f) d := by
  intro c hc hd
  exact (h c hc hd).bind fun a c' hreach _ => hg a c' hreach.sound (hreach.depth_eq.trans hd)

theorem follows_pure (a : α) : Follows (pure a) (pure a) d :=
  fun _ hc _ => agrees_pure hc a

theorem follows_fail (x : Complaint) : Follows (failHere x : Machine α) (Parser.fail x) d :=
  fun _ hc _ => agrees_fail hc x

/-- The parser may be replaced by one that gives the same answers. -/
theorem Follows.congr {p' : Parser α} (h : Follows m p d)
    (hp : ∀ ts r rest, p.Gives ts r rest → p'.Gives ts r rest) : Follows m p' d := by
  intro c hc hd
  exact (h c hc hd).of_eq rfl (fun r rest => hp c.rest r rest) hc.reaches_self

/-! ### Single tokens -/

/-- A token that may be there. -/
theorem follows_matchAny (kinds : List Kind) :
    Follows (matchAny kinds) (Parser.accept kinds) d := by
  intro c hc hd
  obtain ⟨t, us, hrest, hkind, htakes⟩ | ⟨hstop, htakes⟩ := Parser.takes_accept kinds c.rest
  · refine ⟨.ok (some t), c.forth, ?_, matchAny_of_mem hc hrest hkind, hc.reaches_forth hrest⟩
    rwa [Cursor.rest_forth hrest]
  · exact ⟨.ok none, c, htakes, matchAny_of_stops hc hstop, hc.reaches_self⟩

/-- A token that has to be there. The machine looks before it takes it. -/
theorem follows_expect (kind : Kind) (x : Complaint) :
    Follows (expect kind x) (Parser.expect kind x) d := by
  intro c hc hd
  unfold expect
  obtain ⟨t, us, hrest, hkind, -⟩ | ⟨hstop, -⟩ := Parser.takes_accept [kind] c.rest
  · refine ⟨.ok t, c.forth, ?_, ?_, hc.reaches_forth hrest⟩
    · rw [hrest, Cursor.rest_forth hrest]
      exact Parser.takes_expect.mpr ⟨rfl, List.mem_singleton.mp hkind⟩
    · rw [bind_of_ok (check_of_kind hc hrest hkind)]
      exact advance_eq hc hrest
  · -- without the token both complain, and the machine has not moved
    refine (agrees_fail hc x).of_eq (bind_of_ok (check_of_stops hc hstop)) (fun r rest h => ?_)
      hc.reaches_self
    obtain ⟨rfl, rfl⟩ := Parser.gives_fail.mp h
    exact Parser.fails_expect.mpr ⟨rfl, rfl, hstop⟩

/-- A token that is taken in any case. -/
theorem agrees_advance {t : Token} {us : List Token} (h : c.Sound) (hrest : c.rest = t :: us)
    (hm : Agrees m p c.forth) : Agrees (do let _ ← advance; m) (do Parser.skip; p) c := by
  refine hm.of_eq (bind_of_ok (advance_eq h hrest)) (fun r rest hgives => ?_)
    (h.reaches_forth hrest)
  rw [Cursor.rest_forth hrest] at hgives
  rw [hrest]
  exact hgives

/-! ### Loops -/

section Loop

variable {kinds : List Kind} {body : α → Token → Parser α} {finish : α → Parser α}
  {round : α → Machine (ForInStep α)} {g : α → Token → Machine α} {n : Nat}

theorem rounds_of_done {a b : α} (h : round a c = some (.ok (.done b), c')) :
    rounds round (n + 1) a c = some (.ok b, c') :=
  bind_of_ok h

theorem rounds_of_yield {a b : α} (h : round a c = some (.ok (.yield b), c')) :
    rounds round (n + 1) a c = rounds round n b c' :=
  bind_of_ok h

/-- What agrees for any number of rounds that there can be tokens for agrees for the loop. -/
theorem agrees_loop {a : α} (h : c.Sound)
    (hrounds : ∀ n, c.rest.length < n → Agrees (rounds round n a) p c) :
    Agrees (loop round a) p c :=
  (hrounds _ (Nat.lt_succ_of_le h.length_rest_le)).of_eq rfl (fun _ _ hgives => hgives)
    h.reaches_self

/-- **A loop follows a repetition** with what comes behind it, if it does so where it stops, and
otherwise takes a token and goes one round. -/
theorem follows_loop
    (hstop : ∀ a n c, c.Sound → Parser.Stops kinds c.rest →
      Agrees (rounds round (n + 1) a) (finish a) c)
    (hstep : ∀ a op us c, c.Sound → c.rest = op :: us → op.kind ∈ kinds →
      round a c = (g a op >>= fun b => pure (.yield b)) c.forth)
    (hround : ∀ a op, Follows (g a op) (body a op) d) (a : α) :
    Follows (loop round a) (Parser.chain kinds body a >>= finish) d := by
  intro c hc hd
  refine agrees_loop hc fun n hn => ?_
  -- every round takes a token, so there are more rounds than tokens left all the way
  induction n generalizing a c with
  | zero => exact absurd hn (Nat.not_lt_zero _)
  | succ n ih =>
    obtain ⟨op, us, hrest, hkind, -⟩ | ⟨hstops, -⟩ := Parser.takes_accept kinds c.rest
    · -- a token of its kinds: one round, and the loop from where that ends
      have hforth := hc.reaches_forth hrest
      have hlength : c.forth.rest.length < n := by
        rw [hrest] at hn
        rw [Cursor.rest_forth hrest]
        exact Nat.lt_of_succ_lt_succ hn
      have hmore : Agrees (g a op >>= rounds round n)
          (body a op >>= fun b => Parser.chain kinds body b >>= finish) c.forth := by
        refine (hround a op c.forth hforth.sound hd).bind fun b c' hreach htakes => ?_
        have hle := (Parser.gives_ok.mpr htakes).suffix.length_le
        exact ih b c' hreach.sound (hreach.depth_eq.trans hd) (Nat.lt_of_le_of_lt hle hlength)
      refine hmore.of_eq ?_ (fun r rest h => ?_) hforth
      · rw [rounds, bind_of_eq (hstep a op us c hc hrest hkind), bind_assoc]
        simp only [pure_bind]
      · rw [Cursor.rest_forth hrest] at h
        rw [hrest, Parser.gives_bind_congr fun _ _ => Parser.gives_chain_step hkind]
        exact Parser.gives_bind_assoc.mpr h
    · -- no such token: the repetition is over, and what comes behind it begins here
      refine (hstop a n c hc hstops).of_eq rfl (fun r rest h => ?_) hc.reaches_self
      have hend : (Parser.chain kinds body a).Takes c.rest a c.rest :=
        (Parser.takes_chain_stop hstops).mpr ⟨rfl, rfl⟩
      exact Parser.gives_bind.mpr (.inl ⟨a, c.rest, hend, h⟩)

theorem chainRound_of_stops {a : α} (h : c.Sound) (hstop : Parser.Stops kinds c.rest) :
    chainRound kinds g a c = some (.ok (.done a), c) :=
  bind_of_ok (matchAny_of_stops h hstop)

theorem chainRound_of_mem {a : α} {op : Token} {us : List Token} (h : c.Sound)
    (hrest : c.rest = op :: us) (hkind : op.kind ∈ kinds) :
    chainRound kinds g a c = (g a op >>= fun b => pure (.yield b)) c.forth :=
  bind_of_ok (matchAny_of_mem h hrest hkind)

/-- A loop that does nothing but look for its tokens. -/
theorem follows_chain (hround : ∀ a op, Follows (g a op) (body a op) d) (a : α) :
    Follows (loop (chainRound kinds g) a) (Parser.chain kinds body a) d := by
  -- what comes behind is nothing at all
  have hfollows : Follows (loop (chainRound kinds g) a) (Parser.chain kinds body a >>= pure) d := by
    refine follows_loop (fun a n c hc hstops => ?_)
      (fun a op us c hc hrest hkind => chainRound_of_mem hc hrest hkind) hround a
    exact (agrees_pure hc a).of_eq (rounds_of_done (chainRound_of_stops hc hstops))
      (fun _ _ h => h) hc.reaches_self
  exact hfollows.congr fun ts r rest => Parser.gives_bind_pure.mp

end Loop

/-! ### Names -/

/-- A name ends where no dot comes next, or no identifier behind it. -/
theorem segmentRound_of_stops {name : String} (h : c.Sound)
    (hstop : ∀ dot us, c.rest = dot :: us → dot.kind = .dot →
      us.head?.elim .eof (·.kind) ≠ .identifier) :
    segmentRound name c = some (.ok (.done name), c) := by
  rw [segmentRound]
  cases hrest : c.rest with
  | nil =>
    have hdot : check .dot c = some (.ok false, c) := check_of_stops h (by simp [hrest])
    rw [bind_of_ok hdot]
    rfl
  | cons t us =>
    -- both questions are asked in any case; one of the answers is no
    by_cases hkind : t.kind = .dot
    · rw [bind_of_ok (check_of_kind h hrest (List.mem_singleton.mpr hkind)),
        bind_of_ok (nextKind_eq h hrest), beq_eq_false_iff_ne.mpr (hstop t us hrest hkind)]
      rfl
    · have hdot : check .dot c = some (.ok false, c) := check_of_stops h (by simp [hrest, hkind])
      rw [bind_of_ok hdot, bind_of_ok (nextKind_eq h hrest)]
      rfl

/-- A round takes a segment. -/
theorem segmentRound_of_kinds {name : String} {dot w : Token} {us : List Token} (h : c.Sound)
    (hrest : c.rest = dot :: w :: us) (hdot : dot.kind = .dot) (hw : w.kind = .identifier) :
    segmentRound name c = some (.ok (.yield (name ++ "." ++ w.lexeme)), c.forth.forth) := by
  have hnext := nextKind_eq h hrest
  rw [List.head?_cons, Option.elim_some, hw] at hnext
  rw [segmentRound, bind_of_ok (check_of_kind h hrest (List.mem_singleton.mpr hdot)),
    bind_of_ok hnext]
  -- the answer is yes, so the dot and the word are taken
  change (advance >>= _) c = _
  rw [bind_of_ok (advance_eq h hrest),
    bind_of_ok (advance_eq (h.reaches_forth hrest).sound (Cursor.rest_forth hrest))]
  rfl

/-- **The segments of a name.** The machine looks at two tokens before it takes them. -/
theorem agrees_segments (name : String) (ts : List Token) (n : Nat) (h : c.Sound)
    (hrest : c.rest = ts) (hn : ts.length < n) :
    Agrees (rounds segmentRound n name) (Parser.dottedName name) c := by
  obtain ⟨n, rfl⟩ := Nat.exists_eq_succ_of_ne_zero (Nat.ne_zero_of_lt hn)
  -- a segment is two tokens long, so the recursion is that of the function on lists
  fun_induction Parser.segments name ts generalizing c n with
  | case1 name dot w ts hkinds ih =>
    have hrest₁ := Cursor.rest_forth hrest
    have hrest₂ := Cursor.rest_forth hrest₁
    have hreach₁ := h.reaches_forth hrest
    have hreach₂ := hreach₁.sound.reaches_forth hrest₁
    have hlt : ts.length + 1 < n := Nat.lt_of_succ_lt_succ hn
    obtain ⟨n, rfl⟩ := Nat.exists_eq_succ_of_ne_zero (Nat.ne_zero_of_lt hlt)
    refine (ih hreach₂.sound hrest₂ n (Nat.lt_of_succ_lt hlt)).of_eq
      (rounds_of_yield (segmentRound_of_kinds h hrest hkinds.1 hkinds.2)) (fun r rest hgives => ?_)
      (hreach₁.trans hreach₂)
    have hsegments : Parser.segments name (dot :: w :: ts) =
        Parser.segments (name ++ "." ++ w.lexeme) ts := by
      rw [Parser.segments, if_pos hkinds]
    rw [hrest₂, Parser.gives_dottedName] at hgives
    rwa [hrest, Parser.gives_dottedName, hsegments]
  | case2 name dot w ts hkinds =>
    refine ⟨.ok name, c, ?_, rounds_of_done (segmentRound_of_stops h ?_), h.reaches_self⟩
    · rw [hrest, Parser.gives_dottedName, Parser.segments, if_neg hkinds]
      exact ⟨rfl, rfl⟩
    · intro dot' us hrest' hdot hw
      rw [hrest] at hrest'
      cases hrest'
      exact hkinds ⟨hdot, hw⟩
  | case3 name ts hts =>
    refine ⟨.ok name, c, ?_, rounds_of_done (segmentRound_of_stops h ?_), h.reaches_self⟩
    · rw [hrest, Parser.gives_dottedName, Parser.segments]
      · exact ⟨rfl, rfl⟩
      · exact hts
    · intro dot us hrest' _ hw
      rw [hrest] at hrest'
      cases us with
      | nil => cases hw
      | cons w vs => exact hts dot w vs hrest'

/-! ### One lemma per rule -/

section Rules

variable {inner : Inner} {signed expr unary : Parser Expr}

/-- A tier whose operators all have the same operands. -/
theorem follows_infixes {t : Tier} {operand : Machine Expr} (h : Follows operand unary d) :
    Follows (infixes t operand) (Parser.infixes t.operators unary) d :=
  h.bind fun first => follows_chain (fun _ _ => h.bind fun _ => follows_pure _) first

/-- Arguments. -/
theorem follows_arguments (he : Follows inner.expression expr d) :
    Follows (arguments inner) (Parser.arguments expr) d :=
  he.bind fun first => follows_chain (fun _ _ => he.bind fun _ => follows_pure _) [first]

/-- What follows a name. The machine notices an empty list of arguments before it takes its closing
parenthesis, and the parser by taking it. -/
theorem follows_callOrName (he : Follows inner.expression expr d) (name : String) :
    Follows (callOrName inner name) (Parser.callOrName expr name) d := by
  refine (follows_matchAny _).bind fun o => ?_
  -- without an opening parenthesis the name is all
  cases o with
  | none => exact follows_pure _
  | some opening =>
    intro c hc hd
    obtain ⟨close, us, hrest, hkind, htakes⟩ | ⟨hstop, htakes⟩ :=
      Parser.takes_accept [.rightParen] c.rest
    · -- the list of arguments is empty
      have hforth := hc.reaches_forth hrest
      have hcheck := check_of_kind hc hrest hkind
      refine (agrees_pure hforth.sound (.call (.identifier name) close [])).of_eq ?_
        (fun r rest h => ?_) hforth
      · change (check .rightParen >>= _) c = _
        rw [bind_of_ok hcheck]
        change (expect .rightParen _ >>= _) c = _
        rw [expect, bind_assoc, bind_of_ok hcheck]
        change (advance >>= _) c = _
        rw [bind_of_ok (advance_eq hc hrest)]
      · rw [Cursor.rest_forth hrest] at h
        exact Parser.gives_bind.mpr (.inl ⟨some close, us, htakes, h⟩)
    · -- there are arguments, and then the closing parenthesis is asked for
      have hargs := (follows_arguments he).bind fun args =>
        (follows_expect .rightParen .expectedCloseOfArguments).bind fun close =>
          follows_pure (Expr.call (.identifier name) close args)
      refine (hargs c hc hd).of_eq ?_ (fun r rest h => ?_) hc.reaches_self
      · change (check .rightParen >>= _) c = _
        rw [bind_of_ok (check_of_stops hc hstop)]
        rfl
      · exact Parser.gives_bind.mpr (.inl ⟨none, c.rest, htakes, h⟩)

/-- Literals and parentheses are told by the kind of the current token. -/
theorem agrees_primary (he : Follows inner.expression expr d) (h : c.Sound) (hd : c.depth = d)
    (hstop : Parser.Stops [.parameter, .identifier] c.rest) :
    Agrees (primary inner) (Parser.operand expr) c := by
  cases hrest : c.rest with
  | nil =>
    obtain ⟨e, hpeek, hkind, -⟩ := peek_nil h hrest
    refine (agrees_fail h .expectedExpression).of_eq ?_ (fun r rest hgives => ?_) h.reaches_self
    · rw [primary, bind_of_ok hpeek, failHere, bind_of_ok hpeek, hkind]
    · rw [hrest] at hgives ⊢
      exact hgives
  | cons t us =>
    have hpeek := peek_cons h hrest
    have hforth := (h.reaches_forth hrest).sound
    have hliteral : ∀ v, Agrees (do let _ ← advance; pure (Expr.literal v))
        (do Parser.skip; pure (.literal v)) c :=
      fun v => agrees_advance h hrest (agrees_pure hforth _)
    have hfail : ∀ x, Agrees (throw (.about t x) : Machine Expr) (Parser.fail x) c := by
      intro x
      refine (agrees_fail h x).of_eq ?_ (fun _ _ hgives => hgives) h.reaches_self
      rw [failHere, bind_of_ok hpeek]
    have hgrouping := agrees_advance h hrest ((he.bind fun e =>
      (follows_expect .rightParen .expectedCloseOfGrouping).bind fun _ =>
        follows_pure (Expr.grouping e)) c.forth hforth hd)
    -- once the branch is known on both sides, they agree if the branches do
    have hbranch : ∀ {m : Machine Expr} {p : Parser Expr}, Agrees m p c → primary inner c = m c →
        (∀ r rest, (Parser.operand expr).Gives (t :: us) r rest ↔ p.Gives (t :: us) r rest) →
        Agrees (primary inner) (Parser.operand expr) c := by
      intro m p hm hprimary hoperand
      refine hm.of_eq hprimary (fun r rest hgives => ?_) h.reaches_self
      rw [hrest] at hgives ⊢
      exact (hoperand r rest).mpr hgives
    rw [hrest, Parser.stops_cons] at hstop
    -- the machine and the parser branch in the same way
    cases hk : t.kind with
    | parameter | identifier => simp [hk] at hstop
    | kwFalse | kwTrue | kwNull =>
      refine hbranch (hliteral _) (by rw [primary, bind_of_ok hpeek, hk]) fun r rest => ?_
      rw [Parser.operand, Parser.gives_peek_bind]
      simp only [List.head?_cons, hk]
    | leftParen =>
      refine hbranch hgrouping (by rw [primary, bind_of_ok hpeek, hk]) fun r rest => ?_
      rw [Parser.operand, Parser.gives_peek_bind]
      simp only [List.head?_cons, hk]
    | string | number =>
      cases hv : t.literal with
      | none =>
        refine hbranch (hfail .literalWithoutValue) (by rw [primary, bind_of_ok hpeek, hk, hv])
          fun r rest => ?_
        rw [Parser.operand, Parser.gives_peek_bind]
        simp only [List.head?_cons, hk, hv]
      | some v =>
        refine hbranch (hliteral v) (by rw [primary, bind_of_ok hpeek, hk, hv]) fun r rest => ?_
        rw [Parser.operand, Parser.gives_peek_bind]
        simp only [List.head?_cons, hk, hv]
    | _ =>
      refine hbranch (hfail .expectedExpression) (by rw [primary, bind_of_ok hpeek, hk])
        fun r rest => ?_
      rw [Parser.operand, Parser.gives_peek_bind]
      simp only [List.head?_cons, hk]

/-- **Operands.** The machine asks for a parameter, a name and the rest in turn, where the parser
branches once. -/
theorem follows_parameter (he : Follows inner.expression expr d) :
    Follows (parameter inner) (Parser.operand expr) d := by
  intro c hc hd
  rw [parameter]
  obtain ⟨t, us, hrest, hkind, -⟩ | ⟨hparameter, -⟩ := Parser.takes_accept [.parameter] c.rest
  · -- a parameter comes next, and the parser branches on it at once
    have hforth := hc.reaches_forth hrest
    refine (agrees_pure hforth.sound (Expr.parameter t.lexeme)).of_eq
      (bind_of_ok (matchAny_of_mem hc hrest hkind)) (fun r rest hgives => ?_) hforth
    rw [Cursor.rest_forth hrest] at hgives
    rw [hrest, Parser.operand, Parser.gives_peek_bind]
    simp only [List.head?_cons, List.mem_singleton.mp hkind]
    exact hgives
  · obtain ⟨t, us, hrest, hkind, -⟩ | ⟨hidentifier, -⟩ := Parser.takes_accept [.identifier] c.rest
    · -- a word comes next: the machine has missed a parameter, and now finds a name
      have hforth := hc.reaches_forth hrest
      have hname : Agrees (loop segmentRound t.lexeme) (Parser.dottedName t.lexeme) c.forth :=
        agrees_loop hforth.sound fun n => agrees_segments t.lexeme _ n hforth.sound rfl
      have hmore : Agrees (loop segmentRound t.lexeme >>= callOrName inner)
          (Parser.dottedName t.lexeme >>= Parser.callOrName expr) c.forth :=
        hname.bind fun name c' hreach _ =>
          follows_callOrName he name c' hreach.sound (hreach.depth_eq.trans hd)
      refine hmore.of_eq ?_ (fun r rest hgives => ?_) hforth
      · rw [bind_of_ok (matchAny_of_stops hc hparameter)]
        change call inner c = _
        rw [call, dottedName, bind_assoc, bind_of_ok (matchAny_of_mem hc hrest hkind)]
        change ((loop segmentRound t.lexeme >>= _) >>= _) c.forth = _
        rw [bind_assoc]
        rfl
      · rw [Cursor.rest_forth hrest] at hgives
        rw [hrest, Parser.operand, Parser.gives_peek_bind]
        simp only [List.head?_cons, List.mem_singleton.mp hkind]
        exact hgives
    · -- neither of the two comes next, so the machine has stayed where it was for the last branch
      have hstop : Parser.Stops [.parameter, .identifier] c.rest := by
        intro t ht hmem
        rcases List.mem_cons.mp hmem with hk | hk
        · exact hparameter t ht (List.mem_singleton.mpr hk)
        · exact hidentifier t ht hk
      refine (agrees_primary he hc hd hstop).of_eq ?_ (fun _ _ h => h) hc.reaches_self
      rw [bind_of_ok (matchAny_of_stops hc hparameter)]
      change call inner c = _
      rw [call, dottedName, bind_assoc, bind_of_ok (matchAny_of_stops hc hidentifier)]
      rfl

/-- **Prefix operators.** -/
theorem follows_unary (hu : Follows inner.signed signed d) (he : Follows inner.expression expr d) :
    Follows (Machine.unary inner) (Parser.signed signed expr) d := by
  refine (follows_matchAny _).bind fun o => ?_
  cases o with
  | none => exact follows_parameter he
  | some op => exact hu.bind fun x => follows_pure _

/-- The right side of `in`. -/
theorem follows_target (hu : Follows (Machine.unary inner) unary d)
    (he : Follows inner.expression expr d) :
    Follows (target inner) (Parser.inTarget unary expr) d := by
  refine (follows_matchAny _).bind fun o => ?_
  cases o with
  | some opening =>
    exact (follows_arguments he).bind fun items =>
      (follows_expect _ _).bind fun _ => follows_pure _
  | none =>
    refine hu.bind fun first => ?_
    -- two dots that have to be there are looked for, and missed where they are not
    unfold Parser.expect
    refine Follows.congr ?_ fun ts r rest => Parser.gives_bind_assoc.mpr
    refine (follows_matchAny _).bind fun o => ?_
    cases o with
    | none => exact follows_fail .expectedInTarget
    | some op => exact hu.bind fun last => follows_pure _

/-- **The tier of `in`.** The machine refuses `between` in front of every operator that it looks
for, and the parser only behind the last one, but `between` is none of the operators. -/
theorem follows_equality (hu : Follows (Machine.unary inner) unary d)
    (he : Follows inner.expression expr d) :
    Follows (equality inner) (Parser.equality unary expr) d := by
  have hcomparison : Follows (comparison inner) (Parser.comparison unary) d :=
    follows_infixes (t := .comparison) hu
  refine hcomparison.bind fun first => follows_loop (g := equalityBody inner)
    (fun left n c hc hstops => ?_) (fun left op us c hc hrest hkind => ?_) (fun left op => ?_) first
  · -- where the loop ends, the machine has just looked for `between`, and the parser looks now
    obtain ⟨t, us, hrest, hkind, -⟩ | ⟨hbetween, -⟩ := Parser.takes_accept [.kwBetween] c.rest
    · have hfail : equalityRound inner left c = some (c.reply (.error .betweenReserved), c) := by
        rw [equalityRound, bind_of_ok (check_of_kind hc hrest hkind)]
        exact failHere_eq hc _
      refine ⟨.error .betweenReserved, c, ?_, bind_of_error hfail, hc.reaches_self⟩
      refine Parser.gives_bind.mpr (.inr ⟨.betweenReserved, rfl, ?_⟩)
      exact Parser.fails_rejectBetween.mpr ⟨rfl, rfl, t, us, hrest, List.mem_singleton.mp hkind⟩
    · have hdone : equalityRound inner left c = some (.ok (.done left), c) := by
        rw [equalityRound, bind_of_ok (check_of_stops hc hbetween)]
        exact chainRound_of_stops hc hstops
      refine (agrees_pure hc left).of_eq (rounds_of_done hdone) (fun r rest hgives => ?_)
        hc.reaches_self
      exact Parser.gives_bind.mpr
        (.inl ⟨(), c.rest, Parser.takes_rejectBetween.mpr ⟨rfl, hbetween⟩, hgives⟩)
  · -- in front of an operator the look is in vain
    have hbetween : Parser.Stops [.kwBetween] c.rest := by
      rw [hrest, Parser.stops_cons]
      intro hmem
      rw [List.mem_singleton.mp hmem] at hkind
      exact absurd hkind (by decide)
    rw [equalityRound, bind_of_ok (check_of_stops hc hbetween)]
    exact chainRound_of_mem hc hrest hkind
  · unfold equalityBody
    -- the right side of `in` has a rule of its own
    by_cases hin : op.kind = .kwIn
    · simp only [if_pos hin]
      exact (follows_target hu he).bind fun right => follows_pure _
    · simp only [if_neg hin]
      exact hcomparison.bind fun right => follows_pure _

/-- **The whole of a level.** -/
theorem follows_disjunction (hu : Follows (Machine.unary inner) unary d)
    (he : Follows inner.expression expr d) :
    Follows (disjunction inner) (Parser.disjunction unary expr) d :=
  follows_infixes (t := .disjunction) (follows_infixes (t := .conjunction) (follows_equality hu he))

end Rules

/-! ### Levels -/

/-- What the machine does one level down, and then comes up from, it does on its own level. -/
theorem follows_nested (h : Follows m p (d + 1)) (hd : d < Parser.maxLevels) :
    Follows (nested m) p d := by
  intro c hc hdepth
  have hlt : c.depth < Parser.maxLevels := hdepth ▸ hd
  -- there is a level left, so the way down is open
  have hdescend : descend c = some (.ok (), c.down) := if_neg (Nat.not_le_of_lt hlt)
  obtain ⟨r, c', hgives, hrun, hreach⟩ := h c.down (hc.down hlt) (congrArg (· + 1) hdepth)
  -- the counter is above zero below, whether the answer is a tree or an error
  have hup : c'.up? = some (c'.become ⟨c'.current, c.depth⟩) := by
    rw [Cursor.up?, hreach.depth_eq]
    rfl
  refine ⟨r, c'.become ⟨c'.current, c.depth⟩, hgives, ?_, ?_, rfl, hreach.tokens_eq, ?_⟩
  · rw [nested, bind_of_ok hdescend, hrun]
    change (c'.up?).bind _ = _
    rw [hup]
    cases r <;> rfl
  · exact hreach.sound.become (Nat.le_refl _) hreach.sound.current_le hc.depth_le
  · exact (List.suffix_cons _ _).trans (hreach.moments_suffix.trans (List.suffix_cons _ _))

/-- With no level left, the machine complains. -/
theorem follows_tooDeep : Follows (nested m) (Parser.fail .tooDeep) Parser.maxLevels := by
  intro c hc hdepth
  have hdescend : descend c = failHere .tooDeep c := if_pos (Nat.le_of_eq hdepth.symm)
  refine (agrees_fail hc .tooDeep).of_eq ?_ (fun _ _ h => h) hc.reaches_self
  rw [failHere_eq hc] at hdescend ⊢
  exact bind_of_error hdescend

/-- **The machine on a level does what the parsers with the levels left do**, if it may call itself
once more than there are levels left. -/
theorem follows_level (n d : Nat) (hlevels : d + n = Parser.maxLevels) :
    Follows (inner (n + 1)).signed (Parser.level n).unary d ∧
      Follows (inner (n + 1)).expression (Parser.level n).expression d := by
  induction n generalizing d with
  | zero =>
    -- all levels are in use, and the next way down is refused on both sides
    obtain rfl : d = Parser.maxLevels := hlevels
    exact ⟨follows_tooDeep, follows_tooDeep⟩
  | succ n ih =>
    -- one level further down there is one level less to go
    obtain ⟨ihsigned, ihexpression⟩ := ih (d + 1) (by omega)
    have hunary := follows_unary ihsigned ihexpression
    have hexpression := follows_disjunction hunary ihexpression
    exact ⟨follows_nested hunary (by omega), follows_nested hexpression (by omega)⟩

/-- An expression with nothing after it. -/
theorem follows_whole (h : Follows expression Parser.expression d) :
    Follows whole Parser.whole d := by
  refine h.bind fun e => ?_
  intro c hc hd
  -- what is left decides on both sides
  cases hrest : c.rest with
  | nil =>
    refine (agrees_pure hc e).of_eq ?_ (fun r rest hgives => ?_) hc.reaches_self
    · rw [bind_of_ok (atEnd_eq hc), hrest]
      rfl
    · rw [hrest] at hgives ⊢
      exact hgives
  | cons t us =>
    refine (agrees_fail hc .expectedEnd).of_eq ?_ (fun r rest hgives => ?_) hc.reaches_self
    · rw [bind_of_ok (atEnd_eq hc), hrest]
      rfl
    · rw [hrest] at hgives ⊢
      exact hgives

/-- What agrees with a parser answers as the parser does on the stream that is left. -/
theorem Agrees.exists_run (h : Agrees m p c) :
    ∃ c', m c = some ((c.stream.run p).1, c') ∧ (c.stream.run p).2 = c'.stream ∧ c.Reaches c' := by
  obtain ⟨r, c', ⟨hresult, hrest⟩, hrun, hreach⟩ := h
  have hresult : (p c.stream.tokens).result = r := hresult
  have hleft : (⟨(p c.stream.tokens).rest, c.stream.endLine⟩ : TokenStream) = c'.stream := by
    rw [Cursor.stream, hrest, Cursor.stream, hreach.tokens_eq]
  have hanswer : c.stream.run p = (c'.reply r, c'.stream) := by
    cases r with
    | ok a => simp only [TokenStream.run, hresult, hleft, Cursor.reply]
    | error x => simp only [TokenStream.run, hresult, hleft, Cursor.reply]
  rw [hanswer]
  exact ⟨c', hrun, rfl, hreach⟩

end Follows

/-- **One demand.** -/
theorem exists_onStream (h : c.Sound) (hd : c.depth = 0) (q : Demand) :
    ∃ c', q.machine c = some ((q.onStream c.stream).1, c') ∧
      (q.onStream c.stream).2 = c'.stream ∧ c.Reaches c' := by
  have hexpression := (follows_level Parser.maxLevels 0 (Nat.zero_add _)).2
  cases q with
  | expression => exact (hexpression c h hd).exists_run
  | whole => exact (follows_whole hexpression c h hd).exists_run

end Machine

/-! ### Demands in turn -/

namespace Cursor

variable {c : Cursor}

/-- **Demands in turn.** Each cursor is reached from all cursors before it. -/
theorem exists_answers (h : c.Sound) (hd : c.depth = 0) (qs : List Demand) :
    ∃ answers, c.answers? qs = some answers ∧
      answers.map (fun a => (a.1, a.2.stream)) = c.stream.answers qs ∧
      (c :: answers.map (·.2)).Pairwise Reaches := by
  induction qs generalizing c with
  | nil => exact ⟨[], rfl, rfl, List.pairwise_singleton _ _⟩
  | cons q qs ih =>
    obtain ⟨c', hrun, hstream, hreach⟩ := Machine.exists_onStream h hd q
    -- no level is in use behind an answer, so the next demand starts as this one did
    obtain ⟨more, hmore, hanswers, hpairwise⟩ := ih hreach.sound (hreach.depth_eq.trans hd)
    refine ⟨((q.onStream c.stream).1, c') :: more, ?_, ?_, ?_⟩
    · rw [answers?, hrun]
      change (c'.answers? qs).bind _ = _
      rw [hmore]
      rfl
    · rw [TokenStream.answers, hstream, ← hanswers, List.map_cons, ← hstream]
    · -- what is reached later is reached from here through the first answer
      refine List.pairwise_cons.mpr ⟨fun c'' hc'' => ?_, hpairwise⟩
      rcases List.mem_cons.mp hc'' with rfl | hc''
      · exact hreach
      · exact hreach.trans ((List.pairwise_cons.mp hpairwise).1 c'' hc'')

/-- The invariant holds at the start. -/
theorem start_sound (ts : List Token) : (start ts).Sound where
  ends := exists_eof_completed ts
  bounded := by
    intro m hm
    rw [List.mem_singleton.mp hm]
    exact ⟨Nat.zero_le _, Nat.zero_le _⟩
  ordered := List.pairwise_singleton _ _

/-- At the start, the stream that is left is the whole one. -/
theorem start_stream (ts : List Token) : (start ts).stream = TokenStream.ofList ts := by
  rw [← ofList_completed]
  rfl

/-- The tokens in front of the first end marker are as many as its index says. -/
theorem length_front (c : Cursor) : c.front.length = c.tokens.findIdx (·.kind == .eof) := by
  have hnot : (fun t : Token => !(t.kind != .eof)) = (·.kind == .eof) := by
    funext t
    rw [bne, Bool.not_not]
  unfold front TokenStream.ofList
  rw [List.takeWhile_eq_take_findIdx_not, List.length_take, hnot,
    Nat.min_eq_left List.findIdx_le_length]

end Cursor

/-- **The machine answers any demands in turn**, whatever the tokens are, and goes on behind
errors. No index and no counter is ever out of its bounds, which are the first end marker and the
limit of levels, the index never goes back, and no level is in use behind an answer. All answers are
those of the parsers on a stream. -/
theorem answers?_start (ts : List Token) (qs : List Demand) :
    ∃ answers, (Cursor.start ts).answers? qs = some answers ∧
      answers.map (fun a => (a.1, a.2.stream)) = (TokenStream.ofList ts).answers qs ∧
      (Cursor.start ts :: answers.map (·.2)).Pairwise (fun c c' => c.moments <:+ c'.moments) ∧
      ∀ a ∈ answers, a.2.tokens = Cursor.completed ts ∧ a.2.depth = 0 ∧
        (∀ m ∈ a.2.moments, m.current ≤ (Cursor.completed ts).findIdx (·.kind == .eof) ∧
          m.depth ≤ Parser.maxLevels) ∧
        a.2.moments.Pairwise fun later earlier => earlier.current ≤ later.current := by
  obtain ⟨answers, hrun, hanswers, hpairwise⟩ :=
    Cursor.exists_answers (Cursor.start_sound ts) rfl qs
  rw [Cursor.start_stream] at hanswers
  refine ⟨answers, hrun, hanswers, hpairwise.imp Cursor.Reaches.moments_suffix, fun a ha => ?_⟩
  have hreach : (Cursor.start ts).Reaches a.2 :=
    (List.pairwise_cons.mp hpairwise).1 a.2 (List.mem_map_of_mem ha)
  -- every answer is reached from the start, so its cursor is sound and over the same tokens
  have hbounded := hreach.sound.bounded
  rw [Cursor.length_front, hreach.tokens_eq] at hbounded
  exact ⟨hreach.tokens_eq, hreach.depth_eq, hbounded, hreach.sound.ordered⟩

end WhereClause
