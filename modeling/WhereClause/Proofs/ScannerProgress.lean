import WhereClause.Proofs.ScannerSafety

/-!
# The scanner comes to an end

A scanner may be called any number of times, also behind errors. What its answers can be is settled
by one list of outcomes (`Lexer.Outcome`), and all that is said here about calls in turn follows
from it. Either the text that is left gets shorter, or the scanner has come to where it stays: to
the end of the text, or to a character that no token starts with. Each further call then finds the
same text and gives the same answer. Errors about strings and numbers do take something, so the
scanner goes on behind them.

Since every call but the last one takes a character, there are no more calls than characters until
the end marker or an error comes, and one more for that.

* `IsLast` — the answers at which a scanner stays;
* `Lexer.Outcome` — what reading can come to;
* `Call`, `Calls` — what is known of one call and of calls in turn;
* `calls_in_bounds` — any number of calls is answered, in bounds and with progress.
-/

namespace WhereClause

/-! ### What reading can come to -/

/-- **An answer at which a scanner stays**: the end marker, or an error about a character that no
token starts with. -/
def IsLast (answer : Except LexError Token) : Prop :=
  (∃ t, answer = .ok t ∧ t.kind = .eof) ∨ ∃ c n, answer = .error (.unexpectedCharacter c n)

/-- No spelling is empty. -/
theorem IsSpelling.length_pos {x : List Char} (h : IsSpelling x) : 0 < x.length := by
  cases h with
  | @symbol k s hk hs => cases k <;> cases hs <;> decide
  | word hw =>
    obtain ⟨c, cs, rfl, -⟩ := exists_cons_of_isWord hw
    exact Nat.succ_pos _
  | parameter _ => exact Nat.succ_pos _
  | string _ => exact Nat.succ_pos _
  | integer hds =>
    obtain ⟨c, cs, rfl, -⟩ := exists_cons_of_isNumeral hds
    exact Nat.succ_pos _
  | decimal hwhole _ =>
    obtain ⟨c, cs, rfl, -⟩ := exists_cons_of_isNumeral hwhole
    exact Nat.succ_pos _

/-- A spelling is the longest one at the front of a text if reading leaves what is behind it. -/
theorem IsSpelling.isLongest {x r : List Char} {n : Nat} (h : IsSpelling x)
    (hr : (⟨x ++ r, n⟩ : Lexer).read.2.rest = r) : IsLongestSpelling x (x ++ r) where
  isSpelling := h
  isPrefix := List.prefix_append x r
  length_le := by
    rintro y hy ⟨r', hr'⟩
    -- reading goes past every spelling at the front, so past this one
    have hle := Lexer.length_rest_read_le hy r' n
    rw [hr', hr] at hle
    have hlength := congrArg List.length hr'
    rw [List.length_append, List.length_append] at hlength
    omega

namespace Lexer

/-- **What reading can come to**, where no blank stands in front. -/
inductive Outcome : Lexer → Except LexError Token → Lexer → Prop
  | ended {n : Nat} : Outcome ⟨[], n⟩ (.ok (.eof n)) ⟨[], n⟩
  | token {t : Token} {x : List Char} {n : Nat} {l : Lexer} :
      Spells t x → Outcome ⟨x ++ l.rest, n⟩ (.ok t) l
  | unexpected {c : Char} {cs : List Char} {n : Nat} :
      Outcome ⟨c :: cs, n⟩ (.error (.unexpectedCharacter c n)) ⟨c :: cs, n⟩
  | unterminated {cs : List Char} {n n' : Nat} :
      Outcome ⟨'\'' :: cs, n⟩ (.error (.unterminatedString n')) ⟨[], n'⟩
  | outOfRange {ds r : List Char} {n : Nat} :
      IsLongestSpelling ds (ds ++ r) →
        Outcome ⟨ds ++ r, n⟩ (.error (.invalidNumber (String.ofList ds) n)) ⟨r, n⟩

section Outcome

variable {c : Char} {cs : List Char} {n : Nat} {e : LexError} {l : Lexer}

/-- A number is read from its spelling, whether it has a value or not. -/
theorem exists_readNumber (cs : List Char) (hc : c.isDigit) :
    ∃ w v r, readNumber (c :: cs) = (w, v, r) ∧ c :: cs = w ++ r ∧ IsSpelling w := by
  obtain ⟨ds, r, hcs, hds, hr⟩ | ⟨whole, fraction, r, hcs, hwhole, hfraction, hr⟩ :=
    numeral_cases cs hc
  · exact ⟨ds, _, r, hcs ▸ readNumber_integer hds hr, hcs, .integer hds⟩
  · exact ⟨_, _, r, hcs ▸ readNumber_decimal hwhole hfraction hr, hcs, .decimal hwhole hfraction⟩

/-- Digits that have no value are the longest spelling at the front all the same. -/
theorem outcome_number (hc : c.isDigit) (h : (⟨c :: cs, n⟩ : Lexer).read = (.error e, l)) :
    Outcome ⟨c :: cs, n⟩ (.error e) l := by
  obtain ⟨w, v, r, hnumber, hcs, hw⟩ := exists_readNumber cs hc
  have hread := read_number (n := n) hc hnumber
  cases v with
  | some v =>
    rw [hread] at h
    cases h
  | none =>
    -- the digits are a spelling that reading goes behind, whatever their value
    have hlongest : IsLongestSpelling w (w ++ r) := by
      refine hw.isLongest (n := n) ?_
      rw [← hcs, hread]
    rw [hread] at h
    cases h
    rw [hcs]
    exact .outOfRange hlongest

/-- A string fails only where the text ends before it does. -/
theorem outcome_string (h : (⟨'\'' :: cs, n⟩ : Lexer).read = (.error e, l)) :
    Outcome ⟨'\'' :: cs, n⟩ (.error e) l := by
  have hstring : (⟨'\'' :: cs, n⟩ : Lexer).readString cs = (.error e, l) := h
  unfold readString at hstring
  split at hstring <;> cases hstring
  exact .unterminated

/-- **Reading comes to one of these outcomes.** -/
theorem outcome_read (l : Lexer) : Outcome l l.read.1 l.read.2 := by
  obtain ⟨rest, n⟩ := l
  cases rest with
  | nil => exact .ended
  | cons c cs =>
    rcases hread : (⟨c :: cs, n⟩ : Lexer).read with ⟨answer, l⟩
    cases answer with
    | ok t =>
      obtain ⟨x, hx, hspells, -⟩ := spells_of_read hread
      rw [hx]
      exact .token hspells
    | error e =>
      by_cases hquote : c = '\''
      · subst hquote
        exact outcome_string hread
      by_cases hdigit : c.isDigit
      · exact outcome_number hdigit hread
      -- no other class of tokens has errors
      simp only [read, if_neg hquote, if_neg hdigit] at hread
      split at hread
      · cases hread
      split at hread
      · cases hread
      split at hread <;> cases hread
      exact .unexpected

/-- The same for the next token, behind the blanks. -/
theorem outcome_next (l : Lexer) : Outcome l.skipBlanks l.next.1 l.next.2 :=
  outcome_read l.skipBlanks

/-! Each kind of answer tells what the lexer has done to the text. -/

namespace Outcome

variable {l' : Lexer} {answer : Except LexError Token}

/-- Where the lexer stays, nothing has changed. -/
theorem eq_of_isLast (h : Outcome l answer l') (hlast : IsLast answer) : l' = l := by
  cases h with
  | ended => rfl
  | unexpected => rfl
  | token hspells =>
    -- a token has a spelling, so it is no end marker
    obtain ⟨t, ht, hkind⟩ | ⟨c, n, hc⟩ := hlast
    · cases ht
      exact absurd hkind hspells.kind_ne_eof
    · cases hc
  | unterminated | outOfRange =>
    obtain ⟨t, ht, -⟩ | ⟨c, n, hc⟩ := hlast
    · cases ht
    · cases hc

/-- Everywhere else something is taken. -/
theorem length_lt (h : Outcome l answer l') (hlast : ¬ IsLast answer) :
    l'.rest.length < l.rest.length := by
  cases h with
  | ended => exact absurd (.inl ⟨_, rfl, rfl⟩) hlast
  | unexpected => exact absurd (.inr ⟨_, _, rfl⟩) hlast
  | @token t x _ l hspells =>
    -- every spelling has a first character
    obtain ⟨c, cs, rfl, -⟩ := hspells.starts
    rw [List.length_append, List.length_cons]
    omega
  | unterminated => exact Nat.succ_pos _
  | @outOfRange ds r n hlongest =>
    have hpos := hlongest.isSpelling.length_pos
    change r.length < (ds ++ r).length
    rw [List.length_append]
    omega

/-- An open string takes all of the text. -/
theorem eq_of_unterminated (h : Outcome l (.error (.unterminatedString n)) l') :
    l' = ⟨[], n⟩ := by
  cases h
  rfl

/-- A number out of range is taken as a whole. -/
theorem of_invalidNumber {digits : String} (h : Outcome l (.error (.invalidNumber digits n)) l') :
    l.rest = digits.toList ++ l'.rest ∧ l'.line = n ∧
      IsLongestSpelling digits.toList (digits.toList ++ l'.rest) := by
  cases h with
  | outOfRange hlongest =>
    rw [String.toList_ofList]
    exact ⟨rfl, rfl, hlongest⟩

end Outcome

/-- Behind blanks there are no more of them. -/
theorem skipBlanks_skipBlanks (l : Lexer) : l.skipBlanks.skipBlanks = l.skipBlanks := by
  have hclear : Clear isSeparator l.skipBlanks.rest := clear_dropWhile
  have htake := takeWhile_append_clear (w := []) rfl hclear
  have hdrop := dropWhile_append_clear (w := []) rfl hclear
  rw [List.nil_append] at htake hdrop
  rw [skipBlanks, htake, hdrop]
  rfl

/-- **Where the lexer stays**, the next answer is the same one. -/
theorem next_of_isLast (h : IsLast l.next.1) : l.next.2.next = l.next := by
  rw [l.outcome_next.eq_of_isLast h, next, skipBlanks_skipBlanks]
  rfl

/-- **Everywhere else it takes something.** -/
theorem length_next_lt (h : ¬ IsLast l.next.1) : l.next.2.rest.length < l.rest.length :=
  Nat.lt_of_lt_of_le (l.outcome_next.length_lt h) l.length_skipBlanks_le

end Outcome

/-! ### Calls in turn -/

section Calls

variable {l : Lexer}

/-- Every call has an answer. -/
theorem length_calls (k : Nat) (l : Lexer) : (calls k l).length = k := by
  induction k generalizing l with
  | zero => rfl
  | succ k ih => rw [calls, List.length_cons, ih]

/-- **Once the lexer stays, all answers are the same.** -/
theorem calls_of_isLast (h : IsLast l.next.1) (k : Nat) :
    ∀ r ∈ (calls k l.next.2).map Prod.fst, r = l.next.1 := by
  induction k with
  | zero => exact List.forall_mem_nil _
  | succ k ih =>
    rw [calls, next_of_isLast h, List.map_cons]
    exact List.forall_mem_cons.mpr ⟨rfl, ih⟩

end Calls

end Lexer

/-- At the end of a text there is nothing but the end marker. -/
theorem Lexer.calls_nil (n k : Nat) :
    ∀ r ∈ (calls k ⟨[], n⟩).map Prod.fst, r = .ok (.eof n) := by
  have hlast : IsLast (⟨[], n⟩ : Lexer).next.1 := .inl ⟨_, rfl, rfl⟩
  exact calls_of_isLast hlast k

/-! ### One call and calls in turn -/

/-- **What is known of a call**: the scanner before it, the answer, the scanner behind it, and the
answers to the calls that follow. -/
structure Call (s : Scanner) (answer : Except LexError Token) (s' : Scanner)
    (later : List (Except LexError Token)) : Prop where
  moves : s.position < s'.position ∨ IsLast answer
  stays : IsLast answer → ∀ r ∈ later, r = answer
  /-- Behind a string that is not closed, the text has come to its end. -/
  behind_string : ∀ n, answer = .error (.unterminatedString n) → ∀ r ∈ later, r = .ok (.eof n)
  /-- A number without a value is passed over as a whole, and what comes next is read from the text
  behind it. -/
  behind_number : ∀ digits n, answer = .error (.invalidNumber digits n) →
    ∃ front, s'.input = front ++ digits.toList ++ s'.rest ∧ front.length = s'.start ∧
      s'.position = s'.start + digits.toList.length ∧
      IsLongestSpelling digits.toList (digits.toList ++ s'.rest) ∧
      ∀ r ∈ later.head?, r = (⟨s'.rest, n⟩ : Lexer).next.1

/-- **Calls in turn**, each from the scanner that the one before has left. -/
def Calls : Scanner → List (Except LexError Token × Scanner) → Prop
  | _, [] => True
  | s, (answer, s') :: more => Call s answer s' (more.map Prod.fst) ∧ Calls s' more

namespace Scanner

variable {s s' : Scanner}

/-- The text is what the scanner has gone over and what is left. -/
theorem input_eq (s : Scanner) : s.input = s.input.take s.position ++ s.rest :=
  (List.take_append_drop s.position s.input).symm

/-- The position moves on iff less text is left. -/
theorem Reaches.position_lt (h : s.Reaches s') (hlt : s'.rest.length < s.rest.length) :
    s.position < s'.position := by
  rw [rest, rest, List.length_drop, List.length_drop, h.input_eq] at hlt
  have hle := h.position_le
  omega

/-- **One call** of a sound scanner, which leaves the rest that the lexer leaves. What follows it is
known from the lexer alone. -/
theorem call_of_next (h : s.Reaches s') (hlexer : s'.lexer = s.lexer.next.2)
    (hstart : s'.start = s.position + (s.rest.takeWhile Lexer.isSeparator).length) (k : Nat) :
    Call s s.lexer.next.1 s' ((Lexer.calls k s'.lexer).map Prod.fst) where
  moves := by
    -- at an answer of another kind the lexer has taken something, and the position moves with it
    by_cases hlast : IsLast s.lexer.next.1
    · exact .inr hlast
    · have hlt := Lexer.length_next_lt hlast
      rw [← hlexer] at hlt
      exact .inl (h.position_lt hlt)
  stays := by
    intro hlast
    rw [hlexer]
    exact Lexer.calls_of_isLast hlast k
  behind_string := by
    intro n hanswer
    have houtcome := s.lexer.outcome_next
    rw [hanswer] at houtcome
    -- the lexer is at the end of the text, and nothing but the end marker is left there
    rw [hlexer, houtcome.eq_of_unterminated]
    exact Lexer.calls_nil n k
  behind_number := by
    intro digits n hanswer
    have houtcome := s.lexer.outcome_next
    rw [hanswer, ← hlexer] at houtcome
    obtain ⟨hdigits, hline, hlongest⟩ := houtcome.of_invalidNumber
    -- in front of the call there were blanks, then the digits, and then what is left now
    have hrest : s.rest = s.rest.takeWhile Lexer.isSeparator ++ (digits.toList ++ s'.rest) := by
      have hsplit : s.rest = s.rest.takeWhile Lexer.isSeparator ++ s.lexer.skipBlanks.rest :=
        List.takeWhile_append_dropWhile.symm
      rwa [hdigits] at hsplit
    have hinput : s'.input = s.input.take s.position ++ s.rest.takeWhile Lexer.isSeparator ++
        digits.toList ++ s'.rest := by
      rw [List.append_assoc, List.append_assoc, ← hrest, ← s.input_eq, h.input_eq]
    -- the text in front of the digits is what was read before and the blanks
    have hfront : (s.input.take s.position ++ s.rest.takeWhile Lexer.isSeparator).length =
        s'.start := by
      rw [List.length_append, List.length_take, Nat.min_eq_left h.position_le, hstart]
    refine ⟨_, hinput, hfront, ?_, hlongest, ?_⟩
    · -- the position is behind the digits, as all but what is left has been read
      have hlength := congrArg List.length hinput
      have hle := h.sound.position_le
      rw [List.length_append, List.length_append, hfront, rest, List.length_drop] at hlength
      omega
    · intro r hr
      -- the next call, if there is one, is made on what is left behind the digits
      cases k with
      | zero => cases hr
      | succ k =>
        obtain rfl := Option.some.inj hr
        rw [← hline]
        rfl

/-- **Calls in turn** are answered as by a lexer, each of them from a sound scanner. -/
theorem exists_calls (h : s.Sound) (k : Nat) :
    ∃ calls, s.calls? k = some calls ∧
      calls.map (fun a => (a.1, a.2.lexer)) = Lexer.calls k s.lexer ∧ Calls s calls ∧
      (s :: calls.map (·.2)).Pairwise Reaches := by
  induction k generalizing s with
  | zero => exact ⟨[], rfl, rfl, trivial, List.pairwise_singleton _ _⟩
  | succ k ih =>
    obtain ⟨s', hnext, hlexer, hreach, hstart⟩ := Scanning.next_eq h
    obtain ⟨more, hmore, hagree, hcalls, hpairwise⟩ := ih hreach.sound
    -- what follows the first call is known from the lexer that it leaves
    have hanswers : more.map Prod.fst = (Lexer.calls k s'.lexer).map Prod.fst := by
      rw [← hagree, List.map_map]
      rfl
    refine ⟨(s.lexer.next.1, s') :: more, ?_, ?_, ⟨?_, hcalls⟩, ?_⟩
    · rw [calls?, hnext]
      change (calls? k s').bind _ = _
      rw [hmore]
      rfl
    · rw [List.map_cons, hagree, hlexer]
      rfl
    · rw [hanswers]
      exact call_of_next hreach hlexer hstart k
    · -- whatever is reached later is reached from here through the first call
      refine List.pairwise_cons.mpr ⟨fun s'' hs'' => ?_, hpairwise⟩
      rcases List.mem_cons.mp hs'' with rfl | hs''
      · exact hreach
      · exact hreach.trans ((List.pairwise_cons.mp hpairwise).1 s'' hs'')

/-- Behind a token the calls go on, up to the end marker. -/
theorem scanWithin?_of_next {t : Token} {k : Nat} (h : Scanning.next s = some (.ok t, s')) :
    s.scanWithin? (k + 1) =
      if t.kind = .eof then some (.ok [t]) else (s'.scanWithin? k).map (Except.map (t :: ·)) := by
  rw [scanWithin?, h]
  change (if t.kind = .eof then _ else _) = _
  split
  · rfl
  · cases s'.scanWithin? k <;> rfl

/-- **Every call but the last one takes a character**, so there are no more of them than characters
and one more. -/
theorem scanWithin?_eq (h : s.Sound) {k : Nat} (hk : s.rest.length < k) :
    s.scanWithin? k = some s.lexer.tokens := by
  induction k generalizing s with
  | zero => exact absurd hk (Nat.not_lt_zero _)
  | succ k ih =>
    obtain ⟨s', hnext, hlexer, hreach, -⟩ := Scanning.next_eq h
    rcases hanswer : s.lexer.next with ⟨answer, l⟩
    rw [hanswer] at hnext hlexer
    rw [Lexer.tokens_eq, hanswer]
    cases answer with
    | error e =>
      -- the first error is the answer, and ends the calls
      rw [scanWithin?, hnext]
      rfl
    | ok t =>
      dsimp only at hnext hlexer ⊢
      by_cases heof : t.kind = .eof
      · rw [scanWithin?_of_next hnext, if_pos heof, if_pos heof]
      · -- a character is taken, so one call less is enough for what is left
        have hlt := Lexer.next_length_lt hanswer heof
        rw [← hlexer] at hlt
        have hmore := ih hreach.sound (Nat.lt_of_lt_of_le hlt (Nat.le_of_lt_succ hk))
        rw [scanWithin?_of_next hnext, if_neg heof, if_neg heof, hmore, hlexer]
        rfl

/-- The invariant holds at the start. -/
theorem sound_ofString (source : String) : (ofString source).Sound where
  bounded := by
    intro m hm
    rw [List.mem_singleton.mp hm]
    exact ⟨Nat.le_refl _, Nat.zero_le _⟩
  ordered := List.pairwise_singleton _ _

end Scanner

/-- **Any number of calls is answered, in bounds and with progress.**

Nothing breaks down, and the answers are those of the lexer, which is left with the same rest. At
all times the start is not behind the position and the position not behind the end, and neither the
position nor the line goes back. Each call takes a character or has come to where the scanner stays,
with what follows an error as in `Call`. All tokens are read in at most one call more than the text
has characters. -/
theorem calls_in_bounds (source : String) (k : Nat) :
    ∃ calls, (Scanner.ofString source).calls? k = some calls ∧ calls.length = k ∧
      calls.map (fun a => (a.1, a.2.lexer)) = Lexer.calls k (Lexer.ofString source) ∧
      (Scanner.ofString source :: calls.map (·.2)).Pairwise (fun s s' => s.stands <:+ s'.stands) ∧
      (∀ a ∈ calls,
        (∀ m ∈ a.2.stands, m.start ≤ m.position ∧ m.position ≤ source.toList.length) ∧
        a.2.stands.Pairwise fun later earlier =>
          earlier.position ≤ later.position ∧ earlier.line ≤ later.line) ∧
      Calls (Scanner.ofString source) calls ∧
      (Scanner.ofString source).scanWithin? (source.toList.length + 1) = some (scan source) := by
  have hsound := Scanner.sound_ofString source
  obtain ⟨calls, hrun, hagree, hcalls, hpairwise⟩ := Scanner.exists_calls hsound k
  have hlength := congrArg List.length hagree
  rw [List.length_map, Lexer.length_calls] at hlength
  refine ⟨calls, hrun, hlength, hagree, hpairwise.imp Scanner.Reaches.stands_suffix,
    fun a ha => ?_, hcalls, Scanner.scanWithin?_eq hsound (Nat.lt_succ_self _)⟩
  -- every call stands where the start of the run has reached
  have hreach := (List.pairwise_cons.mp hpairwise).1 a.2 (List.mem_map_of_mem ha)
  have hbounded := hreach.sound.bounded
  rw [hreach.input_eq] at hbounded
  exact ⟨hbounded, hreach.sound.ordered⟩

end WhereClause
