import WhereClause.Proofs.LongestMatch
import WhereClause.Proofs.Scanner

/-!
# The scanner never breaks down

A scanner with indices into the text does what a lexer on the text that is left does. From every
sound scanner the next call comes to an answer, which is that of `Lexer.next`, and leaves a scanner
that has the same text before it as the lexer that is left. Every class of tokens has one lemma for
this, in terms of `Scanning.Reads`.

That nothing breaks down is a part of it, since what breaks down has no answer. The bounds come from
`Scanner.Sound`, an invariant over all stands of the past: each single step keeps it, and it keeps
the ends of a cut in order and within the text. A loop takes a character in each round
(`Scanning.StepsOver`), so that it ends before the rounds it may take are used up.

* `Scanner.Sound`, `Scanner.Reaches` — the invariant, and what every action does to a scanner;
* `Scanner.Takes` — what is read inside of a token;
* `Scanning.rounds_eq` — a loop takes the longest run of its characters;
* `Scanning.next_eq` — a call of a scanner is a call of the lexer on the text left.
-/

namespace WhereClause

/-! ### Sound scanners -/

namespace Scanner

/-- The text that is still to be read. -/
def rest (s : Scanner) : List Char :=
  s.input.drop s.position

/-- The lexer that reads on from the position. -/
def lexer (s : Scanner) : Lexer :=
  ⟨s.rest, s.line⟩

/-- **The invariant of scanners**: at no time did a token start behind the position or was the
position behind the end of the text, and neither the position nor the line ever went back. -/
structure Sound (s : Scanner) : Prop where
  bounded : ∀ m ∈ s.stands, m.start ≤ m.position ∧ m.position ≤ s.input.length
  ordered : s.stands.Pairwise fun later earlier =>
    earlier.position ≤ later.position ∧ earlier.line ≤ later.line

/-- **What an action does to a scanner.** It is over the same text, and no stand was dropped. -/
structure Reaches (s s' : Scanner) : Prop where
  sound : s'.Sound
  input_eq : s'.input = s.input
  stands_suffix : s.stands <:+ s'.stands

/-- **Reading on inside of a token**: the scanner goes over the text `x`. -/
structure Takes (s : Scanner) (x : List Char) (s' : Scanner) : Prop extends Reaches s s' where
  rest_eq : s.rest = x ++ s'.rest
  start_eq : s'.start = s.start

variable {s s' s'' : Scanner} {c : Char} {x y cs : List Char}

theorem Sound.reaches_self (h : s.Sound) : s.Reaches s :=
  ⟨h, rfl, List.suffix_refl _⟩

theorem Reaches.trans (h : s.Reaches s') (h' : s'.Reaches s'') : s.Reaches s'' :=
  ⟨h'.sound, h'.input_eq.trans h.input_eq, h.stands_suffix.trans h'.stands_suffix⟩

theorem Sound.start_le (h : s.Sound) : s.start ≤ s.position :=
  (h.bounded _ List.mem_cons_self).1

theorem Sound.position_le (h : s.Sound) : s.position ≤ s.input.length :=
  (h.bounded _ List.mem_cons_self).2

/-- No stand of the past was behind the end of the text. -/
theorem Reaches.position_le (h : s.Reaches s') : s.position ≤ s.input.length := by
  have hmem := h.stands_suffix.subset (List.mem_cons_self : s.toStand ∈ s.stands)
  exact h.input_eq ▸ (h.sound.bounded _ hmem).2

/-- Any stand may follow that is within the bounds and not in front of the last one. -/
theorem Sound.reaches_become (h : s.Sound) {stand : Stand} (hstart : stand.start ≤ stand.position)
    (hend : stand.position ≤ s.input.length) (hposition : s.position ≤ stand.position)
    (hline : s.line ≤ stand.line) : s.Reaches (s.become stand) where
  input_eq := rfl
  stands_suffix := List.suffix_cons _ _
  sound := by
    constructor
    · intro m hm
      rcases List.mem_cons.mp hm with rfl | hm
      · exact ⟨hstart, hend⟩
      · exact h.bounded m hm
    · -- the last stand is not behind the new one, and no earlier stand is behind the last one
      refine List.pairwise_cons.mpr ⟨fun m hm => ?_, h.ordered⟩
      rcases List.mem_cons.mp hm with rfl | hm
      · exact ⟨hposition, hline⟩
      · obtain ⟨hle, hle'⟩ := (List.pairwise_cons.mp h.ordered).1 m hm
        exact ⟨Nat.le_trans hle hposition, Nat.le_trans hle' hline⟩

/-- Where a character is left, the position is within the text. -/
theorem position_lt (hrest : s.rest = c :: cs) : s.position < s.input.length := by
  have hlength := congrArg List.length hrest
  rw [rest, List.length_drop, List.length_cons] at hlength
  omega

/-- A step forth leaves the text behind the first character. -/
theorem rest_forth (hrest : s.rest = c :: cs) : s.forth.rest = cs := by
  have htail := congrArg List.tail hrest
  rwa [rest, List.tail_drop] at htail

theorem Sound.takes_nil (h : s.Sound) : s.Takes [] s :=
  ⟨h.reaches_self, rfl, rfl⟩

/-- Two texts are taken one after the other. -/
theorem Takes.trans (h : s.Takes x s') (h' : s'.Takes y s'') : s.Takes (x ++ y) s'' where
  toReaches := h.toReaches.trans h'.toReaches
  rest_eq := by rw [h.rest_eq, h'.rest_eq, List.append_assoc]
  start_eq := h'.start_eq.trans h.start_eq

/-- One character is taken. -/
theorem Sound.takes_forth (h : s.Sound) (hrest : s.rest = c :: cs) : s.Takes [c] s.forth where
  toReaches := h.reaches_become (Nat.le_succ_of_le h.start_le) (position_lt hrest)
    (Nat.le_succ _) (Nat.le_refl _)
  rest_eq := by rw [rest_forth hrest, hrest, List.singleton_append]
  start_eq := rfl

/-- Counting a line takes no text. -/
theorem Sound.takes_newLine (h : s.Sound) : s.Takes [] s.newLine where
  toReaches := h.reaches_become h.start_le h.position_le (Nat.le_refl _) (Nat.le_succ _)
  rest_eq := rfl
  start_eq := rfl

/-- A token may start anywhere. -/
theorem Sound.reaches_begin (h : s.Sound) : s.Reaches s.begin :=
  h.reaches_become (Nat.le_refl _) h.position_le (Nat.le_refl _) (Nat.le_refl _)

/-- A character is taken together with the line that it may end. -/
theorem Sound.takes_onward (h : s.Sound) (hrest : s.rest = c :: cs) :
    s.Takes [c] (s.onward c) ∧ (s.onward c).line = s.line + [c].count '\n' := by
  unfold onward
  by_cases hc : c = '\n'
  · -- the line is counted before the character is taken
    subst hc
    have hline := h.takes_newLine
    rw [if_pos rfl]
    exact ⟨hline.trans (hline.sound.takes_forth (hline.rest_eq.symm.trans hrest)), rfl⟩
  · rw [if_neg hc, List.count_singleton, if_neg (by simpa using hc)]
    exact ⟨h.takes_forth hrest, rfl⟩

/-- The position moves by the length of what is taken. -/
theorem Takes.position_eq (h : s.Takes x s') : s'.position = s.position + x.length := by
  have hle := h.toReaches.position_le
  have hle' := h.sound.position_le
  have hlength := congrArg List.length h.rest_eq
  rw [h.input_eq] at hle'
  rw [List.length_append, rest, rest, List.length_drop, List.length_drop, h.input_eq] at hlength
  omega

end Scanner

namespace Scanning

open Scanner (Sound Takes)

variable {α β : Type} {s s' : Scanner} {c : Char} {x cs : List Char}

/-! ### Steps of the scanner -/

theorem bind_eq {m : Scanning α} {g : α → Scanning β} {a : α} (h : m s = some (a, s')) :
    (m >>= g) s = g a s' := by
  change (m s).bind _ = _
  rw [h]
  rfl

theorem change_eq (s : Scanner) (f : Scanner → Scanner) : change f s = some ((), f s) :=
  rfl

theorem line_eq (s : Scanner) : line s = some (s.line, s) :=
  rfl

/-- Looking ahead is looking at what is left. -/
theorem ahead_eq (s : Scanner) (k : Nat) : ahead k s = some (s.rest[k]?, s) := by
  rw [Scanner.rest, List.getElem?_drop]
  rfl

theorem current_eq (s : Scanner) : current s = some (s.rest.head?, s) := by
  rw [List.head?_eq_getElem?]
  exact ahead_eq s 0

/-- **The cut of a token** that the scanner has read from its start is the text it has gone over. -/
theorem text_eq (hstart : s.start = s.position) (h : s.Takes x s') :
    text s' = some (String.ofList x, s') := by
  have hposition := h.position_eq
  -- the start is where the scanner stood before it took `x`
  have hcut : (s'.input.take s'.position).drop s'.start = x := by
    rw [List.drop_take, h.start_eq, hstart, h.input_eq, hposition, Nat.add_sub_cancel_left]
    have hrest : s.input.drop s.position = x ++ s'.rest := h.rest_eq
    rw [hrest, List.take_left]
  rw [text, if_pos ⟨h.sound.start_le, h.sound.position_le⟩, hcut]

/-- A step that a loop may make over characters of a class: it takes the character, and minds the
end of a line if there can be one. -/
def StepsOver (p : Char → Bool) (step : Char → Scanner → Scanner) : Prop :=
  ∀ (s : Scanner) (c : Char) (cs : List Char), s.Sound → s.rest = c :: cs → p c →
    s.Takes [c] (step c s) ∧ (step c s).line = s.line + [c].count '\n'

/-- The step that counts lines may go over any class. -/
theorem stepsOver_onward (p : Char → Bool) : StepsOver p Scanner.onward :=
  fun _ _ _ h hrest _ => h.takes_onward hrest

/-- The step that does not count them may go over a class without ends of lines. -/
theorem stepsOver_forth {p : Char → Bool} (hp : ¬ p '\n') :
    StepsOver p fun _ => Scanner.forth := by
  intro s c cs h hrest hc
  have hne : c ≠ '\n' := by
    rintro rfl
    exact hp hc
  refine ⟨h.takes_forth hrest, ?_⟩
  rw [List.count_singleton, if_neg (by simpa using hne)]
  rfl

/-- **A loop goes over the longest run of its class** and then stops, within as many rounds as there
are characters left and one more. -/
theorem rounds_eq {p : Char → Bool} {step : Char → Scanner → Scanner} (hstep : StepsOver p step)
    (h : s.Sound) {n : Nat} (hn : s.rest.length < n) :
    ∃ s', rounds p step n s = some (s.rest.takeWhile p, s') ∧
      s.Takes (s.rest.takeWhile p) s' ∧ s'.line = s.line + (s.rest.takeWhile p).count '\n' := by
  induction n generalizing s with
  | zero => exact absurd hn (Nat.not_lt_zero _)
  | succ n ih =>
    rw [rounds, bind_eq (current_eq s)]
    cases hrest : s.rest with
    | nil => exact ⟨s, rfl, h.takes_nil, rfl⟩
    | cons c cs =>
      by_cases hc : p c
      · obtain ⟨htakes, hline⟩ := hstep s c cs h hrest hc
        have hcs : (step c s).rest = cs := by
          have := htakes.rest_eq
          rw [hrest] at this
          exact ((List.cons.inj this).2).symm
        -- one round less is left, and one character less
        have hlength : (step c s).rest.length < n := by
          rw [hcs]
          rw [hrest, List.length_cons] at hn
          omega
        obtain ⟨s', hrun, htakes', hline'⟩ := ih htakes.sound hlength
        rw [hcs] at hrun htakes' hline'
        refine ⟨s', ?_, ?_, ?_⟩
        · simp only [List.head?_cons, if_pos hc]
          rw [bind_eq (change_eq s (step c)), bind_eq hrun, List.takeWhile_cons_of_pos hc]
          rfl
        · rw [List.takeWhile_cons_of_pos hc]
          exact htakes.trans htakes'
        · rw [List.takeWhile_cons_of_pos hc, hline', hline, Nat.add_assoc, ← List.count_append]
          rfl
      · rw [List.takeWhile_cons_of_neg hc]
        refine ⟨s, ?_, h.takes_nil, rfl⟩
        simp only [List.head?_cons, if_neg hc]
        rfl

/-- **A loop** never runs out of rounds. -/
theorem run_eq {p : Char → Bool} {step : Char → Scanner → Scanner} (hstep : StepsOver p step)
    (h : s.Sound) :
    ∃ s', run p step s = some (s.rest.takeWhile p, s') ∧ s.Takes (s.rest.takeWhile p) s' ∧
      s'.rest = s.rest.dropWhile p ∧ s'.line = s.line + (s.rest.takeWhile p).count '\n' := by
  have hn : s.rest.length < s.input.length + 1 := by
    rw [Scanner.rest, List.length_drop]
    omega
  obtain ⟨s', hrun, htakes, hline⟩ := rounds_eq hstep h hn
  refine ⟨s', hrun, htakes, ?_, hline⟩
  have hsplit : s.rest.takeWhile p ++ s'.rest = s.rest.takeWhile p ++ s.rest.dropWhile p := by
    rw [List.takeWhile_append_dropWhile, ← htakes.rest_eq]
  exact List.append_cancel_left hsplit

theorem accept_of_head {cs : List Char} (h : s.rest = c :: cs) :
    accept c s = some (true, s.forth) := by
  rw [accept, bind_eq (current_eq s), h, List.head?_cons, if_pos rfl]
  rfl

theorem accept_of_ne (h : s.rest.head? ≠ some c) : accept c s = some (false, s) := by
  rw [accept, bind_eq (current_eq s), if_neg h]
  rfl

/-! ### Tokens by their classes -/

/-- **Reading a token.** The answer is that of a lexer, which then reads on from where the scanner
stands, and the scanner has gone over the text of the token. -/
def Reads (m : Scanning (Except LexError Token)) (s : Scanner)
    (answer : Except LexError Token × Lexer) : Prop :=
  ∃ x s', m s = some (answer.1, s') ∧ s.Takes x s' ∧ s'.lexer = answer.2

/-- What comes behind the first character of a mark: its kind, and the character that prolongs it,
if there is one. -/
def prolongation (kind : Kind) : List (Char × Kind) → List Char → Kind × List Char
  | [], _ => (kind, [])
  | (c, longer) :: more, r =>
    if r.head? = some c then (longer, [c]) else prolongation kind more r

/-- The kind of a mark, and the character that is taken for it. -/
theorem prolonged_eq (h : s.Sound) (kind : Kind) (longer : List (Char × Kind)) :
    ∃ s', prolonged kind longer s = some ((prolongation kind longer s.rest).1, s') ∧
      s.Takes (prolongation kind longer s.rest).2 s' ∧ s'.line = s.line := by
  induction longer with
  | nil => exact ⟨s, rfl, h.takes_nil, rfl⟩
  | cons item more ih =>
    obtain ⟨c, longer⟩ := item
    rw [prolonged, prolongation]
    by_cases hc : s.rest.head? = some c
    · obtain ⟨cs, hcs⟩ := List.head?_eq_some_iff.mp hc
      rw [if_pos hc, bind_eq (accept_of_head hcs)]
      exact ⟨s.forth, rfl, h.takes_forth hcs, rfl⟩
    · rw [if_neg hc, bind_eq (accept_of_ne hc)]
      exact ih

/-- Another character, or none, comes first. -/
theorem clear_beq {d : Char} (h : cs.head? ≠ some d) : Clear (· == d) cs :=
  fun _ hc heq => h (eq_of_beq heq ▸ hc)

/-- The marks of a scanner are those of a lexer. -/
theorem symbol?_cons (c : Char) (cs : List Char) :
    Lexer.symbol? (c :: cs) = (marks c).map fun m =>
      ((prolongation m.1 m.2 cs).1, String.ofList (c :: (prolongation m.1 m.2 cs).2),
        cs.drop (prolongation m.1 m.2 cs).2.length) := by
  by_cases hc : c ∈ Lexer.symbolStarts
  · simp only [Lexer.symbolStarts, List.mem_cons, List.not_mem_nil, or_false] at hc
    rcases hc with rfl | rfl | rfl | rfl | rfl | rfl | rfl | rfl
    · rfl
    · rfl
    · rfl
    · rfl
    · rfl
    -- three marks may be prolonged, and are not where another character follows or none
    · by_cases hd : cs.head? = some '.'
      · obtain ⟨cs, rfl⟩ := List.head?_eq_some_iff.mp hd
        rfl
      · have hclear : Clear Kind.dot.prolongs cs := clear_beq hd
        rw [marks, Option.map_some, prolongation, if_neg hd]
        exact Lexer.symbol?_of_spelling (k := .dot) rfl rfl hclear
    · by_cases hd : cs.head? = some '='
      · obtain ⟨cs, rfl⟩ := List.head?_eq_some_iff.mp hd
        rfl
      · have hclear : Clear Kind.greater.prolongs cs := clear_beq hd
        rw [marks, Option.map_some, prolongation, if_neg hd]
        exact Lexer.symbol?_of_spelling (k := .greater) rfl rfl hclear
    · by_cases hd : cs.head? = some '='
      · obtain ⟨cs, rfl⟩ := List.head?_eq_some_iff.mp hd
        rfl
      by_cases hd' : cs.head? = some '>'
      · obtain ⟨cs, rfl⟩ := List.head?_eq_some_iff.mp hd'
        rfl
      · have hclear : Clear Kind.less.prolongs cs := by
          intro d hmem hless
          rcases Bool.or_eq_true_iff.mp hless with hequal | hgreater
          · exact clear_beq hd d hmem hequal
          · exact clear_beq hd' d hmem hgreater
        rw [marks, Option.map_some, prolongation, if_neg hd, prolongation, if_neg hd']
        exact Lexer.symbol?_of_spelling (k := .less) rfl rfl hclear
  · -- no symbol starts with the character, on either side
    have hnone : marks c = none := by
      unfold marks
      split
      case h_9 => rfl
      all_goals exact absurd (by decide) hc
    rw [hnone, Option.map_none, Option.eq_none_iff_forall_ne_some]
    rintro ⟨k, text, r⟩ hsymbol
    obtain ⟨c', cs', hcons, hc'⟩ := Lexer.symbol?_starts hsymbol
    exact hc ((List.cons.inj hcons).1 ▸ hc')

/-- A token with a fixed spelling has no value. -/
theorem ofKind_of_spelling? {k : Kind} {lexeme : String} (h : k.spelling? = some lexeme) :
    Token.ofKind k lexeme = ⟨k, lexeme, none, 1⟩ := by
  cases k <;> cases h <;> rfl

/-- **Marks and operators.** -/
theorem reads_mark (h : s.Sound) (hstart : s.start = s.position) (hrest : s.rest = c :: cs)
    {kind : Kind} {longer : List (Char × Kind)} (hc : marks c = some (kind, longer)) :
    Reads (tokenFrom c) s s.lexer.read := by
  have hforth := h.takes_forth hrest
  obtain ⟨s', hprolonged, htakes, hline⟩ := prolonged_eq hforth.sound kind longer
  have hsymbol := symbol?_cons c cs
  rw [hc, Option.map_some] at hsymbol
  rw [Scanner.rest_forth hrest] at hprolonged htakes
  rcases hkind : prolongation kind longer cs with ⟨k, y⟩
  simp only [hkind] at hprolonged htakes hsymbol
  -- the lexer takes the same characters, and so leaves the same text
  have hleft : cs.drop y.length = s'.rest := by
    have hcs : cs = y ++ s'.rest := (Scanner.rest_forth hrest).symm.trans htakes.rest_eq
    rw [hcs, List.drop_left]
  have hspelling := (Lexer.spelling_of_symbol? hsymbol).1
  have htoken : token k s' = some (⟨k, String.ofList (c :: y), none, s.line⟩, s') := by
    rw [token, bind_eq (text_eq hstart (hforth.trans htakes))]
    change some ((Token.ofKind k (String.ofList (c :: y))).atLine s'.line, s') = _
    rw [ofKind_of_spelling? hspelling, hline]
    rfl
  refine ⟨_, s', ?_, hforth.trans htakes, ?_⟩
  · rw [Scanner.lexer, hrest, Lexer.read_symbol hsymbol, tokenFrom]
    simp only [hc]
    rw [bind_eq (change_eq s .forth), bind_eq hprolonged, bind_eq htoken]
    rfl
  · rw [Scanner.lexer, Scanner.lexer, hrest, Lexer.read_symbol hsymbol, hleft, hline]
    rfl

/-- **Strings.** -/
theorem reads_quoted (h : s.Sound) (hstart : s.start = s.position) (hrest : s.rest = '\'' :: cs) :
    Reads quoted s s.lexer.read := by
  have hforth := h.takes_forth hrest
  obtain ⟨s₁, hrun, htakes, hleft, hline⟩ := run_eq (stepsOver_onward (· != '\'')) hforth.sound
  rw [Scanner.rest_forth hrest] at hrun htakes hleft hline
  have hread : s.lexer.read = s.lexer.readString cs := by
    rw [Scanner.lexer, hrest]
    rfl
  rw [hread, Lexer.readString, quoted, Reads]
  rw [bind_eq (line_eq s), bind_eq (change_eq s .forth), bind_eq hrun,
    bind_eq (current_eq s₁), hleft]
  cases hquote : cs.dropWhile (· != '\'') with
  | nil =>
    -- the text ends inside of the string
    rw [hquote] at hleft
    refine ⟨_, s₁, ?_, hforth.trans htakes, ?_⟩
    · simp only [List.head?_nil]
      rw [bind_eq (line_eq s₁), hline]
      rfl
    · rw [Scanner.lexer, hleft, hline]
      rfl
  | cons q r =>
    rw [hquote] at hleft
    obtain rfl : q = '\'' := by
      have hclear : Clear (· != '\'') (cs.dropWhile (· != '\'')) := clear_dropWhile
      rw [hquote, clear_cons] at hclear
      simpa using hclear
    have hclose := htakes.sound.takes_forth hleft
    have hall := (hforth.trans htakes).trans hclose
    refine ⟨_, s₁.forth, ?_, hall, ?_⟩
    · simp only [List.head?_cons]
      rw [bind_eq (change_eq s₁ .forth), bind_eq (text_eq hstart hall)]
      rfl
    · rw [Scanner.lexer, Scanner.rest_forth hleft]
      exact congrArg (Lexer.mk r) hline

/-- A run of a class without ends of lines. -/
theorem run_forth {p : Char → Bool} {w r : List Char} (hp : ¬ p '\n') (h : s.Sound)
    (hrest : s.rest = w ++ r) (hw : w.all p) (hr : Clear p r) :
    ∃ s', run p (fun _ => Scanner.forth) s = some (w, s') ∧ s.Takes w s' ∧
      s'.lexer = ⟨r, s.line⟩ := by
  obtain ⟨s', hrun, htakes, hleft, hline⟩ := run_eq (stepsOver_forth hp) h
  rw [hrest, takeWhile_append_clear hw hr] at hrun htakes hline
  rw [hrest, dropWhile_append_clear hw hr] at hleft
  rw [count_newline_of_all hw hp] at hline
  exact ⟨s', hrun, htakes, by rw [Scanner.lexer, hleft, hline]; rfl⟩

/-- **Words.** The spelling of a keyword is the word that it was found by. -/
theorem reads_word (h : s.Sound) (hrest : s.rest = c :: cs) (hc : Lexer.isWordStart c) :
    Reads word s s.lexer.read := by
  obtain ⟨w, r, hcs, hw, hr⟩ := Lexer.exists_word cs hc
  obtain ⟨s', hrun, htakes, hlexer⟩ :=
    run_forth (by decide) h (hrest.trans hcs) (Bool.and_eq_true_iff.mp hw).2 hr
  have hline : s'.line = s.line := congrArg Lexer.line hlexer
  rw [Scanner.lexer, hrest, hcs, Lexer.read_word hw hr]
  refine ⟨w, s', ?_, htakes, hlexer⟩
  rw [word, bind_eq hrun, bind_eq (line_eq s'), hline]
  cases hk : Kind.ofKeyword? (String.ofList w) with
  | none => rfl
  | some k =>
    -- a keyword has been found by its spelling
    have hkeyword : k.keyword? = some (String.ofList w) :=
      eq_of_beq (List.find?_some (p := fun k : Kind => k.keyword? == some (String.ofList w)) hk)
    have hkind : Token.ofKind k "" = ⟨k, String.ofList w, none, 1⟩ := by
      rw [Token.ofKind, hkeyword]
      rfl
    simp only [hkind]
    rfl

/-- **Parameters.** -/
theorem reads_parameter (h : s.Sound) (hrest : s.rest = ':' :: cs)
    (hcs : cs.head?.any Lexer.isWordStart) : Reads parameter s s.lexer.read := by
  obtain ⟨c, cs, rfl, hc⟩ : ∃ c cs', cs = c :: cs' ∧ Lexer.isWordStart c := by
    cases cs with
    | nil => cases hcs
    | cons c cs => exact ⟨c, cs, rfl, hcs⟩
  obtain ⟨w, r, hword, hw, hr⟩ := Lexer.exists_word cs hc
  -- the colon is passed over, and the word behind it is read to its end
  have hforth := h.takes_forth hrest
  obtain ⟨s', hrun, htakes, hlexer⟩ := run_forth (by decide) hforth.sound
    ((Scanner.rest_forth hrest).trans hword) (Bool.and_eq_true_iff.mp hw).2 hr
  have hline : s'.line = s.line := congrArg Lexer.line hlexer
  rw [Scanner.lexer, hrest, hword, ← List.cons_append, Lexer.read_parameter hw hr]
  refine ⟨_, s', ?_, hforth.trans htakes, hlexer⟩
  rw [parameter, bind_eq (change_eq s .forth), bind_eq hrun,
    bind_eq (line_eq s'), hline]
  rfl

/-! Numbers go on behind a point only where a digit follows it. -/

/-- There is no point with a digit behind it. -/
theorem fraction_of_apart (h : ∀ d tail, s.rest = '.' :: d :: tail → ¬ d.isDigit) :
    fraction s = some (false, s) := by
  -- a point at the end of the text has no digit behind it either
  have hno : ¬ (s.rest.head? = some '.' ∧ s.rest[1]?.any Char.isDigit) := by
    rintro ⟨hpoint, hdigit⟩
    obtain ⟨tail, htail⟩ := List.head?_eq_some_iff.mp hpoint
    cases tail with
    | nil =>
      rw [htail] at hdigit
      cases hdigit
    | cons d tail =>
      rw [htail] at hdigit
      exact h d tail htail hdigit
  rw [fraction, bind_eq (current_eq s), bind_eq (ahead_eq s 1), if_neg hno]
  rfl

/-- There is a point with digits behind it. -/
theorem fraction_of_isNumeral {digits r : List Char} (h : s.Sound)
    (hrest : s.rest = '.' :: (digits ++ r)) (hdigits : isNumeral digits)
    (hr : Clear Char.isDigit r) :
    ∃ s', fraction s = some (true, s') ∧ s.Takes ('.' :: digits) s' ∧
      s'.lexer = ⟨r, s.line⟩ := by
  have hforth := h.takes_forth hrest
  obtain ⟨s', hrun, htakes, hlexer⟩ := run_forth (by decide) hforth.sound
    (Scanner.rest_forth hrest) (Bool.and_eq_true_iff.mp hdigits).2 hr
  have hyes : s.rest.head? = some '.' ∧ s.rest[1]?.any Char.isDigit := by
    obtain ⟨d, tail, rfl, hd⟩ := exists_cons_of_isNumeral hdigits
    rw [hrest]
    exact ⟨rfl, hd⟩
  refine ⟨s', ?_, hforth.trans htakes, hlexer⟩
  rw [fraction, bind_eq (current_eq s), bind_eq (ahead_eq s 1), if_pos hyes,
    bind_eq (change_eq s .forth), bind_eq hrun]
  rfl

/-- The digits behind the point are counted from the first point on. -/
theorem value?_decimal {whole digits : List Char} (hw : isNumeral whole) (hd : isNumeral digits) :
    value? true (String.ofList (whole ++ '.' :: digits)) =
      (Decimal.ofDigits? whole digits).map .decimal := by
  have hnopoint : '.' ∉ whole := fun hmem => absurd ((isNumeral_iff.mp hw).2 _ hmem) (by decide)
  have hscale : (whole ++ '.' :: digits).length - ((whole ++ '.' :: digits).idxOf '.' + 1) =
      digits.length := by
    rw [List.idxOf_append, if_neg hnopoint, List.idxOf_cons_self, List.length_append,
      List.length_cons]
    omega
  rw [value?, if_pos rfl, String.toList_ofList, hscale]
  exact congrArg (Option.map Value.decimal) (Decimal.ofString?_filter_scale hw hd)

/-- **Numbers.** Those that have no value are cut out of the text for the error. -/
theorem reads_number (h : s.Sound) (hstart : s.start = s.position) (hrest : s.rest = c :: cs)
    (hc : c.isDigit) : Reads number s s.lexer.read := by
  rw [Scanner.lexer, hrest]
  obtain ⟨ds, r, hcs, hds, hr⟩ | ⟨whole, digits, r, hcs, hwhole, hdigits, hr⟩ :=
    Lexer.numeral_cases cs hc
  · -- a whole number: no point with a digit behind it follows
    obtain ⟨s', hrun, htakes, hlexer⟩ :=
      run_forth (by decide) h (hrest.trans hcs) (Bool.and_eq_true_iff.mp hds).2 hr.1
    have hline : s'.line = s.line := congrArg Lexer.line hlexer
    have hnopoint : '.' ∉ ds := fun hmem => absurd ((isNumeral_iff.mp hds).2 _ hmem) (by decide)
    have hfraction : fraction s' = some (false, s') := by
      refine fraction_of_apart fun d tail htail => hr.2 rfl hnopoint d tail ?_
      exact (congrArg Lexer.rest hlexer).symm.trans htail
    rw [Lexer.read_number hc (hcs ▸ Lexer.readNumber_integer hds hr)]
    refine ⟨ds, s', ?_, htakes, hlexer⟩
    rw [number, bind_eq hrun, bind_eq hfraction, bind_eq (text_eq hstart htakes),
      bind_eq (line_eq s'), hline, value?, String.toList_ofList]
    cases Lexer.integerValue? ds <;> rfl
  · -- a decimal: the digits stop at the point, and go on behind it
    have hclear : Clear Char.isDigit ('.' :: (digits ++ r)) := clear_cons.mpr (by decide)
    rw [List.append_assoc, List.cons_append] at hcs
    obtain ⟨s₁, hrun, htakes, hlexer₁⟩ :=
      run_forth (by decide) h (hrest.trans hcs) (Bool.and_eq_true_iff.mp hwhole).2 hclear
    obtain ⟨s', hfraction, htakes', hlexer⟩ :=
      fraction_of_isNumeral htakes.sound (congrArg Lexer.rest hlexer₁) hdigits hr
    have hline₁ : s₁.line = s.line := congrArg Lexer.line hlexer₁
    have hline : s'.line = s.line := (congrArg Lexer.line hlexer).trans hline₁
    have hnumber := Lexer.readNumber_decimal hwhole hdigits hr
    rw [List.append_assoc, List.cons_append, ← hcs] at hnumber
    rw [hline₁] at hlexer
    rw [Lexer.read_number hc hnumber]
    refine ⟨_, s', ?_, htakes.trans htakes', hlexer⟩
    rw [number, bind_eq hrun, bind_eq hfraction, bind_eq (text_eq hstart (htakes.trans htakes')),
      bind_eq (line_eq s'), hline, value?_decimal hwhole hdigits]
    cases Decimal.ofDigits? whole digits <;> rfl

/-! ### The next token -/

/-- What is read where neither a mark nor a string starts. -/
theorem tokenFrom_eq (hrest : s.rest = c :: cs) (hmark : marks c = none) (hquote : c ≠ '\'') :
    tokenFrom c s =
      (if c = ':' ∧ cs.head?.any Lexer.isWordStart then parameter
        else if c.isDigit then number
        else if Lexer.isWordStart c then word
        else do
          let n ← line
          pure (.error (.unexpectedCharacter c n))) s := by
  have hahead : s.rest[1]? = cs.head? := by
    rw [hrest, List.head?_eq_getElem?]
    rfl
  unfold tokenFrom
  simp only [hmark, if_neg hquote]
  rw [bind_eq (ahead_eq s 1), hahead]

/-- **The token at the position** is that of the lexer. The lexer asks for the classes of tokens in
another order, but no two of them have a first character in common. -/
theorem reads_tokenFrom (h : s.Sound) (hstart : s.start = s.position) (hrest : s.rest = c :: cs) :
    Reads (tokenFrom c) s s.lexer.read := by
  cases hmark : marks c with
  | some m => exact reads_mark h hstart hrest hmark
  | none =>
    by_cases hquote : c = '\''
    · subst hquote
      exact reads_quoted h hstart hrest
    rw [Reads, tokenFrom_eq hrest hmark hquote]
    by_cases hcolon : c = ':' ∧ cs.head?.any Lexer.isWordStart
    · rw [if_pos hcolon]
      obtain ⟨rfl, hcs⟩ := hcolon
      exact reads_parameter h hrest hcs
    by_cases hdigit : c.isDigit
    · rw [if_neg hcolon, if_pos hdigit]
      exact reads_number h hstart hrest hdigit
    by_cases hword : Lexer.isWordStart c
    · rw [if_neg hcolon, if_neg hdigit, if_pos hword]
      exact reads_word h hrest hword
    rw [if_neg hcolon, if_neg hdigit, if_neg hword]
    have hsymbol := symbol?_cons c cs
    rw [hmark, Option.map_none] at hsymbol
    have hcolon' : ¬ (c = ':' && cs.head?.any Lexer.isWordStart) = true := by simpa using hcolon
    -- no token starts with this character, and nothing is taken
    have hlexer : s.lexer.read = (.error (.unexpectedCharacter c s.line), s.lexer) := by
      simp only [Scanner.lexer, hrest, Lexer.read, if_neg hquote, if_neg hdigit, if_neg hword,
        if_neg hcolon', hsymbol]
    rw [hlexer]
    exact ⟨[], s, rfl, h.takes_nil, rfl⟩

/-- At the end of the text there is the end marker. -/
theorem reads_read (h : s.Sound) (hstart : s.start = s.position) : Reads read s s.lexer.read := by
  cases hrest : s.rest with
  | nil =>
    refine ⟨[], s, ?_, h.takes_nil, ?_⟩
    · rw [read, bind_eq (current_eq s), Scanner.lexer, hrest]
      rfl
    · rw [Scanner.lexer, hrest]
      rfl
  | cons c cs =>
    obtain ⟨x, s', htoken, htakes, hlexer⟩ := reads_tokenFrom h hstart hrest
    refine ⟨x, s', ?_, htakes, hlexer⟩
    rw [read, bind_eq (current_eq s), ← htoken, hrest]
    rfl

/-- **The next token** is that of the lexer, and starts behind the blanks. -/
theorem next_eq (h : s.Sound) :
    ∃ s', next s = some (s.lexer.next.1, s') ∧ s'.lexer = s.lexer.next.2 ∧ s.Reaches s' ∧
      s'.start = s.position + (s.rest.takeWhile Lexer.isSeparator).length := by
  obtain ⟨s₁, hrun, hblanks, hleft, hline⟩ := run_eq (stepsOver_onward Lexer.isSeparator) h
  have hbegin := hblanks.sound.reaches_begin
  -- that a token starts here is nothing that the lexer knows of
  have hskip : s₁.begin.lexer = s.lexer.skipBlanks := by
    change (⟨s₁.rest, s₁.line⟩ : Lexer) = _
    rw [hleft, hline]
    rfl
  obtain ⟨x, s', hread, htakes, hlexer⟩ := reads_read hbegin.sound rfl
  rw [hskip] at hread hlexer
  refine ⟨s', ?_, hlexer, (hblanks.toReaches.trans hbegin).trans htakes.toReaches, ?_⟩
  · rw [next, bind_eq hrun, bind_eq (change_eq s₁ .begin), hread]
    rfl
  · rw [htakes.start_eq]
    exact hblanks.position_eq

end Scanning

end WhereClause
