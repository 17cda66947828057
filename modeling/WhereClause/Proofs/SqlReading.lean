import WhereClause.Proofs.Rendering
import WhereClause.Proofs.Spelling

/-!
# Reading SQL text back

The SQL text of an expression is spelled with tokens of the language, apart from two things: a
parameter is written as a placeholder in braces, and a range `x in a .. b` is written as `x between
a and b`. The first is a matter of spelling, and spelling is unambiguous (`Sql.spelled_unique`). The
second takes a look at the context, since `and` is a logical operator as well. `Sql.resolve` decides
it with a flag for each open parenthesis: the flag is raised by `between` and lowered by the next
`and` at the same depth, which is the one that belongs to it.

The text of an expression is then put together from pieces. A `Piece` is a stretch of text that
spells SQL tokens which resolve to given bare tokens, taking the flags from one state to another.
Pieces compose (`Piece.append`), and each mark, sign and operator that is written is a piece.

* `Sql.Spells` — the spelling of tokens in SQL text;
* `Sql.spelled_unique` — an SQL text is spelled by one list of tokens only, up to lines;
* `Sql.resolve` — the tokens of the language that a list of SQL tokens stands for;
* `Sql.Piece` — stretches of SQL text, with what they stand for.
-/

namespace WhereClause

/-- **The two ways to take a spelled text apart**, or its end. -/
theorem Spelled.inv {S : Token → List Char → Prop} {ts : List Token} {x : List Char}
    (h : Spelled S ts x) :
    (ts = [] ∧ x = []) ∨
      (∃ c x', x = c :: x' ∧ Lexer.isSeparator c ∧ Spelled S ts x') ∨
      ∃ t ts' y r, ts = t :: ts' ∧ x = y ++ r ∧ S t y ∧ Apart t.kind y r ∧ Spelled S ts' r := by
  cases h with
  | nil => exact .inl ⟨rfl, rfl⟩
  | blank hc h => exact .inr (.inl ⟨_, _, rfl, hc, h⟩)
  | token ht hr h => exact .inr (.inr ⟨_, _, _, _, rfl, rfl, ht, hr, h⟩)

namespace Sql

/-! ### Spelling -/

/-- **The spelling of tokens in SQL text.** A parameter stands in braces behind a dollar sign. -/
inductive Spells : Token → List Char → Prop
  | plain {t : Token} {x : List Char} : WhereClause.Spells t x → Spells t x
  | placeholder {w : List Char} {line : Nat} :
      isWord w → Spells ⟨.parameter, String.ofList w, none, line⟩ ('$' :: '\x7b' :: w ++ ['\x7d'])

/-- A spelling starts with a visible character. -/
theorem Spells.starts {t : Token} {x : List Char} (h : Spells t x) :
    ∃ c cs, x = c :: cs ∧ isGraphic c := by
  cases h with
  | plain h => exact h.starts
  | placeholder _ => exact ⟨_, _, rfl, by decide⟩

/-- No token of the language starts with a dollar sign. -/
theorem not_spells_dollar {t : Token} {x r cs : List Char} (h : WhereClause.Spells t x)
    (hr : Apart t.kind x r) : x ++ r ≠ '$' :: cs := by
  intro heq
  -- the lexer would read the token, but it refuses the dollar sign
  have hread := Lexer.read_of_spells h hr 1
  rw [heq] at hread
  cases hread

/-- **One token at a time.** What stands at the front of a text determines the token and the rest.
-/
theorem Spells.unique {t t' : Token} {x x' r r' : List Char} (h : Spells t x)
    (hr : Apart t.kind x r) (h' : Spells t' x') (hr' : Apart t'.kind x' r')
    (heq : x ++ r = x' ++ r') : t.atLine 1 = t'.atLine 1 ∧ r = r' := by
  cases h with
  | plain h =>
    cases h' with
    | plain h' =>
      -- both are what the lexer reads there
      have hread := Lexer.read_of_spells h hr 1
      rw [heq, Lexer.read_of_spells h' hr' 1] at hread
      obtain ⟨ht, hrest⟩ := Prod.mk.inj hread
      exact ⟨(Except.ok.inj ht).symm, (Lexer.mk.inj hrest).1.symm⟩
    | placeholder _ => exact absurd heq (not_spells_dollar h hr)
  | @placeholder w _ hw =>
    cases h' with
    | plain h' => exact absurd heq.symm (not_spells_dollar h' hr')
    | @placeholder w' _ hw' =>
      -- both names end where the brace is
      have hall : w.all Lexer.isWordPart := (Bool.and_eq_true_iff.mp hw).2
      have hall' : w'.all Lexer.isWordPart := (Bool.and_eq_true_iff.mp hw').2
      have hbrace : ∀ y, Clear Lexer.isWordPart ('\x7d' :: y) :=
        fun y => clear_cons.mpr (by decide)
      have hname : w ++ '\x7d' :: r = w' ++ '\x7d' :: r' := by simpa using heq
      have hw := takeWhile_append_clear hall (hbrace r)
      rw [hname, takeWhile_append_clear hall' (hbrace r')] at hw
      have hrest := dropWhile_append_clear hall (hbrace r)
      rw [hname, dropWhile_append_clear hall' (hbrace r')] at hrest
      rw [hw]
      exact ⟨rfl, (List.cons.inj hrest).2.symm⟩

/-- **The spelling of SQL text is unambiguous**: its tokens are determined up to lines. -/
theorem spelled_unique {ts ts' : List Token} {x : List Char} (h : Spelled Spells ts x)
    (h' : Spelled Spells ts' x) : ts.map (·.atLine 1) = ts'.map (·.atLine 1) := by
  -- Both readings are taken apart from the front. Where one has a blank the other cannot have a
  -- token, and where both have a token it is the same with the same rest.
  induction h generalizing ts' with
  | nil =>
    obtain ⟨rfl, -⟩ | ⟨c, x', hx, -⟩ | ⟨t, ts', y, r, -, hx, ht, -⟩ := h'.inv
    · rfl
    · cases hx
    · obtain ⟨c, cs, rfl, -⟩ := ht.starts
      cases hx
  | @blank c ts x hc _ ih =>
    obtain ⟨-, hx⟩ | ⟨c', x', hx, -, h'⟩ | ⟨t, ts', y, r, -, hx, ht, -⟩ := h'.inv
    · cases hx
    · cases hx
      exact ih h'
    · obtain ⟨c', cs, rfl, hgraphic⟩ := ht.starts
      cases hx
      exact absurd hc (not_isSeparator_of_isGraphic hgraphic)
  | @token t ts x r ht hr _ ih =>
    obtain ⟨-, hx⟩ | ⟨c', x', hx, hc, -⟩ | ⟨t', ts', y, r', rfl, hx, ht', hr', h'⟩ := h'.inv
    · obtain ⟨c, cs, rfl, -⟩ := ht.starts
      cases hx
    · obtain ⟨c, cs, rfl, hgraphic⟩ := ht.starts
      cases hx
      exact absurd hc (not_isSeparator_of_isGraphic hgraphic)
    · obtain ⟨htoken, rfl⟩ := ht.unique hr ht' hr' hx
      rw [List.map_cons, List.map_cons, htoken, ih h']

/-! ### Ranges -/

/-- **The tokens of the language that SQL tokens stand for.** The list holds a flag for each depth
of parentheses, the innermost first: whether a `between` still waits for its `and` there. -/
def resolve : List Bool → List Token → List Token
  | _, [] => []
  | flags, t :: ts =>
    match t.kind with
    | .leftParen => t :: resolve (false :: flags) ts
    | .rightParen => t :: resolve flags.tail ts
    | .kwBetween => Token.ofKind .kwIn "" :: resolve (true :: flags.tail) ts
    | .kwAnd =>
      if flags.head? = some true then
        Token.ofKind .dotDot ".." :: resolve (false :: flags.tail) ts
      else t :: resolve flags ts
    | _ => t :: resolve flags ts

/-- The kinds that `resolve` looks at. -/
def isWatched (k : Kind) : Bool :=
  k == .leftParen || k == .rightParen || k == .kwBetween || k == .kwAnd

section Resolve

variable {t : Token} {flags : List Bool} {b : Bool}

/-- All kinds that are not watched stand for themselves. -/
theorem resolve_cons (h : ¬ isWatched t.kind) (ts : List Token) :
    resolve flags (t :: ts) = t :: resolve flags ts := by
  rw [resolve]
  cases hk : t.kind <;> simp_all [isWatched]

theorem resolve_leftParen (h : t.kind = .leftParen) (ts : List Token) :
    resolve flags (t :: ts) = t :: resolve (false :: flags) ts := by
  rw [resolve, h]

theorem resolve_rightParen (h : t.kind = .rightParen) (ts : List Token) :
    resolve (b :: flags) (t :: ts) = t :: resolve flags ts := by
  rw [resolve, h]
  rfl

/-- A `between` stands for `in`, and raises the flag. -/
theorem resolve_between (h : t.kind = .kwBetween) (ts : List Token) :
    resolve (b :: flags) (t :: ts) = Token.ofKind .kwIn "" :: resolve (true :: flags) ts := by
  rw [resolve, h]
  rfl

/-- With the flag down, `and` stands for itself. -/
theorem resolve_and (h : t.kind = .kwAnd) (ts : List Token) :
    resolve (false :: flags) (t :: ts) = t :: resolve (false :: flags) ts := by
  rw [resolve, h]
  rfl

/-- With the flag up, `and` stands for the dots of a range, and lowers it. -/
theorem resolve_and_of_raised (h : t.kind = .kwAnd) (ts : List Token) :
    resolve (true :: flags) (t :: ts) =
      Token.ofKind .dotDot ".." :: resolve (false :: flags) ts := by
  rw [resolve, h]
  rfl

/-- Lines make no difference to what tokens stand for. -/
theorem resolve_map_atLine (n : Nat) (flags : List Bool) (ts : List Token) :
    (resolve flags (ts.map (·.atLine n))).map Token.bare = (resolve flags ts).map Token.bare := by
  induction ts generalizing flags with
  | nil => rfl
  | cons t ts ih =>
    rw [List.map_cons, resolve, resolve, Token.kind_atLine]
    -- only the kind of a token decides what is put in for it, and no line does
    split
    · simp [ih]
    · simp [ih]
    · simp [ih]
    · split <;> simp [ih]
    · simp [ih]

/-- **Without ranges there is nothing to resolve.** -/
theorem resolve_eq_self {ts : List Token} (hts : ∀ t ∈ ts, t.kind ≠ .kwBetween)
    (hflags : true ∉ flags) : resolve flags ts = ts := by
  induction ts generalizing flags with
  | nil => rfl
  | cons t ts ih =>
    have ht : t.kind ≠ .kwBetween := hts t (by simp)
    have hts : ∀ t ∈ ts, t.kind ≠ .kwBetween := fun t ht => hts t (by simp [ht])
    rw [resolve]
    split
    · rw [ih hts (by simp [hflags])]
    · rw [ih hts fun h => hflags (List.mem_of_mem_tail h)]
    · next hk => exact absurd hk ht
    · -- no flag is raised, so this `and` is a logical one
      have hhead : flags.head? ≠ some true := fun h => hflags (List.mem_of_mem_head? h)
      rw [if_neg hhead, ih hts hflags]
    · rw [ih hts hflags]

end Resolve

/-! ### Pieces of SQL text -/

/-- How many tokens of a kind there are. -/
def countKind (k : Kind) (ts : List Token) : Nat :=
  ts.countP fun t => t.kind == k

/-- **A piece of SQL text.** In front of any text that does not start with a character of the class
`p`, the characters `x` spell the tokens `S`; these stand for the bare tokens `B` and take the flags
from `flags` to `flags'`. Every `between` makes one range, now or as soon as its flag is lowered. -/
structure Piece (flags flags' : List Bool) (B S : List Token) (x : List Char)
    (p : Char → Bool) : Prop where
  spelled : ∀ {S' y}, Clear p y → Spelled Spells S' y → Spelled Spells (S ++ S') (x ++ y)
  resolved : ∀ S', (resolve flags (S ++ S')).map Token.bare =
    B ++ (resolve flags' S').map Token.bare
  ranges : countKind .kwBetween S + flags.count true = countKind .dotDot B + flags'.count true

/-- No character is in this class, so any text may follow. -/
def noChar (_ : Char) : Bool :=
  false

/-- The characters that stand behind expressions where these are written. -/
def expressionEnds : List Char := [' ', ',', ')']

/-- The characters that cannot stand right behind an expression. -/
def notEnd (c : Char) : Bool :=
  !(expressionEnds.contains c)

@[simp] theorem clear_noChar (y : List Char) : Clear noChar y :=
  fun _ _ => Bool.false_ne_true

/-- Behind an expression, whatever token it ends with is not prolonged. -/
theorem apart_of_clear_notEnd {k : Kind} {x y : List Char} (h : Clear notEnd y) : Apart k x y := by
  -- none of the three characters prolongs any kind of token
  have hall : expressionEnds.all (fun c => !k.prolongs c && c != '.') := by cases k <;> rfl
  cases y with
  | nil => exact ⟨clear_nil, fun _ _ _ _ hnil => nomatch hnil⟩
  | cons c y =>
    have hc : c ∈ expressionEnds := by
      simpa only [notEnd, clear_cons, Bool.not_eq_true', Bool.not_eq_false, List.contains_iff_mem]
        using h
    have hend := List.all_eq_true.mp hall c hc
    simp only [Bool.and_eq_true, Bool.not_eq_true', bne_iff_ne] at hend
    refine ⟨clear_cons.mpr (by simp [hend.1]), fun _ _ d tail hpoint => ?_⟩
    exact absurd (List.cons.inj hpoint).1 hend.2

namespace Piece

variable {flags flags' flags'' : List Bool} {B B' S S' : List Token} {x x' : List Char}
  {p p' : Char → Bool} {t u : Token}

/-- **Pieces compose**, if the second does not start with a character that prolongs the first. -/
theorem append (h : Piece flags flags' B S x p) (h' : Piece flags' flags'' B' S' x' p')
    (hclear : ∀ y, Clear p' y → Clear p (x' ++ y)) :
    Piece flags flags'' (B ++ B') (S ++ S') (x ++ x') p' where
  spelled := by
    intro S'' y hy hS''
    rw [List.append_assoc, List.append_assoc]
    exact h.spelled (hclear y hy) (h'.spelled hy hS'')
  resolved := by
    intro S''
    rw [List.append_assoc, h.resolved, h'.resolved, List.append_assoc]
  ranges := by
    -- the flags between the two pieces are counted on both sides
    have hranges := h.ranges
    have hranges' := h'.ranges
    simp only [countKind, List.countP_append] at hranges hranges' ⊢
    omega

/-- Anything may follow the first piece. -/
theorem andThen (h : Piece flags flags' B S x noChar) (h' : Piece flags' flags'' B' S' x' p') :
    Piece flags flags'' (B ++ B') (S ++ S') (x ++ x') p' :=
  h.append h' fun _ _ => clear_noChar _

/-- The second piece starts with a character that may stand behind the first one. -/
theorem followed {c : Char} (h : Piece flags flags' B S x p)
    (h' : Piece flags' flags'' B' S' (c :: x') p') (hc : ¬ p c) :
    Piece flags flags'' (B ++ B') (S ++ S') (x ++ c :: x') p' :=
  h.append h' fun _ _ => clear_cons.mpr hc

theorem congr (h : Piece flags flags' B S x p) (hB : B = B') (hx : x = x') :
    Piece flags flags' B' S x' p :=
  hB ▸ hx ▸ h

/-- The piece may be asked to stand in front of less. -/
theorem mono (h : Piece flags flags' B S x p) (hp : ∀ c, p c → p' c) :
    Piece flags flags' B S x p' where
  spelled := fun hy hS => h.spelled (fun c hc hpc => hy c hc (hp c hpc)) hS
  resolved := h.resolved
  ranges := h.ranges

/-- Nothing. -/
theorem nil : Piece flags flags [] [] [] noChar where
  spelled := fun _ h => h
  resolved := fun _ => rfl
  ranges := rfl

/-- A blank stands for no token. -/
theorem blank : Piece flags flags [] [] [' '] noChar where
  spelled := fun _ h => .blank (by decide) h
  resolved := fun _ => rfl
  ranges := rfl

/-- **A single token.** -/
theorem token (h : Spells t x) (hp : ∀ y, Clear p y → Apart t.kind x y)
    (hresolve : ∀ S', resolve flags (t :: S') = u :: resolve flags' S')
    (hranges : countKind .kwBetween [t] + flags.count true =
      countKind .dotDot [u] + flags'.count true) :
    Piece flags flags' [u.bare] [t] x p where
  spelled := fun hy h' => .token h (hp _ hy) h'
  resolved := fun S' => by
    rw [List.singleton_append, hresolve, List.map_cons]
    rfl
  ranges := hranges

/-- A token that stands for itself, wherever it is. -/
theorem unwatched (h : Spells t x) (hp : ∀ y, Clear p y → Apart t.kind x y)
    (ht : ¬ isWatched t.kind) (hrange : t.kind ≠ .dotDot) : Piece flags flags [t.bare] [t] x p := by
  have hbetween : t.kind ≠ .kwBetween := by
    rintro hk
    simp [isWatched, hk] at ht
  refine token h hp (resolve_cons ht) ?_
  simp [countKind, hbetween, hrange]

/-- A token that may end an expression, with blanks around it. -/
theorem spaced (h : Piece flags flags' B S x notEnd) :
    Piece flags flags' B S (' ' :: x ++ [' ']) noChar := by
  have hspaced := (blank.andThen h).followed blank (by decide)
  simpa using hspaced

/-! ### Marks, signs and operators -/

/-- Nothing prolongs a punctuation mark or a minus sign. -/
theorem apart_of_mark (ht : t.kind ∈ [.leftParen, .rightParen, .comma, .minus]) (y : List Char) :
    Apart t.kind x y := by
  obtain ⟨hnumber, hprolongs⟩ : t.kind ≠ .number ∧ t.kind.prolongs = noChar := by
    simp only [List.mem_cons, List.not_mem_nil, or_false] at ht
    rcases ht with hk | hk | hk | hk <;> rw [hk] <;> exact ⟨nofun, rfl⟩
  exact apart_of_clear hnumber (hprolongs ▸ clear_noChar y)

/-- An opening parenthesis adds a flag, which is down. -/
theorem opening (h : t.IsLexical) (ht : t.kind = .leftParen) :
    Piece flags (false :: flags) [t.bare] [t] ['('] noChar := by
  have hspells := (h.spells_of_spelling? (s := "(") (by rw [ht]; rfl)).1
  exact token (.plain hspells) (fun y _ => apart_of_mark (by simp [ht]) y) (resolve_leftParen ht)
    (by simp [countKind, ht])

/-- A closing parenthesis takes its flag away. -/
theorem closing (h : t.IsLexical) (ht : t.kind = .rightParen) :
    Piece (false :: flags) flags [t.bare] [t] [')'] noChar := by
  have hspells := (h.spells_of_spelling? (s := ")") (by rw [ht]; rfl)).1
  exact token (.plain hspells) (fun y _ => apart_of_mark (by simp [ht]) y) (resolve_rightParen ht)
    (by simp [countKind, ht])

/-- A comma is written with a blank behind it. -/
theorem comma (h : t.IsLexical) (ht : t.kind = .comma) :
    Piece flags flags [t.bare] [t] [',', ' '] noChar := by
  have hspells := (h.spells_of_spelling? (s := ",") (by rw [ht]; rfl)).1
  have hcomma : Piece flags flags [t.bare] [t] [','] noChar :=
    unwatched (.plain hspells) (fun y _ => apart_of_mark (by simp [ht]) y) (by simp [ht, isWatched])
      (by simp [ht])
  exact hcomma.andThen blank

/-- A sign, with the blank that belongs to it. -/
theorem sign {s : String} (h : t.IsLexical) (ht : t.kind.sqlUnary? = some s) :
    Piece flags flags [t.bare] [t] s.toList noChar := by
  have hkind : (t.kind = .minus ∧ s = "-") ∨ (t.kind = .kwNot ∧ s = "not ") := by
    cases hk : t.kind <;> rw [hk] at ht <;> cases ht <;> simp
  rcases hkind with ⟨hk, rfl⟩ | ⟨hk, rfl⟩
  · have hspells := (h.spells_of_spelling? (s := "-") (by rw [hk]; rfl)).1
    exact unwatched (.plain hspells) (fun y _ => apart_of_mark (by simp [hk]) y)
      (by simp [hk, isWatched]) (by simp [hk])
  · -- a word has to be kept apart from the next one by its blank
    have hspells := (h.spells_of_spelling? (s := "not") (by rw [hk]; rfl)).1
    have hnot : Piece flags flags [t.bare] [t] "not".toList notEnd :=
      unwatched (.plain hspells) (fun y hy => apart_of_clear_notEnd hy) (by simp [hk, isWatched])
        (by simp [hk])
    exact hnot.followed blank (by decide)

/-- The operand of a minus sign may have a blank in front. -/
theorem negated {a : String} (h : Piece flags flags' B S a.toList p) :
    Piece flags flags' B S (Sql.negated a).toList p := by
  unfold Sql.negated
  split
  · rw [String.toList_append]
    exact blank.andThen h
  · exact h

/-- An operator that is written as it is. No `between` may be open around it. -/
theorem operator {s : String} (h : t.IsLexical) (ht : t.kind.sqlBinary? = some s) :
    Piece (false :: flags) (false :: flags) [t.bare] [t] (' ' :: s.toList ++ [' ']) noChar := by
  have hspelling : t.kind.spelling? = some s := by
    cases hk : t.kind <;> rw [hk] at ht <;> cases ht <;> rfl
  have hspells := (h.spells_of_spelling? hspelling).1
  have hoperator : Piece (false :: flags) (false :: flags) [t.bare] [t] s.toList notEnd := by
    by_cases hand : t.kind = .kwAnd
    · -- with the flag down, `and` stands for itself
      exact token (.plain hspells) (fun y hy => apart_of_clear_notEnd hy) (resolve_and hand)
        (by simp [countKind, hand])
    · have hother : ¬ isWatched t.kind ∧ t.kind ≠ .dotDot := by
        cases hk : t.kind <;> rw [hk] at ht hand <;> cases ht <;> simp_all [isWatched]
      exact unwatched (.plain hspells) (fun y hy => apart_of_clear_notEnd hy) hother.1 hother.2
  exact hoperator.spaced

/-- The word in front of a list of members. -/
theorem membership :
    Piece flags flags [Token.ofKind .kwIn ""] [Token.ofKind .kwIn ""] " in ".toList noChar := by
  have hin : Piece flags flags [Token.ofKind .kwIn ""] [Token.ofKind .kwIn ""] "in".toList notEnd :=
    unwatched (.plain (.fixed rfl)) (fun y hy => apart_of_clear_notEnd hy) (by decide) (by decide)
  exact hin.spaced

/-- The word in front of a range raises the flag. -/
theorem between :
    Piece (false :: flags) (true :: flags) [Token.ofKind .kwIn ""] [Token.ofKind .kwBetween ""]
      " between ".toList noChar := by
  have hbetween : Piece (false :: flags) (true :: flags) [Token.ofKind .kwIn ""]
      [Token.ofKind .kwBetween ""] "between".toList notEnd :=
    token (.plain (.fixed rfl)) (fun y hy => apart_of_clear_notEnd hy) (resolve_between rfl)
      (by simp [countKind, Token.ofKind, Nat.add_comm])
  exact hbetween.spaced

/-- The word between the bounds of a range lowers the flag. -/
theorem upTo (h : t.IsLexical) (ht : t.kind = .dotDot) :
    Piece (true :: flags) (false :: flags) [t.bare] [Token.ofKind .kwAnd ""]
      " and ".toList noChar := by
  have hbare := (h.spells_of_spelling? (s := "..") (by rw [ht]; rfl)).2
  rw [ht] at hbare
  have hand : Piece (true :: flags) (false :: flags) [t.bare] [Token.ofKind .kwAnd ""]
      "and".toList notEnd := by
    rw [hbare]
    exact token (.plain (.fixed rfl)) (fun y hy => apart_of_clear_notEnd hy)
      (resolve_and_of_raised rfl) (by simp [countKind, Token.ofKind, Nat.add_comm])
  exact hand.spaced

/-! ### Names -/

/-- **A dotted name** goes on as long as there are letters, digits and underscores. -/
theorem name {ts : List Token} {name : String} (h : Named ts name)
    (hts : ∀ t ∈ ts, t.IsLexical) :
    Piece flags flags (ts.map Token.bare) ts name.toList Lexer.isWordPart := by
  -- a segment ends where the word does
  have hsegment : ∀ t : Token, t.IsLexical → t.kind = .identifier →
      Piece flags flags [t.bare] [t] t.lexeme.toList Lexer.isWordPart := by
    intro t hlexical ht
    refine unwatched (.plain (hlexical.spells_of_identifier ht).2.2) (fun y hy => ?_)
      (by simp [ht, isWatched]) (by simp [ht])
    rw [ht]
    exact apart_of_clear nofun hy
  induction h with
  | one ht => exact hsegment _ (hts _ (by simp)) ht
  | @more ts name dot t _ hdot ht ih =>
    have hspells := ((hts dot (by simp)).spells_of_spelling? (s := ".") (by rw [hdot]; rfl)).1
    have hpoint : Piece flags flags [dot.bare] [dot] ['.'] (· == '.') := by
      refine unwatched (.plain hspells) (fun y hy => ?_) (by simp [hdot, isWatched])
        (by simp [hdot])
      rw [hdot]
      exact apart_of_clear nofun hy
    have hclear : ∀ y, Clear (· == '.') (t.lexeme.toList ++ y) := by
      -- the segment starts with a letter or an underscore, so the point stays by itself
      intro y
      obtain ⟨c, cs, hlexeme, hc⟩ :=
        exists_cons_of_isWord ((hts t (by simp)).spells_of_identifier ht).1
      rw [hlexeme]
      refine clear_cons.mpr fun hpoint => ?_
      rw [eq_of_beq hpoint] at hc
      cases hc
    have hlast : Piece flags flags [dot.bare, t.bare] [dot, t] ('.' :: t.lexeme.toList)
        Lexer.isWordPart :=
      hpoint.append (hsegment t (hts t (by simp)) ht) fun y _ => hclear y
    -- a point is no part of a word, so the segment in front of it ends there
    have hall := (ih fun t ht => hts t (by simp [ht])).followed hlast (by decide)
    rw [List.map_append, String.toList_append, String.toList_append, List.append_assoc]
    exact hall

end Piece

end Sql

end WhereClause
