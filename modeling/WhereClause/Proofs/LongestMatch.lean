import WhereClause.Proofs.Spelling

/-!
# Longest matches

The lexer loses nothing of a text and takes of it, token by token, as much as the lexical grammar
allows. `IsSpelling` is that grammar with the kinds and values of tokens left out: punctuation and
operators, words, words behind a colon, digits with or without a point and further digits, and
quoted text without a quote in it. A number may have any number of digits here, so a spelling that
no token has the value for still counts when the longest one is looked for.

Two spellings at the front of one text need not be compared class by class. Reading goes past every
spelling that the text starts with (`Lexer.length_rest_read_le`), and where reading succeeds it
stops right behind the token it has read, so no spelling is longer than the token.

* `IsSpelling` — the lexical grammar;
* `Lexer.length_rest_read_le` — what is read is at least as long as any spelling at the front;
* `Placed` — what is known of a token at its place in a text;
* `LaidOut.line_eq` — the lines of tokens add up over the text in front of them.
-/

namespace WhereClause

/-! ### The lexical grammar -/

/-- **The spellings of tokens**, whatever their values. -/
inductive IsSpelling : List Char → Prop
  | symbol {k : Kind} {s : String} :
      k.keyword? = none → k.spelling? = some s → IsSpelling s.toList
  | word {w : List Char} : isWord w → IsSpelling w
  | parameter {w : List Char} : isWord w → IsSpelling (':' :: w)
  | string {body : List Char} : '\'' ∉ body → IsSpelling ('\'' :: body ++ ['\''])
  | integer {ds : List Char} : isNumeral ds → IsSpelling ds
  | decimal {whole fraction : List Char} :
      isNumeral whole → isNumeral fraction → IsSpelling (whole ++ '.' :: fraction)

/-- What spells a token is one of the spellings. -/
theorem Spells.isSpelling {t : Token} {x : List Char} (h : Spells t x) : IsSpelling x := by
  cases h with
  | @fixed k s _ hs =>
    cases hk : k.keyword? with
    | none => exact .symbol hk hs
    | some s' =>
      -- a keyword is spelled as a word
      obtain rfl : s' = s := by cases k <;> cases hk <;> cases hs <;> rfl
      exact .word (Kind.ofKeyword?_of_keyword? hk).1
  | identifier hw _ => exact .word hw
  | parameter hw => exact .parameter hw
  | string hbody => exact .string hbody
  | integer hds _ => exact .integer hds
  | decimal hwhole hfraction _ => exact .decimal hwhole hfraction

/-! ### Reading past spellings -/

/-- A word with more characters of words behind it is a word. -/
theorem isWord_append {w z : List Char} (hw : isWord w) (hz : z.all Lexer.isWordPart) :
    isWord (w ++ z) := by
  obtain ⟨c, cs, rfl, -⟩ := exists_cons_of_isWord hw
  obtain ⟨hc, hcs⟩ := isWord_cons.mp hw
  rw [List.cons_append]
  exact isWord_cons.mpr ⟨hc, by rw [List.all_append, hcs, hz, Bool.and_self]⟩

/-- Digits with more digits behind them are digits. -/
theorem isNumeral_append {ds z : List Char} (hds : isNumeral ds) (hz : z.all Char.isDigit) :
    isNumeral (ds ++ z) := by
  obtain ⟨c, cs, rfl, -⟩ := exists_cons_of_isNumeral hds
  obtain ⟨hc, hcs⟩ := isNumeral_cons.mp hds
  rw [List.cons_append]
  exact isNumeral_cons.mpr ⟨hc, by rw [List.all_append, hcs, hz, Bool.and_self]⟩

namespace Lexer

/-- A symbol with a character behind it that prolongs it is the beginning of a longer symbol. -/
theorem symbol?_of_prolongs {k : Kind} {s : String} {c : Char} (hk : k.keyword? = none)
    (hs : k.spelling? = some s) (hc : k.prolongs c) (r : List Char) :
    ∃ k' s', symbol? (s.toList ++ c :: r) = some (k', s', r) := by
  cases k <;> cases hk <;> cases hs
  case dot =>
    obtain rfl := eq_of_beq hc
    exact ⟨.dotDot, _, rfl⟩
  case greater =>
    obtain rfl := eq_of_beq hc
    exact ⟨.greaterEqual, _, rfl⟩
  case less =>
    rcases Bool.or_eq_true_iff.mp hc with hc | hc
    · obtain rfl := eq_of_beq hc
      exact ⟨.lessEqual, _, rfl⟩
    · obtain rfl := eq_of_beq hc
      exact ⟨.different, _, rfl⟩
  -- nothing prolongs the others
  all_goals exact absurd hc Bool.false_ne_true

/-- The symbol that is found is the one at the front or a longer one. -/
theorem exists_symbol? {k : Kind} {s : String} (hk : k.keyword? = none)
    (hs : k.spelling? = some s) (r : List Char) :
    ∃ k' s' r', symbol? (s.toList ++ r) = some (k', s', r') ∧ r'.length ≤ r.length := by
  by_cases hr : Clear k.prolongs r
  · exact ⟨k, s, r, symbol?_of_spelling hk hs hr, Nat.le_refl _⟩
  · cases r with
    | nil => exact absurd clear_nil hr
    | cons c r =>
      have hc : k.prolongs c := Decidable.of_not_not fun hc => hr (clear_cons.mpr hc)
      obtain ⟨k', s', hsymbol⟩ := symbol?_of_prolongs hk hs hc r
      exact ⟨k', s', r, hsymbol, Nat.le_succ _⟩

/-- Whether the value of a number is in range or not, the lexer goes on behind its digits. -/
theorem rest_read_of_isDigit {c : Char} (cs : List Char) (hc : c.isDigit) (n : Nat) :
    (⟨c :: cs, n⟩ : Lexer).read.2.rest = (readNumber (c :: cs)).2.2 := by
  rcases hnumber : readNumber (c :: cs) with ⟨w, v, r⟩
  rw [read_number hc hnumber]

/-- **Reading goes past every spelling at the front**, and maybe further. -/
theorem length_rest_read_le {y : List Char} (h : IsSpelling y) (r : List Char) (n : Nat) :
    (⟨y ++ r, n⟩ : Lexer).read.2.rest.length ≤ r.length := by
  cases h with
  | symbol hk hs =>
    obtain ⟨k', s', r', hsymbol, hlength⟩ := exists_symbol? hk hs r
    rw [read_symbol hsymbol]
    exact hlength
  | word hw =>
    -- the word that is read is prolonged by the word characters in front of the rest
    obtain ⟨z, r', rfl, hz, hr'⟩ := exists_run isWordPart r
    rw [← List.append_assoc, read_word (isWord_append hw hz) hr', List.length_append]
    exact Nat.le_add_left _ _
  | @parameter w hw =>
    obtain ⟨z, r', rfl, hz, hr'⟩ := exists_run isWordPart r
    have happend : ':' :: w ++ (z ++ r') = ':' :: (w ++ z) ++ r' := by simp
    rw [happend, read_parameter (isWord_append hw hz) hr', List.length_append]
    exact Nat.le_add_left _ _
  | @string body hbody =>
    -- nothing prolongs a string
    have happend : '\'' :: body ++ ['\''] ++ r = '\'' :: body ++ '\'' :: r := by simp
    exact Nat.le_of_eq (by rw [happend, read_string hbody])
  | @integer ds hds =>
    -- a point and further digits may still belong to the number
    obtain ⟨c, cs, rfl, hc⟩ := exists_cons_of_isNumeral hds
    have hall : ∀ d ∈ c :: cs, d.isDigit := (isNumeral_iff.mp hds).2
    rw [List.cons_append, rest_read_of_isDigit _ hc, ← List.cons_append]
    refine Nat.le_trans (length_readNumber_le _) ?_
    rw [List.dropWhile_append_of_pos hall]
    exact (List.dropWhile_suffix _).length_le
  | @decimal whole fraction hwhole hfraction =>
    obtain ⟨z, r', rfl, hz, hr'⟩ := exists_run Char.isDigit r
    have hnumber := readNumber_decimal hwhole (isNumeral_append hfraction hz) hr'
    have happend : whole ++ '.' :: fraction ++ (z ++ r') =
        whole ++ '.' :: (fraction ++ z) ++ r' := by simp
    obtain ⟨c, cs, rfl, hc⟩ := exists_cons_of_isNumeral hwhole
    rw [happend]
    simp only [List.cons_append] at hnumber ⊢
    rw [rest_read_of_isDigit _ hc, hnumber, List.length_append]
    exact Nat.le_add_left _ _

end Lexer

/-! ### Tokens at their places -/

/-- **The longest spelling** that a text starts with. -/
structure IsLongestSpelling (x cs : List Char) : Prop where
  isSpelling : IsSpelling x
  isPrefix : x <+: cs
  length_le : ∀ y, IsSpelling y → y <+: cs → y.length ≤ x.length

/-- **A token is the longest match** wherever the text behind it does not prolong it. -/
theorem Spells.isLongestSpelling {t : Token} {x r : List Char} (h : Spells t x)
    (hr : Apart t.kind x r) : IsLongestSpelling x (x ++ r) where
  isSpelling := h.isSpelling
  isPrefix := List.prefix_append x r
  length_le := by
    rintro y hy ⟨r', hr'⟩
    -- the token is read from the text, and so is at least all of `y`
    have hle := Lexer.length_rest_read_le hy r' 1
    rw [hr', Lexer.read_of_spells h hr] at hle
    have hlength := congrArg List.length hr'
    rw [List.length_append, List.length_append] at hlength
    dsimp only at hle
    omega

/-- **A token at its place**, with the text `before` in front of it and the text `after` behind. -/
structure Placed (before : List Char) (t : Token) (after : List Char) : Prop where
  kind_ne_eof : t.kind ≠ .eof
  /-- Its kind and its value are those that its text stands for. -/
  spells : Spells t t.source
  /-- Its text could not be longer. -/
  longest : IsLongestSpelling t.source (t.source ++ after)
  /-- Its line is counted from one at the start of the text. -/
  line_eq : t.line = 1 + before.count '\n'
  /-- Strings and numbers have values, and no other tokens have. -/
  literal_iff : t.literal.isSome ↔ t.kind = .string ∨ t.kind = .number
  /-- The value of a string is what stands between its quotes. -/
  string_value : t.kind = .string →
    ∃ v : String, t.lexeme.toList = '\'' :: v.toList ++ ['\''] ∧ t.literal = some (.string v)

/-- Only strings and numbers have values. -/
theorem Spells.literal_iff {t : Token} {x : List Char} (h : Spells t x) :
    t.literal.isSome ↔ t.kind = .string ∨ t.kind = .number := by
  cases h with
  | @fixed k s _ hs => cases k <;> cases hs <;> simp
  | _ => simp

/-- The value of a string is its text without the quotes. -/
theorem Spells.string_value {t : Token} {x : List Char} (h : Spells t x) (ht : t.kind = .string) :
    ∃ v : String, t.lexeme.toList = '\'' :: v.toList ++ ['\''] ∧ t.literal = some (.string v) := by
  cases h with
  | @fixed k s _ hs =>
    obtain rfl : k = .string := ht
    cases hs
  | @string body _ _ => exact ⟨String.ofList body, by simp, rfl⟩
  | _ => cases ht

/-- There are only blanks behind the last token. -/
theorem LaidOut.last_blank {last : List Char} {n : Nat} {items : List (List Char × Token)}
    (h : LaidOut last n items) : last.all Lexer.isSeparator := by
  induction items generalizing n with
  | nil => exact h
  | cons item items ih => exact ih h.2.2.2.2

/-- **Lines add up** over the tokens in front: a token is as many lines down as there are ends of
lines before it. -/
theorem LaidOut.line_eq {last w : List Char} {n : Nat} {t : Token}
    {before after : List (List Char × Token)} (h : LaidOut last n (before ++ (w, t) :: after)) :
    w.all Lexer.isSeparator ∧ Spells t t.source ∧ Apart t.kind t.source (laid last after) ∧
      t.line = n + (laid w before).count '\n' := by
  induction before generalizing n with
  | nil =>
    obtain ⟨hw, hspells, hapart, hline, -⟩ := h
    exact ⟨hw, hspells, hapart, hline⟩
  | cons item before ih =>
    obtain ⟨w', t'⟩ := item
    obtain ⟨-, -, -, hline', hrest⟩ := h
    obtain ⟨hw, hspells, hapart, hline⟩ := ih hrest
    refine ⟨hw, hspells, hapart, ?_⟩
    -- the ends of lines in front of the first token, in it, and behind it
    rw [hline, hline', laid, List.count_append, List.count_append]
    omega

/-- **Nothing of a text is lost.** The tokens of a text, the end marker apart, make up the text
together with the blanks between them. Each is at its place: it is the longest match there, has the
kind and the value of what it was read from, and names the line where it starts. The end marker
names the line where the text ends. -/
theorem exists_layout_of_scan {s : String} {ts : List Token} (h : scan s = .ok ts) :
    ∃ items last,
      ts = items.map Prod.snd ++ [Token.eof (1 + s.toList.count '\n')] ∧
      s.toList = laid last items ∧ last.all Lexer.isSeparator ∧
      ∀ before w t after, items = before ++ (w, t) :: after →
        w.all Lexer.isSeparator ∧ Placed (laid w before) t (laid last after) := by
  obtain ⟨items, last, hs, hlaidOut, hts⟩ := Lexer.exists_laidOut_of_tokens h
  refine ⟨items, last, hts, hs, hlaidOut.last_blank, ?_⟩
  rintro before w t after rfl
  obtain ⟨hw, hspells, hapart, hline⟩ := hlaidOut.line_eq
  exact ⟨hw, hspells.kind_ne_eof, hspells, hspells.isLongestSpelling hapart, hline,
    hspells.literal_iff, hspells.string_value⟩

/-- A text with a string over two lines, and with two points behind a number. -/
def linesExample : String :=
  "is\n'x\ny' <=01..:p\r\n"

/-- The tokens of `linesExample`. -/
def linesExampleTokens : List Token :=
  [⟨.kwIs, "is", none, 1⟩, ⟨.string, "'x\ny'", some (.string "x\ny"), 2⟩,
    ⟨.lessEqual, "<=", none, 3⟩, ⟨.number, "01", some (.integer 1), 3⟩, ⟨.dotDot, "..", none, 3⟩,
    ⟨.parameter, "p", none, 3⟩, Token.eof 4]

/-- Every end of a line counts, also that in a string and those in the blanks at the end. -/
theorem exists_layout_of_scan_linesExample :
    scan linesExample = .ok linesExampleTokens ∧
      ∃ items last,
        linesExampleTokens =
          items.map Prod.snd ++ [Token.eof (1 + linesExample.toList.count '\n')] ∧
        linesExample.toList = laid last items ∧ last.all Lexer.isSeparator ∧
        ∀ before w t after, items = before ++ (w, t) :: after →
          w.all Lexer.isSeparator ∧ Placed (laid w before) t (laid last after) := by
  have hscan : scan linesExample = .ok linesExampleTokens := eq_ok_of_toOption (by decide +kernel)
  exact ⟨hscan, exists_layout_of_scan hscan⟩

end WhereClause
