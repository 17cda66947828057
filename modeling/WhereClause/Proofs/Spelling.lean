import WhereClause.Proofs.Lines
import WhereClause.Proofs.Numerals
import WhereClause.Text.Blank
import WhereClause.Token.Lexer

/-!
# How tokens are spelled

The lexical grammar, said without a lexer. `Spells t x` says that the characters `x` spell the token
`t`, and `Apart` says which text may follow without prolonging the spelling: a word ends where no
letter, digit or underscore follows, `<` where no `=` or `>` does, and a whole number also in front
of a point that has no digit behind it.

A text is `Spelled` by tokens when it is made of their spellings, each one apart from the text
behind it, with blanks anywhere between them. The relation takes the spelling as a parameter, so
other notations that share the blanks and the rules for what may follow can be described by it too.

* `Lexer.read_of_spells`, `Lexer.spells_of_read` — the lexer reads a token from a text iff the text
  starts with a spelling of it that is apart from the rest;
* `Lexer.tokens_of_spelled`, `Lexer.spelled_of_tokens` — the tokens of a text are those that spell
  it;
* `Lexer.exists_laidOut_of_tokens` — where they stand in it, with the blanks between them and their
  lines.
-/

namespace WhereClause

/-! ### Successful results -/

/-- A result is known once it is known as an option, and equality of options can be decided. -/
theorem eq_ok_of_toOption {ε α : Type} {x : Except ε α} {a : α} (h : x.toOption = some a) :
    x = .ok a := by
  cases x with
  | error _ => cases h
  | ok b => exact congrArg _ (Option.some.inj h)

/-- A result that passes a check is there. -/
theorem exists_ok_of_any {ε α : Type} {x : Except ε α} {p : α → Bool} (h : x.toOption.any p) :
    ∃ a, x = .ok a ∧ p a := by
  obtain ⟨a, ha, hp⟩ := (Option.any_eq_true p _).mp h
  exact ⟨a, eq_ok_of_toOption ha, hp⟩

/-! ### Runs of characters -/

/-- The text does not start with a character of the class `p`. -/
def Clear (p : Char → Bool) (r : List Char) : Prop :=
  ∀ c ∈ r.head?, ¬ p c

section Clear

variable {p : Char → Bool} {w r : List Char}

@[simp] theorem clear_nil : Clear p [] :=
  fun _ h => nomatch h

@[simp] theorem clear_cons {c : Char} : Clear p (c :: r) ↔ ¬ p c := by
  simp [Clear]

/-- Behind the longest run of a class none of its characters comes. -/
theorem clear_dropWhile : Clear p (r.dropWhile p) := by
  intro c hc
  have h := List.head?_dropWhile_not p r
  rw [hc] at h
  simp [h]

/-- A run that ends is taken as a whole. -/
theorem takeWhile_append_clear (hw : w.all p) (hr : Clear p r) : (w ++ r).takeWhile p = w := by
  rw [List.takeWhile_append_of_pos (List.all_eq_true.mp hw)]
  cases r with
  | nil => simp
  | cons c r => rw [List.takeWhile_cons_of_neg (clear_cons.mp hr), List.append_nil]

/-- Behind a run that ends, the rest is left. -/
theorem dropWhile_append_clear (hw : w.all p) (hr : Clear p r) : (w ++ r).dropWhile p = r := by
  rw [List.dropWhile_append_of_pos (List.all_eq_true.mp hw)]
  cases r with
  | nil => rfl
  | cons c r => rw [List.dropWhile_cons_of_neg (clear_cons.mp hr)]

end Clear

/-! ### Spellings -/

/-- The spelling of punctuation marks, operators and keywords. -/
def Kind.spelling? : Kind → Option String
  | leftParen => some "("
  | rightParen => some ")"
  | comma => some ","
  | dot => some "."
  | minus => some "-"
  | equal => some "="
  | dotDot => some ".."
  | different => some "<>"
  | greater => some ">"
  | greaterEqual => some ">="
  | less => some "<"
  | lessEqual => some "<="
  | k => k.keyword?

/-- A letter or underscore, followed by letters, digits and underscores. -/
def isWord (w : List Char) : Bool :=
  w.head?.any Lexer.isWordStart && w.all Lexer.isWordPart

/-- **The spelling of a token**, on whatever line it stands. -/
inductive Spells : Token → List Char → Prop
  | fixed {k : Kind} {s : String} {line : Nat} :
      k.spelling? = some s → Spells ⟨k, s, none, line⟩ s.toList
  | identifier {w : List Char} {line : Nat} :
      isWord w → Kind.ofKeyword? (String.ofList w) = none →
      Spells ⟨.identifier, String.ofList w, none, line⟩ w
  | parameter {w : List Char} {line : Nat} :
      isWord w → Spells ⟨.parameter, String.ofList w, none, line⟩ (':' :: w)
  | string {body : List Char} {line : Nat} :
      '\'' ∉ body →
      Spells ⟨.string, String.ofList ('\'' :: body ++ ['\'']), some (.string (String.ofList body)),
        line⟩ ('\'' :: body ++ ['\''])
  | integer {ds : List Char} {line : Nat} :
      isNumeral ds → Digits.value ds ≤ Lexer.maxInteger →
      Spells ⟨.number, String.ofList ds, some (.integer (Int.ofNat (Digits.value ds))), line⟩ ds
  | decimal {whole fraction : List Char} {d : Decimal} {line : Nat} :
      isNumeral whole → isNumeral fraction → Decimal.ofDigits? whole fraction = some d →
      Spells ⟨.number, String.ofList (whole ++ '.' :: fraction), some (.decimal d), line⟩
        (whole ++ '.' :: fraction)

/-- A whole number in its shortest spelling. -/
theorem spells_ofNat {n : Nat} (h : n ≤ Lexer.maxInteger) (line : Nat) :
    Spells ⟨.number, String.ofList (Digits.ofNat n), some (.integer (Int.ofNat n)), line⟩
      (Digits.ofNat n) := by
  have hspells : Spells ⟨.number, _, _, line⟩ _ :=
    .integer (isNumeral_ofNat n) (by rwa [Digits.value_ofNat])
  rwa [Digits.value_ofNat] at hspells

/-- The characters that, right behind a token, would make it a longer one. -/
def Kind.prolongs (k : Kind) (c : Char) : Bool :=
  match k with
  | leftParen | rightParen | comma | minus | equal | dotDot | different | greaterEqual | lessEqual
  | string | eof => false
  | dot => c == '.'
  | greater => c == '='
  | less => c == '=' || c == '>'
  | number => c.isDigit
  | _ => Lexer.isWordPart c

/-- **Where a spelling ends.** The text `r` behind the spelling `x` of a token does not prolong it.
A whole number would also be prolonged by a point with a digit. -/
def Apart (k : Kind) (x r : List Char) : Prop :=
  Clear k.prolongs r ∧
    (k = .number → '.' ∉ x → ∀ d tail, r = '.' :: d :: tail → ¬ d.isDigit)

/-- For all tokens but numbers the next character decides. -/
theorem apart_of_clear {k : Kind} {x r : List Char} (hk : k ≠ .number) (h : Clear k.prolongs r) :
    Apart k x r :=
  ⟨h, fun hnumber => absurd hnumber hk⟩

/-- **Texts made of spellings** with blanks anywhere between them. -/
inductive Spelled (S : Token → List Char → Prop) : List Token → List Char → Prop
  | nil : Spelled S [] []
  | blank {c : Char} {ts : List Token} {x : List Char} :
      Lexer.isSeparator c → Spelled S ts x → Spelled S ts (c :: x)
  | token {t : Token} {ts : List Token} {x r : List Char} :
      S t x → Apart t.kind x r → Spelled S ts r → Spelled S (t :: ts) (x ++ r)

/-! ### Words, numbers and symbols -/

theorem isWord_cons {c : Char} {cs : List Char} :
    isWord (c :: cs) ↔ Lexer.isWordStart c ∧ cs.all Lexer.isWordPart := by
  simp only [isWord, List.head?_cons, Option.any_some, List.all_cons, Bool.and_eq_true]
  constructor
  · rintro ⟨hc, -, hcs⟩
    exact ⟨hc, hcs⟩
  · rintro ⟨hc, hcs⟩
    refine ⟨hc, ?_, hcs⟩
    simp only [Lexer.isWordStart, Lexer.isWordPart, Char.isAlphanum, Bool.or_eq_true] at hc ⊢
    exact hc.imp_left .inl

/-- A word has a first character. -/
theorem exists_cons_of_isWord {w : List Char} (h : isWord w) :
    ∃ c cs, w = c :: cs ∧ Lexer.isWordStart c := by
  cases w with
  | nil => cases h
  | cons c cs => exact ⟨c, cs, rfl, (isWord_cons.mp h).1⟩

/-- The codes of letters and the underscore. -/
theorem toNat_of_isWordStart {c : Char} (h : Lexer.isWordStart c) :
    65 ≤ c.toNat ∧ c.toNat ≤ 122 := by
  -- letters are two ranges of characters
  change (decide ('A'.val ≤ c.val ∧ c.val ≤ 'Z'.val) ||
    decide ('a'.val ≤ c.val) && decide (c.val ≤ 'z'.val) || c == '_') = true at h
  simp only [Bool.or_eq_true, Bool.and_eq_true, decide_eq_true_eq, beq_iff_eq,
    UInt32.le_iff_toNat_le] at h
  rcases h with h | rfl
  · simp at h
    omega
  · decide

/-- The codes of digits. -/
theorem toNat_of_isDigit {c : Char} (h : c.isDigit) : 48 ≤ c.toNat ∧ c.toNat ≤ 57 := by
  simpa [Char.isDigit, UInt32.le_iff_toNat_le] using h

/-- Every text starts with the longest run of a class of characters. -/
theorem exists_run (p : Char → Bool) (cs : List Char) :
    ∃ w r, cs = w ++ r ∧ w.all p ∧ Clear p r :=
  ⟨cs.takeWhile p, cs.dropWhile p, List.takeWhile_append_dropWhile.symm, List.all_takeWhile,
    clear_dropWhile⟩

namespace Lexer

variable {w x r cs : List Char} {n : Nat} {k : Kind} {s : String}

/-- **Reading a word**, which may turn out to be a keyword. -/
theorem read_word (hw : isWord w) (hr : Clear isWordPart r) :
    (⟨w ++ r, n⟩ : Lexer).read =
      (.ok ⟨(Kind.ofKeyword? (String.ofList w)).getD .identifier, String.ofList w, none, n⟩,
        ⟨r, n⟩) := by
  have hall : w.all isWordPart := (Bool.and_eq_true_iff.mp hw).2
  obtain ⟨c, cs, rfl, hc⟩ := exists_cons_of_isWord hw
  -- strings and numbers are looked for first, and a word starts neither
  have hquote : c ≠ '\'' := by
    rintro rfl
    cases hc
  have hdigit : ¬ c.isDigit := by
    intro hdigit
    have := toNat_of_isDigit hdigit
    have := toNat_of_isWordStart hc
    omega
  simp only [read, List.cons_append, if_neg hquote, if_neg hdigit, if_pos hc]
  rw [← List.cons_append, takeWhile_append_clear hall hr, dropWhile_append_clear hall hr]

/-- **Reading a parameter**: a colon and a word. -/
theorem read_parameter (hw : isWord w) (hr : Clear isWordPart r) :
    (⟨':' :: w ++ r, n⟩ : Lexer).read =
      (.ok ⟨.parameter, String.ofList w, none, n⟩, ⟨r, n⟩) := by
  have hall : w.all isWordPart := (Bool.and_eq_true_iff.mp hw).2
  have hhead : (w ++ r).head?.any isWordStart := by
    obtain ⟨c, cs, rfl, hc⟩ := exists_cons_of_isWord hw
    exact hc
  have hcolon : ¬ (':' = '\'') ∧ ¬ (':'.isDigit = true) ∧ ¬ (isWordStart ':' = true) := by decide
  simp only [read, List.cons_append, if_neg hcolon.1, if_neg hcolon.2.1, if_neg hcolon.2.2, hhead,
    decide_true, Bool.and_true, if_true]
  rw [takeWhile_append_clear hall hr, dropWhile_append_clear hall hr]

/-- **Reading a string**, up to the next quote. -/
theorem read_string {body : List Char} (hbody : '\'' ∉ body) :
    (⟨'\'' :: body ++ '\'' :: r, n⟩ : Lexer).read =
      (.ok ⟨.string, String.ofList ('\'' :: body ++ ['\'']), some (.string (String.ofList body)),
        n⟩, ⟨r, n + body.count '\n'⟩) := by
  have hall : body.all (· != '\'') := by
    rw [List.all_eq_true]
    intro c hc
    simpa using fun h : c = '\'' => hbody (h ▸ hc)
  have hclear : Clear (· != '\'') ('\'' :: r) := by simp
  simp only [read, List.cons_append, if_true, readString]
  rw [takeWhile_append_clear hall hclear, dropWhile_append_clear hall hclear]

/-! Numbers go on behind a point only where a digit follows it. -/

/-- **Reading a whole number**, and whether it is in range. -/
theorem readNumber_integer (hw : isNumeral w) (hr : Apart .number w r) :
    readNumber (w ++ r) = (w, integerValue? w, r) := by
  obtain ⟨hclear, hpoint⟩ := hr
  have hall : w.all Char.isDigit := (Bool.and_eq_true_iff.mp hw).2
  have hnopoint : '.' ∉ w := fun h => absurd (List.all_eq_true.mp hall _ h) (by decide)
  unfold readNumber
  rw [takeWhile_append_clear hall hclear, dropWhile_append_clear hall hclear]
  split
  · next d tail =>
    -- a point follows, but no digit behind it
    rw [if_neg (hpoint rfl hnopoint d tail rfl)]
  · rfl

/-- The value of a decimal, where nothing has to be rounded. -/
theorem decimalValue?_eq {fraction : List Char} (hw : isNumeral w) (hf : isNumeral fraction) :
    decimalValue? w fraction = (Decimal.ofDigits? w fraction).map .decimal := by
  rw [decimalValue?, Decimal.ofString?_filter_scale hw hf]

/-- **Reading a decimal**, and whether it is in range. -/
theorem readNumber_decimal {fraction : List Char} (hw : isNumeral w) (hf : isNumeral fraction)
    (hr : Clear Char.isDigit r) :
    readNumber (w ++ '.' :: fraction ++ r) =
      (w ++ '.' :: fraction, (Decimal.ofDigits? w fraction).map .decimal, r) := by
  have hall : w.all Char.isDigit := (Bool.and_eq_true_iff.mp hw).2
  have hallf : fraction.all Char.isDigit := (Bool.and_eq_true_iff.mp hf).2
  rw [← decimalValue?_eq hw hf]
  obtain ⟨d, tail, rfl, hd⟩ := exists_cons_of_isNumeral hf
  -- the digits in front end at the point
  have hclear : Clear Char.isDigit ('.' :: (d :: tail ++ r)) := clear_cons.mpr (by decide)
  unfold readNumber
  rw [List.append_assoc, List.cons_append, takeWhile_append_clear hall hclear,
    dropWhile_append_clear hall hclear]
  simp only [List.cons_append, if_pos hd]
  rw [← List.cons_append, takeWhile_append_clear hallf hr, dropWhile_append_clear hallf hr]

/-- **Reading a number**, or failing behind it where its value is out of range. -/
theorem read_number {c : Char} {v : Option Value} (hc : c.isDigit)
    (h : readNumber (c :: cs) = (w, v, r)) :
    (⟨c :: cs, n⟩ : Lexer).read =
      (v.elim (.error (.invalidNumber (String.ofList w) n))
        fun v => .ok ⟨.number, String.ofList w, some v, n⟩, ⟨r, n⟩) := by
  have hquote : c ≠ '\'' := by
    rintro rfl
    cases hc
  simp only [read, if_neg hquote, if_pos hc, h]
  cases v <;> rfl

/-- The characters that symbols start with. -/
def symbolStarts : List Char := ['(', ')', ',', '=', '-', '.', '>', '<']

/-- A symbol starts with one of these characters. -/
theorem symbol?_starts (h : symbol? cs = some (k, s, r)) :
    ∃ c cs', cs = c :: cs' ∧ c ∈ symbolStarts := by
  unfold symbol? at h
  split at h
  case h_13 => cases h
  all_goals exact ⟨_, _, rfl, by decide⟩

/-- A symbol is read in front of any text that does not prolong it. -/
theorem symbol?_of_spelling (hk : k.keyword? = none) (hs : k.spelling? = some s)
    (hr : Clear k.prolongs r) : symbol? (s.toList ++ r) = some (k, s, r) := by
  cases k <;> cases hk <;> cases hs
  -- three symbols are the beginning of longer ones; the others are read whatever follows
  case dot =>
    change symbol? ('.' :: r) = _
    rw [symbol?]
    rintro cs rfl
    exact clear_cons.mp hr rfl
  case greater =>
    change symbol? ('>' :: r) = _
    rw [symbol?]
    rintro cs rfl
    exact clear_cons.mp hr rfl
  case less =>
    change symbol? ('<' :: r) = _
    rw [symbol?]
    · rintro cs rfl
      exact clear_cons.mp hr rfl
    · rintro cs rfl
      exact clear_cons.mp hr rfl
  all_goals rfl

/-- A symbol that is found is spelled at the front of the text, and not prolonged. -/
theorem spelling_of_symbol? (h : symbol? cs = some (k, s, r)) :
    k.spelling? = some s ∧ cs = s.toList ++ r ∧ Apart k s.toList r := by
  unfold symbol? at h
  split at h <;> cases h <;> refine ⟨rfl, rfl, apart_of_clear (by decide) ?_⟩
  -- the longer symbols are tried first, so a short one is found only where they do not apply
  case h_7.refl hdot =>
    rintro c hc hprolongs
    obtain ⟨cs, rfl⟩ := List.head?_eq_some_iff.mp hc
    exact hdot cs (by rw [eq_of_beq hprolongs])
  case h_9.refl hequal =>
    rintro c hc hprolongs
    obtain ⟨cs, rfl⟩ := List.head?_eq_some_iff.mp hc
    exact hequal cs (by rw [eq_of_beq hprolongs])
  case h_12.refl hequal hgreater =>
    rintro c hc hprolongs
    obtain ⟨cs, rfl⟩ := List.head?_eq_some_iff.mp hc
    rcases Bool.or_eq_true_iff.mp hprolongs with hc | hc
    · exact hequal cs (by rw [eq_of_beq hc])
    · exact hgreater cs (by rw [eq_of_beq hc])
  all_goals exact fun c _ => Bool.false_ne_true

/-- **Reading a symbol.** -/
theorem read_symbol (h : symbol? cs = some (k, s, r)) :
    (⟨cs, n⟩ : Lexer).read = (.ok ⟨k, s, none, n⟩, ⟨r, n⟩) := by
  obtain ⟨c, cs', rfl, hc⟩ := symbol?_starts h
  -- none of these characters starts a token of another class
  have hall : symbolStarts.all (fun c => c != '\'' && !c.isDigit && !isWordStart c && c != ':') :=
    rfl
  have hother := List.all_eq_true.mp hall c hc
  simp only [Bool.and_eq_true, bne_iff_ne, Bool.not_eq_true', ne_eq] at hother
  obtain ⟨⟨⟨hquote, hdigit⟩, hword⟩, hcolon⟩ := hother
  simp [read, hquote, hdigit, hword, hcolon, h]

end Lexer

/-! ### The lexer reads spellings -/

/-- Every keyword is a word, and is found by it. -/
theorem Kind.ofKeyword?_of_keyword? {k : Kind} {s : String} (h : k.keyword? = some s) :
    isWord s.toList ∧ Kind.ofKeyword? s = some k ∧ k.prolongs = Lexer.isWordPart := by
  cases k <;> cases h <;> exact ⟨by decide, by decide, rfl⟩

/-- A keyword that is found is spelled by the word. -/
theorem Kind.spelling?_of_ofKeyword? {k : Kind} {s : String} (h : Kind.ofKeyword? s = some k) :
    k.spelling? = some s ∧ k.prolongs = Lexer.isWordPart ∧ k ≠ .number := by
  change Kind.all.find? (fun k => k.keyword? == some s) = some k at h
  have hfound := List.find?_some h
  have hk := eq_of_beq hfound
  cases k <;> cases hk <;> exact ⟨rfl, rfl, nofun⟩

/-- A class without ends of lines. -/
theorem count_newline_of_all {p : Char → Bool} {w : List Char} (h : w.all p) (hp : ¬ p '\n') :
    w.count '\n' = 0 :=
  List.count_eq_zero.mpr fun hmem => hp (List.all_eq_true.mp h _ hmem)

/-- No spelling stands for the end marker. -/
theorem Spells.kind_ne_eof {t : Token} {x : List Char} (h : Spells t x) : t.kind ≠ .eof := by
  cases h with
  | fixed hs =>
    rintro rfl
    cases hs
  | _ => exact Kind.noConfusion

namespace Lexer

/-- **A spelling is read as its token.** -/
theorem read_of_spells {t : Token} {x r : List Char} (h : Spells t x) (hr : Apart t.kind x r)
    (n : Nat) :
    (⟨x ++ r, n⟩ : Lexer).read = (.ok (t.atLine n), ⟨r, n + x.count '\n'⟩) := by
  cases h with
  | @fixed k s _ hs =>
    -- keywords are read as words, all other fixed spellings as symbols
    cases hk : k.keyword? with
    | none =>
      have hcount : s.toList.count '\n' = 0 := by cases k <;> cases hk <;> cases hs <;> rfl
      rw [read_symbol (symbol?_of_spelling hk hs hr.1), hcount]
      rfl
    | some s' =>
      obtain rfl : s' = s := by
        cases k <;> cases hk <;> cases hs <;> rfl
      obtain ⟨hword, hkeyword, hprolongs⟩ := Kind.ofKeyword?_of_keyword? hk
      have hclear : Clear isWordPart r := hprolongs ▸ hr.1
      rw [read_word hword hclear, String.ofList_toList, hkeyword,
        count_newline_of_all (Bool.and_eq_true_iff.mp hword).2 (by decide)]
      rfl
  | identifier hw hname =>
    rw [read_word hw hr.1, hname, count_newline_of_all (Bool.and_eq_true_iff.mp hw).2 (by decide)]
    rfl
  | parameter hw =>
    rw [read_parameter hw hr.1, List.count_cons_of_ne (by decide),
      count_newline_of_all (Bool.and_eq_true_iff.mp hw).2 (by decide)]
    rfl
  | @string body _ hbody =>
    -- the only token that may go over several lines
    have happend : '\'' :: body ++ ['\''] ++ r = '\'' :: body ++ '\'' :: r := by simp
    rw [happend, read_string hbody]
    simp [Token.atLine]
  | integer hds hmax =>
    -- the number is in range, so its value is there
    have hcount := count_newline_of_all (Bool.and_eq_true_iff.mp hds).2 (by decide)
    have hnumber := readNumber_integer hds hr
    rw [integerValue?, if_pos hmax] at hnumber
    obtain ⟨c, cs, rfl, hc⟩ := exists_cons_of_isNumeral hds
    rw [List.cons_append] at hnumber ⊢
    rw [read_number hc hnumber, hcount]
    rfl
  | @decimal whole fraction d _ hwhole hfraction hd =>
    have hcount : (whole ++ '.' :: fraction).count '\n' = 0 := by
      rw [List.count_append, List.count_cons_of_ne (by decide),
        count_newline_of_all (Bool.and_eq_true_iff.mp hwhole).2 (by decide),
        count_newline_of_all (Bool.and_eq_true_iff.mp hfraction).2 (by decide)]
    have hnumber := readNumber_decimal hwhole hfraction hr.1
    rw [hd] at hnumber
    obtain ⟨c, cs, rfl, hc⟩ := exists_cons_of_isNumeral hwhole
    simp only [List.cons_append] at hnumber hcount ⊢
    rw [read_number hc hnumber, hcount]
    rfl

/-- A text that starts with a letter or underscore starts with a word. -/
theorem exists_word {c : Char} (cs : List Char) (hc : isWordStart c) :
    ∃ w r, c :: cs = w ++ r ∧ isWord w ∧ Clear isWordPart r := by
  obtain ⟨w, r, rfl, hw, hr⟩ := exists_run isWordPart cs
  exact ⟨c :: w, r, rfl, isWord_cons.mpr ⟨hc, hw⟩, hr⟩

/-- A text that starts with a digit starts with a whole number or with a decimal. -/
theorem numeral_cases {c : Char} (cs : List Char) (hc : c.isDigit) :
    (∃ ds r, c :: cs = ds ++ r ∧ isNumeral ds ∧ Apart .number ds r) ∨
      ∃ whole fraction r, c :: cs = whole ++ '.' :: fraction ++ r ∧ isNumeral whole ∧
        isNumeral fraction ∧ Clear Char.isDigit r := by
  obtain ⟨ds, r, rfl, hds, hr⟩ := exists_run Char.isDigit cs
  have hnumeral : isNumeral (c :: ds) := isNumeral_cons.mpr ⟨hc, hds⟩
  -- the point belongs to the number only together with a digit
  by_cases hpoint : ∃ d tail, r = '.' :: d :: tail ∧ d.isDigit
  · obtain ⟨d, tail, rfl, hd⟩ := hpoint
    obtain ⟨fraction, rest, rfl, hfraction, hrest⟩ := exists_run Char.isDigit tail
    exact .inr ⟨c :: ds, d :: fraction, rest, by simp, hnumeral,
      isNumeral_cons.mpr ⟨hd, hfraction⟩, hrest⟩
  · exact .inl ⟨c :: ds, r, rfl, hnumeral, hr,
      fun _ _ d tail hd hdigit => hpoint ⟨d, tail, hd, hdigit⟩⟩

section Converse

variable {c : Char} {cs : List Char} {n : Nat} {t : Token} {l : Lexer}

/-- What starts as a word is a keyword or an identifier. -/
theorem spells_of_read_word (hc : isWordStart c) (h : (⟨c :: cs, n⟩ : Lexer).read = (.ok t, l)) :
    ∃ x, c :: cs = x ++ l.rest ∧ Spells t x ∧ Apart t.kind x l.rest := by
  obtain ⟨w, r, hcs, hw, hr⟩ := exists_word cs hc
  rw [hcs, read_word hw hr] at h
  cases hkeyword : Kind.ofKeyword? (String.ofList w) with
  | none =>
    rw [hkeyword] at h
    cases h
    exact ⟨w, hcs, .identifier hw hkeyword, apart_of_clear nofun hr⟩
  | some k =>
    -- the word is a keyword, and spells it
    rw [hkeyword] at h
    cases h
    obtain ⟨hspelling, hprolongs, hnumber⟩ := Kind.spelling?_of_ofKeyword? hkeyword
    refine ⟨w, hcs, ?_, apart_of_clear hnumber (hprolongs ▸ hr)⟩
    have hspells : Spells ⟨k, String.ofList w, none, n⟩ _ := .fixed hspelling
    rwa [String.toList_ofList] at hspells

/-- A string that is read is closed. -/
theorem spells_of_read_string (h : (⟨'\'' :: cs, n⟩ : Lexer).read = (.ok t, l)) :
    ∃ x, '\'' :: cs = x ++ l.rest ∧ Spells t x ∧ Apart t.kind x l.rest := by
  obtain ⟨body, r, rfl, hall, hr⟩ := exists_run (· != '\'') cs
  have hbody : '\'' ∉ body := fun hmem => absurd (List.all_eq_true.mp hall _ hmem) (by decide)
  cases r with
  | nil =>
    -- the text ends before the string does
    simp only [read, if_true, readString, dropWhile_append_clear hall hr] at h
    cases h
  | cons q r =>
    obtain rfl : q = '\'' := by simpa using hr
    rw [← List.cons_append, read_string hbody] at h
    cases h
    exact ⟨'\'' :: body ++ ['\''], by simp, .string hbody,
      apart_of_clear nofun fun c _ => Bool.false_ne_true⟩

/-- A number that is read has a value. -/
theorem spells_of_read_number (hc : c.isDigit) (h : (⟨c :: cs, n⟩ : Lexer).read = (.ok t, l)) :
    ∃ x, c :: cs = x ++ l.rest ∧ Spells t x ∧ Apart t.kind x l.rest := by
  obtain ⟨ds, r, hcs, hds, hr⟩ | ⟨whole, fraction, r, hcs, hwhole, hfraction, hr⟩ :=
    numeral_cases cs hc
  · rw [read_number hc (hcs ▸ readNumber_integer hds hr), integerValue?] at h
    by_cases hmax : Digits.value ds ≤ maxInteger
    · rw [if_pos hmax] at h
      cases h
      exact ⟨ds, hcs, .integer hds hmax, hr⟩
    · -- out of range there is an error instead of a token
      rw [if_neg hmax] at h
      cases h
  · rw [read_number hc (hcs ▸ readNumber_decimal hwhole hfraction hr)] at h
    cases hd : Decimal.ofDigits? whole fraction with
    | none =>
      rw [hd] at h
      cases h
    | some d =>
      rw [hd] at h
      cases h
      exact ⟨_, hcs, .decimal hwhole hfraction hd, hr, fun _ hpoint => absurd (by simp) hpoint⟩

/-- A colon in front of a word is a parameter. -/
theorem spells_of_read_parameter (hcs : cs.head?.any isWordStart)
    (h : (⟨':' :: cs, n⟩ : Lexer).read = (.ok t, l)) :
    ∃ x, ':' :: cs = x ++ l.rest ∧ Spells t x ∧ Apart t.kind x l.rest := by
  cases cs with
  | nil => cases hcs
  | cons c cs =>
    obtain ⟨w, r, hcs, hw, hr⟩ := exists_word cs hcs
    rw [hcs, ← List.cons_append, read_parameter hw hr] at h
    cases h
    exact ⟨':' :: w, congrArg _ hcs, .parameter hw, apart_of_clear nofun hr⟩

end Converse

/-- **What is read has a spelling** at the front of the text. -/
theorem spells_of_read {c : Char} {cs : List Char} {n : Nat} {l : Lexer} {t : Token}
    (h : (⟨c :: cs, n⟩ : Lexer).read = (.ok t, l)) :
    ∃ x, c :: cs = x ++ l.rest ∧ Spells t x ∧ Apart t.kind x l.rest := by
  -- the first character decides on the class of the token, in the order in which `read` asks
  by_cases hquote : c = '\''
  · subst hquote
    exact spells_of_read_string h
  by_cases hdigit : c.isDigit
  · exact spells_of_read_number hdigit h
  by_cases hword : isWordStart c
  · exact spells_of_read_word hword h
  by_cases hcolon : c = ':' ∧ cs.head?.any isWordStart
  · obtain ⟨rfl, hhead⟩ := hcolon
    exact spells_of_read_parameter hhead h
  cases hsymbol : symbol? (c :: cs) with
  | some found =>
    obtain ⟨k, s, r⟩ := found
    rw [read_symbol hsymbol] at h
    cases h
    obtain ⟨hspelling, hcs, hr⟩ := spelling_of_symbol? hsymbol
    exact ⟨s.toList, hcs, .fixed hspelling, hr⟩
  | none =>
    -- no class of tokens starts here, so nothing has been read
    have hcolon' : ¬ (c = ':' && cs.head?.any isWordStart) = true := by simpa using hcolon
    simp only [read, if_neg hquote, if_neg hdigit, if_neg hword, if_neg hcolon', hsymbol] at h
    cases h

end Lexer

/-! ### First characters -/

/-- The visible characters of ASCII. -/
def isGraphic (c : Char) : Bool :=
  0x20 < c.toNat && c.toNat < 0x7F

theorem isGraphic_of_isWordStart {c : Char} (h : Lexer.isWordStart c) : isGraphic c := by
  have := toNat_of_isWordStart h
  simp only [isGraphic, Bool.and_eq_true, decide_eq_true_eq]
  omega

theorem isGraphic_of_isDigit {c : Char} (h : c.isDigit) : isGraphic c := by
  have := toNat_of_isDigit h
  simp only [isGraphic, Bool.and_eq_true, decide_eq_true_eq]
  omega

theorem not_isSeparator_of_isGraphic {c : Char} (h : isGraphic c) : ¬ Lexer.isSeparator c := by
  simp only [Lexer.isSeparator, Bool.or_eq_true, beq_iff_eq]
  rintro (((rfl | rfl) | rfl) | rfl) <;> cases h

theorem not_whiteSpace_of_isGraphic {c : Char} (h : isGraphic c) :
    ¬ Text.whiteSpace.contains c := by
  simp only [isGraphic, Bool.and_eq_true, decide_eq_true_eq] at h
  simp [Text.whiteSpace, CharSet.contains]
  omega

/-- **A spelling starts with a visible character**, and so is not empty. -/
theorem Spells.starts {t : Token} {x : List Char} (h : Spells t x) :
    ∃ c cs, x = c :: cs ∧ isGraphic c := by
  cases h with
  | @fixed k s _ hs => cases k <;> cases hs <;> exact ⟨_, _, rfl, by decide⟩
  | identifier hw _ =>
    obtain ⟨c, cs, rfl, hc⟩ := exists_cons_of_isWord hw
    exact ⟨c, cs, rfl, isGraphic_of_isWordStart hc⟩
  | parameter _ => exact ⟨_, _, rfl, by decide⟩
  | string _ => exact ⟨_, _, rfl, by decide⟩
  | integer hds _ =>
    obtain ⟨c, cs, rfl, hc⟩ := exists_cons_of_isNumeral hds
    exact ⟨c, cs, rfl, isGraphic_of_isDigit hc⟩
  | decimal hwhole _ _ =>
    obtain ⟨c, cs, rfl, hc⟩ := exists_cons_of_isNumeral hwhole
    exact ⟨c, _, rfl, isGraphic_of_isDigit hc⟩

/-! ### Tokens that have a spelling -/

/-- **The tokens that occur in texts.** -/
def Token.IsLexical (t : Token) : Prop :=
  ∃ x, Spells t x

/-- The tokens of a text have spellings. -/
theorem Spelled.isLexical {ts : List Token} {x : List Char} (h : Spelled Spells ts x) :
    ∀ t ∈ ts, t.IsLexical := by
  induction h with
  | nil => simp
  | blank _ _ ih => exact ih
  | token ht _ _ ih => exact List.forall_mem_cons.mpr ⟨⟨_, ht⟩, ih⟩

namespace Token.IsLexical

variable {t : Token}

/-- Marks, operators and keywords are spelled in one way only. -/
theorem spells_of_spelling? {s : String} (h : t.IsLexical) (hs : t.kind.spelling? = some s) :
    Spells t s.toList ∧ t.bare = ⟨t.kind, s, none, 1⟩ := by
  obtain ⟨x, h⟩ := h
  cases h with
  | @fixed k s' line hs' =>
    obtain rfl : s' = s := Option.some.inj (hs'.symm.trans hs)
    have hnumber : k ≠ .number := by
      rintro rfl
      cases hs
    exact ⟨.fixed hs, by simp [Token.bare, hnumber]⟩
  | _ => cases hs

/-- A segment of a name is spelled as it is, and no keyword. -/
theorem spells_of_identifier (h : t.IsLexical) (ht : t.kind = .identifier) :
    isWord t.lexeme.toList ∧ Kind.ofKeyword? t.lexeme = none ∧ Spells t t.lexeme.toList := by
  obtain ⟨x, h⟩ := h
  cases h with
  | @fixed k s line hs =>
    obtain rfl : k = .identifier := ht
    cases hs
  | identifier hw hname =>
    rw [String.toList_ofList]
    exact ⟨hw, hname, .identifier hw hname⟩
  | _ => cases ht

/-- A parameter has a word for its name, and no value. -/
theorem isWord_of_parameter (h : t.IsLexical) (ht : t.kind = .parameter) :
    isWord t.lexeme.toList ∧ t.literal = none := by
  obtain ⟨x, h⟩ := h
  cases h with
  | @fixed k s line hs =>
    obtain rfl : k = .parameter := ht
    cases hs
  | parameter hw =>
    rw [String.toList_ofList]
    exact ⟨hw, rfl⟩
  | _ => cases ht

end Token.IsLexical

/-! ### All tokens of a text -/

namespace Lexer

/-- The tokens of a text begin with the next one. -/
theorem tokens_eq (l : Lexer) :
    l.tokens = match l.next with
      | (.error e, _) => .error e
      | (.ok t, l') => if t.kind = .eof then .ok [t] else l'.tokens.map (t :: ·) := by
  rw [tokens]
  split
  · next h => simp only [h]
  · next t l' h =>
    simp only [h]
    split
    · rfl
    · cases l'.tokens <;> rfl

/-- A blank is passed over, with the line that it may end. -/
theorem next_blank {c : Char} {cs : List Char} (hc : isSeparator c) (n : Nat) :
    (⟨c :: cs, n⟩ : Lexer).next = (⟨cs, n + [c].count '\n'⟩ : Lexer).next := by
  simp only [next, skipBlanks, List.takeWhile_cons_of_pos hc, List.dropWhile_cons_of_pos hc,
    Nat.add_assoc, ← List.count_append, List.singleton_append]

/-- Where no blank stands, the token starts. -/
theorem next_of_starts {c : Char} {cs : List Char} (hc : ¬ isSeparator c) (n : Nat) :
    (⟨c :: cs, n⟩ : Lexer).next = (⟨c :: cs, n⟩ : Lexer).read := by
  simp [next, skipBlanks, List.takeWhile_cons_of_neg hc, List.dropWhile_cons_of_neg hc]

/-- **A text is read as the tokens that spell it**, each on the line where it stands. -/
theorem tokens_of_spelled {ts : List Token} {x : List Char} (h : Spelled Spells ts x) (n : Nat) :
    ∃ ts' n', (⟨x, n⟩ : Lexer).tokens = .ok (ts' ++ [Token.eof n']) ∧
      ts'.map (·.atLine 1) = ts.map (·.atLine 1) := by
  induction h generalizing n with
  | nil => exact ⟨[], n, by rw [tokens_eq]; rfl, rfl⟩
  | blank hc _ ih =>
    obtain ⟨ts', n', htokens, hts'⟩ := ih (n + _)
    refine ⟨ts', n', ?_, hts'⟩
    rw [tokens_eq, next_blank hc, ← tokens_eq]
    exact htokens
  | @token t ts x r ht hapart _ ih =>
    obtain ⟨ts', n', htokens, hts'⟩ := ih (n + x.count '\n')
    have hlines : (t.atLine n :: ts').map (·.atLine 1) = (t :: ts).map (·.atLine 1) := by
      rw [List.map_cons, List.map_cons, hts', Token.atLine_atLine]
    refine ⟨t.atLine n :: ts', n', ?_, hlines⟩
    -- the spelling does not start with a blank, so nothing is skipped in front of it
    have hread := read_of_spells ht hapart n
    obtain ⟨c, cs, rfl, hc⟩ := ht.starts
    rw [List.cons_append] at hread ⊢
    rw [tokens_eq, next_of_starts (not_isSeparator_of_isGraphic hc), hread]
    dsimp only
    rw [Token.kind_atLine, if_neg ht.kind_ne_eof, htokens]
    rfl

/-- Blanks may stand in front. -/
theorem spelled_blanks {S : Token → List Char → Prop} {ts : List Token} {b x : List Char}
    (hb : b.all isSeparator) (h : Spelled S ts x) : Spelled S ts (b ++ x) := by
  induction b with
  | nil => exact h
  | cons c b ih =>
    obtain ⟨hc, hb⟩ := Bool.and_eq_true_iff.mp hb
    exact .blank hc (ih hb)

end Lexer

/-! ### Tokens in their text -/

/-- **A token as it stands in a text**: its lexeme, and in front of a parameter's a colon. -/
def Token.source (t : Token) : List Char :=
  if t.kind = .parameter then ':' :: t.lexeme.toList else t.lexeme.toList

/-- A spelling is the token as it stands in the text. -/
theorem Spells.eq_source {t : Token} {x : List Char} (h : Spells t x) : x = t.source := by
  cases h with
  | @fixed k s _ hs =>
    have hk : k ≠ .parameter := by
      rintro rfl
      cases hs
    rw [Token.source, if_neg hk]
  | _ => simp [Token.source]

/-- The text of a row of tokens, each behind some blanks, with the blanks `last` at the end. -/
def laid (last : List Char) : List (List Char × Token) → List Char
  | [] => last
  | (w, t) :: items => w ++ t.source ++ laid last items

/-- **A row of tokens in its text**, from line `n` on: only blanks stand between the tokens, the
text behind a token does not prolong it, and every token is on the line where it starts. -/
def LaidOut (last : List Char) : Nat → List (List Char × Token) → Prop
  | _, [] => last.all Lexer.isSeparator
  | n, (w, t) :: items =>
    w.all Lexer.isSeparator ∧ Spells t t.source ∧ Apart t.kind t.source (laid last items) ∧
      t.line = n + w.count '\n' ∧ LaidOut last (t.line + t.source.count '\n') items

/-- Tokens that are laid out in a text spell it. -/
theorem LaidOut.spelled {last : List Char} {n : Nat} {items : List (List Char × Token)}
    (h : LaidOut last n items) : Spelled Spells (items.map Prod.snd) (laid last items) := by
  induction items generalizing n with
  | nil =>
    have hlast := Lexer.spelled_blanks h (.nil : Spelled Spells [] [])
    rwa [List.append_nil] at hlast
  | cons item items ih =>
    obtain ⟨w, t⟩ := item
    obtain ⟨hw, hspells, hapart, -, hitems⟩ := h
    rw [laid, List.append_assoc]
    exact Lexer.spelled_blanks hw (.token hspells hapart (ih hitems))

namespace Lexer

/-- What is read stands on the line of the lexer, and the lexer goes on behind it. -/
theorem line_of_read {c : Char} {cs : List Char} {n : Nat} {l : Lexer} {t : Token}
    (h : (⟨c :: cs, n⟩ : Lexer).read = (.ok t, l)) :
    c :: cs = t.source ++ l.rest ∧ Spells t t.source ∧ Apart t.kind t.source l.rest ∧
      t.line = n ∧ l.line = n + t.source.count '\n' := by
  obtain ⟨x, hx, hspells, hapart⟩ := spells_of_read h
  -- there is only one spelling that it can be
  obtain rfl := hspells.eq_source
  -- reading the spelling again gives the same answer, and there the lines are known
  have hread := read_of_spells hspells hapart n
  rw [← hx, h] at hread
  obtain ⟨htoken, hlexer⟩ := Prod.mk.inj hread
  exact ⟨hx, hspells, hapart, congrArg Token.line (Except.ok.inj htoken),
    congrArg Lexer.line hlexer⟩

/-- **The tokens that are read are laid out in the text**, and the end marker is on the line where
the text ends. -/
theorem exists_laidOut_of_tokens {cs : List Char} {n : Nat} {ts : List Token}
    (h : (⟨cs, n⟩ : Lexer).tokens = .ok ts) :
    ∃ items last, cs = laid last items ∧ LaidOut last n items ∧
      ts = items.map Prod.snd ++ [Token.eof (n + cs.count '\n')] := by
  -- a token uses at least one character, so the induction is on the length of the text
  induction hlength : cs.length using Nat.strongRecOn generalizing cs n ts with
  | ind k ih =>
    -- the blanks in front belong to the first token, or are the last ones
    obtain ⟨b, r, rfl, hb, hr⟩ := exists_run isSeparator cs
    have hnext : (⟨b ++ r, n⟩ : Lexer).next = (⟨r, n + b.count '\n'⟩ : Lexer).read := by
      rw [next, skipBlanks, takeWhile_append_clear hb hr, dropWhile_append_clear hb hr]
    rw [tokens_eq, hnext] at h
    cases r with
    | nil =>
      cases h
      rw [List.append_nil]
      exact ⟨[], b, rfl, hb, rfl⟩
    | cons c r =>
      rcases hread : (⟨c :: r, n + b.count '\n'⟩ : Lexer).read with ⟨result, l⟩
      rw [hread] at h
      cases result with
      | error e => cases h
      | ok t =>
        obtain ⟨hsource, hspells, hapart, hline, hrest⟩ := line_of_read hread
        have hlt : l.rest.length < k := by
          have := length_read_lt hread hspells.kind_ne_eof
          rw [← hlength, List.length_append]
          exact Nat.lt_add_left _ this
        dsimp only at h
        rw [if_neg hspells.kind_ne_eof] at h
        cases htokens : l.tokens with
        | error e =>
          rw [htokens] at h
          cases h
        | ok us =>
          rw [htokens] at h
          cases h
          -- behind the token the text is laid out already
          obtain ⟨items, last, hlaid, hitems, rfl⟩ := ih _ hlt htokens rfl
          refine ⟨(b, t) :: items, last, ?_, ⟨hb, hspells, hlaid ▸ hapart, hline, ?_⟩, ?_⟩
          · rw [hsource, hlaid, laid, List.append_assoc]
          · rw [hline, ← hrest]
            exact hitems
          · rw [hsource, hrest, List.count_append, List.count_append, Nat.add_assoc, Nat.add_assoc]
            rfl

/-- **The tokens that are read spell the text.** -/
theorem spelled_of_tokens {cs : List Char} {n : Nat} {ts : List Token}
    (h : (⟨cs, n⟩ : Lexer).tokens = .ok ts) :
    ∃ ts' n', ts = ts' ++ [Token.eof n'] ∧ Spelled Spells ts' cs := by
  obtain ⟨items, last, rfl, hitems, rfl⟩ := exists_laidOut_of_tokens h
  exact ⟨_, _, rfl, hitems.spelled⟩

end Lexer

end WhereClause
