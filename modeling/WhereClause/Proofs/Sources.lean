import WhereClause.Pass.Case
import WhereClause.Proofs.Binding
import WhereClause.Proofs.LongestMatch
import WhereClause.Proofs.RoundTrip

/-!
# Trees that have a source

The trees that come out of the parser are closed under passes that put leaves in the places of
leaves: if all its answers are leaves that the language can spell, what such a pass makes of a
parsed tree is again the tree of some text.

What is special about a parsed tree is its shape, the names at its calls, and that its leaves can be
spelled. A pass over leaves keeps the first two whatever it answers (`Expr.graft_of_leaves`), and
the third is what is asked of it. In the other direction the three are enough: the grammar derives
the tree from tokens that can all be spelled (`Derives.of_shape_eq`), and tokens written one after
the other with a blank behind each of them are read as they were written.

* `Leaf.IsSpellable` — the leaves that a text of the language can have;
* `Derives.isSpellable_of_mem_leaves`, `Leaf.IsSpellable.derivableFrom` — they are those derived
  from tokens that can be spelled;
* `exists_isSourceOf_of_shape_eq` — a tree of such leaves has a source if it has the shape of a
  parsed one;
* `AnswersSpellable` — passes over leaves that stay within the language.
-/

namespace WhereClause

variable {σ : Type}

/-! ### Leaves that can be spelled -/

/-- **Names**: words that are no keywords, with points between them. -/
inductive IsDottedName : String → Prop
  | one {w : String} : isWord w.toList → Kind.ofKeyword? w = none → IsDottedName w
  | more {name w : String} :
      IsDottedName name → isWord w.toList → Kind.ofKeyword? w = none →
      IsDottedName (name ++ "." ++ w)

/-- **The values that a literal can spell.** There is no sign in a literal, a decimal has digits
behind its point, and a string has no way to say a quote. Integers end where their range does. -/
def Value.IsSpellable : Value → Prop
  | null | boolean _ => True
  | integer n => 0 ≤ n ∧ n ≤ Int.ofNat Lexer.maxInteger
  | decimal d => 0 ≤ d.coefficient ∧ 1 ≤ d.scale
  | string s => '\'' ∉ s.toList

/-- **The leaves that the language can spell.** -/
def Leaf.IsSpellable : Leaf → Prop
  | literal v => v.IsSpellable
  | identifier name => IsDottedName name
  | parameter name => isWord name.toList

/-! ### From tokens to leaves -/

/-- A name that is read from tokens which can be spelled is one of words with points between them.
-/
theorem Named.isDottedName {ts : List Token} {name : String} (h : Named ts name)
    (hts : ∀ t ∈ ts, t.IsLexical) : IsDottedName name := by
  induction h with
  | one ht =>
    obtain ⟨hword, hkeyword, -⟩ := (hts _ (List.mem_singleton.mpr rfl)).spells_of_identifier ht
    exact .one hword hkeyword
  | more _ _ ht ih =>
    obtain ⟨hts, -, hlast⟩ := forall_mem_infix.mp hts
    obtain ⟨hword, hkeyword, -⟩ := (hlast _ (List.mem_singleton.mpr rfl)).spells_of_identifier ht
    exact .more (ih hts) hword hkeyword

/-- The value of a token that can be spelled can be spelled. -/
theorem Token.IsLexical.isSpellable_of_value? {t : Token} {v : Value} (h : t.IsLexical)
    (hv : t.value? = some v) : v.IsSpellable := by
  obtain ⟨x, hspells⟩ := h
  cases hspells with
  | @fixed k s _ hs =>
    -- of the keywords only three have a value, and those can all be spelled
    cases k <;> cases hs <;> cases hv <;> exact trivial
  | identifier => cases hv
  | parameter => cases hv
  | string hbody =>
    cases hv
    show '\'' ∉ (String.ofList _).toList
    rwa [String.toList_ofList]
  | integer _ hmax =>
    cases hv
    exact ⟨Int.natCast_nonneg _, Int.ofNat_le.mpr hmax⟩
  | @decimal whole fraction d _ _ hfraction hd =>
    cases hv
    obtain ⟨hcoefficient, hscale⟩ := Decimal.eq_of_make? hd
    refine ⟨hcoefficient ▸ Int.natCast_nonneg _, hscale ▸ ?_⟩
    exact List.length_pos_iff.mpr (isNumeral_iff.mp hfraction).1

/-- **The leaves of a tree whose tokens can be spelled can be spelled.** -/
theorem Derives.isSpellable_of_mem_leaves {r : Rule} {ts : List Token} {e : Expr}
    (h : Derives r ts e) (hts : ∀ t ∈ ts, t.IsLexical) : ∀ l ∈ e.leaves, l.IsSpellable := by
  -- single tokens and names give leaves, and all other rules put together those that they have
  induction h with
  | lift _ ih | plain _ ih | argument _ ih => simpa [Expr.leaves, Expr.leavesOf] using ih hts
  | chain _ _ _ ihl ihr | range _ _ _ _ ihl ihr =>
    obtain ⟨hl, -, hr⟩ := forall_mem_infix.mp hts
    exact List.forall_mem_append.mpr ⟨ihl hl, ihr hr⟩
  | signed _ _ ih => exact ih (List.forall_mem_cons.mp hts).2
  | members _ _ _ ih | grouping _ _ _ ih => exact ih (forall_mem_enclosed.mp hts).2.1
  | parameter ht =>
    have hword := (hts _ (List.mem_singleton.mpr rfl)).isWord_of_parameter ht
    exact List.forall_mem_singleton.mpr hword.1
  | literal hv =>
    have hvalue := (hts _ (List.mem_singleton.mpr rfl)).isSpellable_of_value? hv
    exact List.forall_mem_singleton.mpr hvalue
  | name hname => exact List.forall_mem_singleton.mpr (hname.isDottedName hts)
  | callEmpty hname _ _ =>
    obtain ⟨hts, -⟩ := List.forall_mem_append.mp hts
    exact List.forall_mem_singleton.mpr (hname.isDottedName hts)
  | call hname _ _ _ ih =>
    rw [List.append_assoc] at hts
    obtain ⟨hts, hargs⟩ := List.forall_mem_append.mp hts
    exact List.forall_mem_cons.mpr
      ⟨hname.isDottedName hts, ih (forall_mem_enclosed.mp hargs).2.1⟩
  | arguments _ _ _ ihs ih =>
    obtain ⟨hbefore, -, hlast⟩ := forall_mem_infix.mp hts
    rw [Expr.leaves, Expr.leavesOf_append]
    refine List.forall_mem_append.mpr ⟨ihs hbefore, ?_⟩
    simpa [Expr.leavesOf] using ih hlast

/-! ### From leaves to tokens -/

/-- Such a name is read from tokens that can be spelled. -/
theorem IsDottedName.exists_named {name : String} (h : IsDottedName name) :
    ∃ ts, Named ts name ∧ ∀ t ∈ ts, t.IsLexical := by
  -- a word that is not reserved spells an identifier
  have hspells : ∀ {w : String}, isWord w.toList → Kind.ofKeyword? w = none →
      (Token.ofKind .identifier w).IsLexical := by
    intro w hword hkeyword
    have hspelled : Spells ⟨.identifier, String.ofList w.toList, none, 1⟩ w.toList :=
      .identifier hword (by rwa [String.ofList_toList])
    rw [String.ofList_toList] at hspelled
    exact ⟨_, hspelled⟩
  induction h with
  | one hword hkeyword =>
    exact ⟨[_], .one rfl, List.forall_mem_singleton.mpr (hspells hword hkeyword)⟩
  | @more _ w _ hword hkeyword ih =>
    obtain ⟨ts, hnamed, hts⟩ := ih
    have hdot : (Token.ofKind .dot ".").IsLexical := ⟨_, .fixed rfl⟩
    have hmore : Named (ts ++ [.ofKind .dot ".", .ofKind .identifier w]) _ := .more hnamed rfl rfl
    exact ⟨_, hmore, forall_mem_infix.mpr
      ⟨hts, hdot, List.forall_mem_singleton.mpr (hspells hword hkeyword)⟩⟩

/-- A value that can be spelled is the value of a token that can. -/
theorem Value.IsSpellable.exists_token {v : Value} (h : v.IsSpellable) :
    ∃ t : Token, t.IsLexical ∧ t.value? = some v := by
  cases v with
  | null => exact ⟨.ofKind .kwNull "null", ⟨_, .fixed rfl⟩, rfl⟩
  | boolean b =>
    cases b with
    | false => exact ⟨.ofKind .kwFalse "false", ⟨_, .fixed rfl⟩, rfl⟩
    | true => exact ⟨.ofKind .kwTrue "true", ⟨_, .fixed rfl⟩, rfl⟩
  | integer n =>
    obtain ⟨hpositive, hmax⟩ := h
    obtain ⟨k, rfl⟩ := Int.eq_ofNat_of_zero_le hpositive
    exact ⟨_, ⟨_, spells_ofNat (Int.ofNat_le.mp hmax) 1⟩, rfl⟩
  | decimal d =>
    obtain ⟨hpositive, hscale⟩ := h
    -- the printed form has as many digits behind the point as the scale says
    obtain ⟨whole, fraction, -, hne, hwhole, hfraction, hlength, hvalue⟩ :=
      Digits.pointed_eq d.coefficient.natAbs (Nat.pos_iff_ne_zero.mp hscale)
    have hfraction' : isNumeral fraction := by
      refine isNumeral_iff.mpr ⟨?_, hfraction⟩
      rintro rfl
      rw [← hlength] at hscale
      exact absurd hscale (by decide)
    have hdigits : Decimal.ofDigits? whole fraction = some d := by
      rw [Decimal.ofDigits?, hvalue, hlength, Int.ofNat_eq_natCast,
        Int.natAbs_of_nonneg hpositive, Decimal.make?_self]
    have hspells : Spells ⟨.number, _, some (.decimal d), 1⟩ _ :=
      .decimal (isNumeral_iff.mpr ⟨hne, hwhole⟩) hfraction' hdigits
    exact ⟨_, ⟨_, hspells⟩, rfl⟩
  | string s =>
    have hspells : Spells ⟨.string, _, some (.string (String.ofList s.toList)), 1⟩ _ := .string h
    rw [String.ofList_toList] at hspells
    exact ⟨_, ⟨_, hspells⟩, rfl⟩

/-- **A leaf that can be spelled is derivable from tokens that can.** -/
theorem Leaf.IsSpellable.derivableFrom {l : Leaf} (h : l.IsSpellable) :
    DerivableFrom Token.IsLexical .operand (.leaf l) := by
  cases l with
  | literal v =>
    obtain ⟨t, ht, hv⟩ := Value.IsSpellable.exists_token h
    exact ⟨[t], .literal hv, List.forall_mem_singleton.mpr ht⟩
  | identifier name =>
    obtain ⟨ts, hnamed, hts⟩ := IsDottedName.exists_named h
    exact ⟨ts, .name hnamed, hts⟩
  | parameter name =>
    have hspells : Spells ⟨.parameter, String.ofList name.toList, none, 1⟩ _ := .parameter h
    rw [String.ofList_toList] at hspells
    exact ⟨[.ofKind .parameter name], .parameter rfl, List.forall_mem_singleton.mpr ⟨_, hspells⟩⟩

/-! ### Writing tokens out -/

/-- **Any row of tokens can be written out**, with a blank behind each of them. -/
theorem exists_spelled {ts : List Token} (h : ∀ t ∈ ts, t.IsLexical) :
    ∃ x, Spelled Spells ts x := by
  induction ts with
  | nil => exact ⟨[], .nil⟩
  | cons t ts ih =>
    obtain ⟨⟨x, hx⟩, hts⟩ := List.forall_mem_cons.mp h
    obtain ⟨r, hr⟩ := ih hts
    -- a blank prolongs no token
    have hapart : Apart t.kind x (' ' :: r) :=
      Sql.apart_of_clear_notEnd (clear_cons.mpr (by decide))
    exact ⟨x ++ ' ' :: r, .token hx hapart (.blank rfl hr)⟩

/-- **A source of a tree**: a text that parses to that tree, but for the lines of its tokens. -/
def IsSourceOf (s : String) (e : Expr) : Prop :=
  ∃ e', parse s = .ok e' ∧ e'.alike e ∧ e'.leaves = e.leaves

/-- **A tree of the shape of a parsed one has a source** if its callees are names and its leaves can
be spelled. -/
theorem exists_isSourceOf_of_shape_eq {s : String} {e e' : Expr} (h : parse s = .ok e)
    (hshape : e'.shape = e.shape) (hnamed : e'.hasNamedCallees)
    (hleaves : ∀ l ∈ e'.leaves, l.IsSpellable) : ∃ s', IsSourceOf s' e' := by
  obtain ⟨ts, hts, hderives, hlimit⟩ := exists_spelled_of_parse h
  obtain ⟨ts', hderives', hts'⟩ := hderives.of_shape_eq hts.isLexical hshape hnamed
    fun l hl => (hleaves l hl).derivableFrom
  obtain ⟨x, hx⟩ := exists_spelled hts'
  -- nesting is a matter of shape, so the limit that the old tree kept is kept by the new one
  have hwithin : Within Parser.maxLevels (.tier .disjunction) ts' e' :=
    ⟨hderives', Expr.nesting_eq_of_shape_eq hshape ▸ hlimit⟩
  have hx' : Spelled Spells ts' (String.ofList x).toList := by rwa [String.toList_ofList]
  obtain ⟨e'', hparse, hatLine⟩ := exists_parse_of_spelled hx' hwithin rfl
  refine ⟨String.ofList x, e'', hparse, Expr.alike_of_atLine_eq hatLine, ?_⟩
  rw [← Expr.leaves_atLine (n := 1) e'', hatLine, Expr.leaves_atLine]

/-! ### Passes that stay within the language -/

/-- **A pass over leaves that stays within the language**: what it puts in the place of a leaf that
can be spelled is another such leaf, whatever its state. -/
def AnswersSpellable (f : Leaf → StateM σ Answer) : Prop :=
  Pass.AnswersKeep Leaf.IsSpellable f

/-- **What such a pass makes of a parsed tree has a source.** -/
theorem AnswersSpellable.exists_isSourceOf {f : Leaf → StateM σ Answer} (hf : AnswersSpellable f)
    {s : String} {e : Expr} (h : parse s = .ok e) (st : σ) :
    ∃ r st' s', ((Pass.ofLeaf f).apply e).run st = (r, st') ∧ IsSourceOf s' r.tree := by
  obtain ⟨ts, hts, hwithin⟩ := exists_spelled_of_parse h
  obtain ⟨r, st', happly, hshape, hnamed, hleaves⟩ := hf.apply e st hwithin.1.hasNamedCallees
    (hwithin.1.isSpellable_of_mem_leaves hts.isLexical)
  obtain ⟨s', hs'⟩ := exists_isSourceOf_of_shape_eq h hshape hnamed hleaves
  exact ⟨r, st', s', happly, hs'⟩

/-! ### Upper case -/

/-- The characters of words are all in ASCII. -/
theorem toNat_lt_of_isWordPart {c : Char} (h : Lexer.isWordPart c) : c.toNat < 128 := by
  simp only [Lexer.isWordPart, Char.isAlphanum, Bool.or_eq_true] at h
  rcases h with (h | h) | h
  · have := toNat_of_isWordStart (c := c) (by simp [Lexer.isWordStart, h])
    omega
  · have := toNat_of_isDigit h
    omega
  · obtain rfl := eq_of_beq h
    decide

/-- **Upper case of the characters of words**: one character each, which is one of words again, not
in lower case, and may start a word if the old one may. -/
theorem upperChar_of_isWordPart {c : Char} (h : Lexer.isWordPart c) :
    ∃ c', Text.upperChar c = [c'] ∧ Lexer.isWordPart c' ∧ ¬ c'.isLower ∧
      (Lexer.isWordStart c → Lexer.isWordStart c') := by
  -- all of them are in ASCII, so the tables can be asked about each
  have hall : ((List.range 128).map Char.ofNat).all fun c => !Lexer.isWordPart c ||
      ((Text.upperChar c).length == 1 && (Text.upperChar c).all fun c' =>
        Lexer.isWordPart c' && !c'.isLower && (!Lexer.isWordStart c || Lexer.isWordStart c')) := by
    decide +kernel
  have hmem : c ∈ (List.range 128).map Char.ofNat :=
    List.mem_map.mpr ⟨c.toNat, List.mem_range.mpr (toNat_lt_of_isWordPart h), Char.ofNat_toNat c⟩
  have hc := List.all_eq_true.mp hall c hmem
  rw [h, Bool.not_true, Bool.false_or, Bool.and_eq_true] at hc
  obtain ⟨c', hc'⟩ := List.length_eq_one_iff.mp (eq_of_beq hc.1)
  rw [hc'] at hc
  simp only [List.all_cons, List.all_nil, Bool.and_true, Bool.and_eq_true, Bool.or_eq_true,
    Bool.not_eq_true'] at hc
  obtain ⟨-, ⟨hpart, hlower⟩, hstart⟩ := hc
  refine ⟨c', hc', hpart, by simp [hlower], fun hword => ?_⟩
  exact hstart.resolve_left (by simp [hword])

theorem upper_append (a b : String) : Text.upper (a ++ b) = Text.upper a ++ Text.upper b := by
  simp [Text.upper, List.flatMap_append, String.ofList_append]

/-- The upper case of a word is a word without lower case. -/
theorem isWord_upper {w : String} (h : isWord w.toList) :
    isWord (Text.upper w).toList ∧ ∀ c ∈ (Text.upper w).toList, ¬ c.isLower := by
  obtain ⟨hstart, hparts⟩ := Bool.and_eq_true_iff.mp h
  have hupper : (Text.upper w).toList = w.toList.flatMap Text.upperChar := String.toList_ofList
  have hmem : ∀ c ∈ (Text.upper w).toList, Lexer.isWordPart c ∧ ¬ c.isLower := by
    intro c hc
    rw [hupper] at hc
    obtain ⟨d, hd, hcd⟩ := List.mem_flatMap.mp hc
    obtain ⟨d', hd', hpart, hlower, -⟩ := upperChar_of_isWordPart (List.all_eq_true.mp hparts d hd)
    rw [hd'] at hcd
    obtain rfl := List.mem_singleton.mp hcd
    exact ⟨hpart, hlower⟩
  refine ⟨Bool.and_eq_true_iff.mpr ⟨?_, ?_⟩, fun c hc => (hmem c hc).2⟩
  · -- what may start a word may still do so in upper case
    obtain ⟨c, cs, hw, hc⟩ := exists_cons_of_isWord h
    rw [hw] at hparts
    obtain ⟨c', hc', -, -, hword⟩ :=
      upperChar_of_isWordPart (List.all_eq_true.mp hparts c (List.mem_cons_self ..))
    rw [hupper, hw, List.flatMap_cons, hc']
    exact hword hc
  · exact List.all_eq_true.mpr fun c hc => (hmem c hc).1

/-- Keywords are in lower case, so a word without lower case is none. -/
theorem ofKeyword?_eq_none {w : String} (h : isWord w.toList)
    (hlower : ∀ c ∈ w.toList, ¬ c.isLower) : Kind.ofKeyword? w = none := by
  cases hkeyword : Kind.ofKeyword? w with
  | none => rfl
  | some k =>
    obtain ⟨c, cs, hw, -⟩ := exists_cons_of_isWord h
    have hk : k.keyword? = some w := by
      have hfound := List.find?_some hkeyword
      exact eq_of_beq hfound
    -- the spelling of every keyword is at hand
    have hall : w.toList.all Char.isLower := by
      cases k <;> cases hk <;> rfl
    have hc : c ∈ w.toList := hw ▸ List.mem_cons_self ..
    exact absurd (List.all_eq_true.mp hall c hc) (hlower c hc)

/-- A name in upper case is still a name: none of its words is a keyword. -/
theorem IsDottedName.upper {name : String} (h : IsDottedName name) :
    IsDottedName (Text.upper name) := by
  have hsegment : ∀ {w : String}, isWord w.toList →
      isWord (Text.upper w).toList ∧ Kind.ofKeyword? (Text.upper w) = none := by
    intro w hw
    obtain ⟨hword, hlower⟩ := isWord_upper hw
    exact ⟨hword, ofKeyword?_eq_none hword hlower⟩
  induction h with
  | one hword _ => exact .one (hsegment hword).1 (hsegment hword).2
  | more _ hword _ ih =>
    have hdot : Text.upper "." = "." := by decide +kernel
    rw [upper_append, upper_append, hdot]
    exact .more ih (hsegment hword).1 (hsegment hword).2

/-- **Upper case stays within the language.** -/
theorem answersSpellable_upperCase : AnswersSpellable (Pass.upperCase (m := StateM σ)).leaf := by
  intro l s e hl hanswer
  cases l with
  | identifier name =>
    have hanswer : (if Text.upper name = name then Answer.keep
        else .replace (.identifier (Text.upper name))) = .replace e := hanswer
    -- a name that is in upper case already is kept
    split at hanswer
    · cases hanswer
    · cases hanswer
      exact ⟨.identifier (Text.upper name), rfl, IsDottedName.upper hl⟩
  | literal _ => cases hanswer
  | parameter _ => cases hanswer

/-! ### Numbered parameters -/

/-- The name of a numbered parameter is a word. -/
theorem isWord_numberedName (k : Nat) : isWord (numberedName k).toList := by
  have hname : (numberedName k).toList = '_' :: Digits.ofNat k := by
    rw [numberedName, String.toList_append, Nat.toList_repr]
    rfl
  -- an underscore starts a word, and digits go on with it
  rw [hname, isWord_cons, List.all_eq_true]
  refine ⟨by decide, fun c hc => ?_⟩
  simp [Lexer.isWordPart, Char.isAlphanum, Digits.isDigit_of_mem_ofNat hc]

/-- **Binding literals stays within the language.** -/
theorem answersSpellable_bindLiterals {ν : Type} :
    AnswersSpellable (Pass.bindLiterals (ν := ν) .numbered).leaf := by
  intro l b e hl hanswer
  cases l with
  | literal v =>
    have hanswer : Answer.replace (.parameter (numberedName (b.values ++ [v]).length)) =
        .replace e := hanswer
    cases hanswer
    exact ⟨_, rfl, isWord_numberedName _⟩
  | identifier _ => cases hanswer
  | parameter _ => cases hanswer

/-! ### Closure -/

/-- **The language is closed under passes that put leaves in the places of leaves.** Whatever a pass
makes of a parsed tree has a source, if its answers are leaves that can be spelled. So do a parsed
tree with its names in upper case, and one whose literals have become numbered parameters. -/
theorem exists_source_of_apply {s : String} {e : Expr} (h : parse s = .ok e) :
    (∀ (σ : Type) (f : Leaf → StateM σ Answer), AnswersSpellable f → ∀ st : σ,
      ∃ r st' s', ((Pass.ofLeaf f).apply e).run st = (r, st') ∧ IsSourceOf s' r.tree) ∧
    (∀ (σ : Type) (st : σ), ∃ r st' s',
      ((Pass.upperCase (m := StateM σ)).apply e).run st = (r, st') ∧ IsSourceOf s' r.tree) ∧
    ∀ (ν : Type) (b : Bindings ν), ∃ r b' s',
      ((Pass.bindLiterals .numbered).apply e).run b = (r, b') ∧ IsSourceOf s' r.tree :=
  ⟨fun _ _ hf st => hf.exists_isSourceOf h st,
    fun _ st => answersSpellable_upperCase.exists_isSourceOf h st,
    fun _ b => answersSpellable_bindLiterals.exists_isSourceOf h b⟩

/-- Answers one leaf after the other with a digit, whatever the leaf. -/
def answerDigits (_ : Leaf) : StateM Nat Answer :=
  fun n => (.replace (.literal (.integer (Int.ofNat (n % 10)))), n + 1)

theorem answersSpellable_answerDigits : AnswersSpellable answerDigits := by
  intro l n e _ hanswer
  have hanswer : Answer.replace (.literal (.integer (Int.ofNat (n % 10)))) = .replace e := hanswer
  cases hanswer
  have hmax : 10 ≤ Lexer.maxInteger := by decide
  have hlt : n % 10 < 10 := Nat.mod_lt n (by decide)
  exact ⟨_, rfl, Int.natCast_nonneg _, Int.ofNat_le.mpr (by omega)⟩

/-- The filter `A > 1`, which becomes `A > :_1` when its literal is bound. A pass that has a digit
for every leaf makes something of it that has a source too. -/
theorem exists_source_of_apply_compared :
    ∃ e e' r b, parse "A > 1" = .ok e ∧ parse "A > :_1" = .ok e' ∧
      ((Pass.bindLiterals .numbered).apply e).run Bindings.empty = (r, b) ∧ e'.alike r.tree ∧
      AnswersSpellable answerDigits ∧
      (∃ r st' s', ((Pass.ofLeaf answerDigits).apply e).run 3 = (r, st') ∧ IsSourceOf s' r.tree) ∧
      (∃ r st' s', ((Pass.upperCase (m := StateM Nat)).apply e).run 3 = (r, st') ∧
        IsSourceOf s' r.tree) ∧
      ∃ r b' s', ((Pass.bindLiterals .numbered).apply e).run Bindings.empty = (r, b') ∧
        IsSourceOf s' r.tree := by
  have hcheck : ((parse "A > 1").toOption.bind fun e => (parse "A > :_1").toOption.map fun e' =>
      e'.alike (((Pass.bindLiterals .numbered).apply e).run Bindings.empty).1.tree) =
        some true := by
    decide +kernel
  obtain ⟨e, he, hcheck⟩ := Option.bind_eq_some_iff.mp hcheck
  obtain ⟨e', he', halike⟩ := Option.map_eq_some_iff.mp hcheck
  have hparse := eq_ok_of_toOption he
  obtain ⟨hany, hupper, hbind⟩ := exists_source_of_apply hparse
  exact ⟨e, e', _, _, hparse, eq_ok_of_toOption he', rfl, halike, answersSpellable_answerDigits,
    hany Nat answerDigits answersSpellable_answerDigits 3, hupper Nat 3, hbind Unit .empty⟩

end WhereClause
