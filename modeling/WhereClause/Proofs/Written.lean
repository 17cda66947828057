import WhereClause.Proofs.SqlReading

/-!
# The SQL text of derived trees

A tree that the grammar derives from the tokens of a text is written as SQL in which these tokens
can be found again. Writing fails for truth values only (`Derives.text_failsIff`), and where it
succeeds its text is a piece that stands for the tokens of the derivation (`Derives.written`),
numbers being spelled in their shortest way.

The induction is on the derivation, with a text for each rule (`Rule.text`): arguments are written
without parentheses, and what is written for a target starts with the operator in front of it, since
a range turns `in` into `between`. Signs and operands are `tight`: they have no `and` of their own
outside of parentheses, so they may stand between a `between` and its `and`.

* `Rule.text` — what is written for a tree, by the rule that derives it;
* `Derives.text_failsIff` — only truth values cannot be written;
* `Derives.written` — what is written stands for the tokens of the derivation.
-/

namespace WhereClause

/-! ### Rules and texts -/

namespace Rule

/-- The text that is written for what a rule derives. -/
def text (q : Sql.Quoter) : Rule → Expr → Except SqlError String
  | target, e => Sql.targetText q e
  | arguments, .list items => Sql.itemsText q items
  | _, e => Sql.text q e

/-- The token in front of what a rule derives that its text begins with. -/
def lead : Rule → List Token
  | target => [Token.ofKind .kwIn ""]
  | _ => []

/-- Whether what the rule derives can be a bound of a range. -/
def isTight : Rule → Bool
  | unary | operand => true
  | _ => false

section Text

variable {q : Sql.Quoter} {e : Expr}

theorem text_tier {t : Tier} : (tier t).text q e = Sql.text q e :=
  rfl

theorem text_unary : unary.text q e = Sql.text q e :=
  rfl

theorem text_operand : operand.text q e = Sql.text q e :=
  rfl

theorem text_target : target.text q e = Sql.targetText q e :=
  rfl

theorem text_arguments {items : List Expr} :
    arguments.text q (.list items) = Sql.itemsText q items :=
  rfl

/-- The operands of all tiers are written by themselves. -/
theorem text_tier_operand {t : Tier} : t.operand.text q e = Sql.text q e := by
  cases t <;> rfl

end Text

end Rule

namespace Sql

variable {q : Quoter}

/-- Further expressions behind further expressions. -/
theorem moreText_append (hq : Steady q) (es fs : List Expr) :
    moreText q (es ++ fs) = joined (moreText q es) (moreText q fs) := by
  induction es with
  | nil =>
    rw [moreText_nil, List.nil_append]
    cases moreText q fs <;> simp [joined]
  | cons e es ih =>
    rw [List.cons_append, moreText_cons hq, moreText_cons hq, ih]
    cases text q e <;> cases moreText q es <;> cases moreText q fs <;>
      simp [joined, String.append_assoc]

/-- One more expression behind others. -/
theorem itemsText_concat (hq : Steady q) {es : List Expr} (hes : es ≠ []) (e : Expr) :
    itemsText q (es ++ [e]) = joined (itemsText q es) (joined (.ok ", ") (text q e)) := by
  -- the first expression has no comma in front, and all others have one
  obtain ⟨e', es, rfl⟩ := List.exists_cons_of_ne_nil hes
  rw [List.cons_append, itemsText_cons hq, itemsText_cons hq, moreText_append hq, moreText_cons hq,
    moreText_nil]
  cases text q e' <;> cases moreText q es <;> cases text q e <;>
    simp [joined, String.append_assoc]

/-- What is written for a range. -/
theorem targetText_range (hq : Steady q) {op : Token} (hop : op.kind = .dotDot)
    (first last : Expr) :
    targetText q (.binary first op last) =
      joined (.ok " between ") (joined (text q first) (joined (.ok " and ") (text q last))) := by
  have hrange : (Expr.binary first op last).isRange = true := by simp [Expr.isRange, hop]
  have hin : op.kind ≠ .kwIn := by simp [hop]
  rw [targetText, hrange, text_binary hq, if_neg hin, if_pos hop]
  · cases text q first <;> cases text q last <;> simp [joined, ← String.append_assoc]
  · intro items hitems
    cases hitems

/-- What is written for a target starts with a blank. -/
theorem targetText_starts {e : Expr} {a : String} (h : targetText q e = .ok a) :
    ∃ cs, a.toList = ' ' :: cs := by
  have hjoined : ∃ lead b, (lead = " in (" ∨ lead = " " ∨ lead = " in ") ∧ a = lead ++ b := by
    cases e with
    | list items =>
      obtain ⟨b, -, rfl⟩ := joined_ok_eq_ok.mp h
      exact ⟨_, b, .inl rfl, rfl⟩
    | _ =>
      obtain ⟨b, -, rfl⟩ := joined_ok_eq_ok.mp h
      refine ⟨_, b, ?_, rfl⟩
      split <;> simp
  obtain ⟨lead, b, hlead, rfl⟩ := hjoined
  rcases hlead with rfl | rfl | rfl <;> exact ⟨_, String.toList_append⟩

end Sql

/-! ### What can be written -/

/-- All operators of the grammar are written as they are, but for `in`. -/
theorem Kind.exists_sqlBinary? {t : Tier} {k : Kind} (h : k ∈ t.operators) (hin : k ≠ .kwIn) :
    k ≠ .dotDot ∧ ∃ s, k.sqlBinary? = some s := by
  cases t <;> cases k <;> simp_all [Tier.operators, Kind.sqlBinary?]

/-- Both signs are written. -/
theorem Kind.exists_sqlUnary? {k : Kind} (h : k ∈ [Kind.kwNot, Kind.minus]) :
    ∃ s, k.sqlUnary? = some s := by
  cases k <;> simp_all [Kind.sqlUnary?]

/-- Whether a leaf is a truth value. -/
def Leaf.isTruth : Leaf → Bool
  | literal (.boolean _) => true
  | _ => false

/-- There is a truth value among the leaves. -/
theorem any_isTruth_iff {ls : List Leaf} :
    ls.any Leaf.isTruth ↔ ∃ b, Leaf.literal (.boolean b) ∈ ls := by
  rw [List.any_eq_true]
  constructor
  · rintro ⟨l, hl, htruth⟩
    unfold Leaf.isTruth at htruth
    split at htruth
    · exact ⟨_, hl⟩
    · cases htruth
  · rintro ⟨b, hb⟩
    exact ⟨_, hb, rfl⟩

namespace Sql

/-- **What only truth values keep from being written**: where there is one, the complaint about it
is the result, and otherwise there is a text. -/
structure FailsIff (truth : Bool) (x : Except SqlError String) : Prop where
  error : truth = true → x = .error (.unsupportedLiteral "boolean")
  ok : truth = false → ∃ a, x = .ok a

namespace FailsIff

variable {b c : Bool} {x y : Except SqlError String}

theorem of_ok {a : String} (h : x = .ok a) : FailsIff false x :=
  ⟨nofun, fun _ => ⟨a, h⟩⟩

/-- The first truth value in a sequence ends the writing, and all before it is written. -/
theorem joined (hx : FailsIff b x) (hy : FailsIff c y) : FailsIff (b || c) (Sql.joined x y) := by
  -- what comes first decides if it fails, and otherwise the rest does
  cases b with
  | true =>
    rw [hx.error rfl]
    exact ⟨fun _ => rfl, nofun⟩
  | false =>
    obtain ⟨a, rfl⟩ := hx.ok rfl
    rw [Bool.false_or]
    cases c with
    | true =>
      rw [hy.error rfl]
      exact ⟨fun _ => rfl, nofun⟩
    | false =>
      obtain ⟨a', rfl⟩ := hy.ok rfl
      exact .of_ok rfl

/-- A fixed text in front. -/
theorem lead (s : String) (hy : FailsIff b y) : FailsIff b (Sql.joined (.ok s) y) := by
  have h := (of_ok (x := .ok s) rfl).joined hy
  rwa [Bool.false_or] at h

/-- A fixed text behind. -/
theorem close (s : String) (hx : FailsIff b x) : FailsIff b (Sql.joined x (.ok s)) := by
  have h := hx.joined (of_ok (x := .ok s) rfl)
  rwa [Bool.or_false] at h

/-- A change of the text. -/
theorem map (f : String → String) (hx : FailsIff b x) : FailsIff b (x.map f) where
  error hb := by rw [hx.error hb]; rfl
  ok hb := by
    obtain ⟨a, rfl⟩ := hx.ok hb
    exact ⟨f a, rfl⟩

end FailsIff

/-- Of all literals, truth values cannot be written. -/
theorem failsIff_value (mark : String) (v : Value) :
    FailsIff ([Leaf.literal v].any Leaf.isTruth) (text (Quoter.fixed mark) (.literal v)) := by
  cases v with
  | boolean b => exact ⟨fun _ => text_boolean b, nofun⟩
  | null => exact .of_ok text_null
  | integer n => exact .of_ok (text_integer n)
  | decimal d => exact .of_ok (text_decimal d)
  | string s => exact .of_ok (text_string mark s)

end Sql

section Success

variable {mark : String}

/-- **Only truth values cannot be written**, and wherever there is one among the leaves of a derived
tree the complaint is about that. -/
theorem Derives.text_failsIff {r : Rule} {ts : List Token} {e : Expr} (h : Derives r ts e) :
    Sql.FailsIff (e.leaves.any Leaf.isTruth) (r.text (Sql.Quoter.fixed mark) e) := by
  have hq := Sql.fixed_steady mark
  -- The operators of the grammar are those that can be written, and its lists stand behind `in`. So
  -- in all cases the texts of the parts are put together, with fixed texts between them.
  induction h with
  | lift _ ih =>
    rw [Rule.text_tier_operand] at ih
    exact ih
  | @chain t ts us op l r _ hop _ ihl ihr =>
    rw [Rule.text_tier] at ihl
    rw [Rule.text_tier, Sql.text_binary hq, Expr.leaves, List.any_append]
    -- only behind `in` does the right side have a rule, and a text, of its own
    by_cases hin : op.kind = .kwIn
    · rw [Tier.right, if_pos hin, Rule.text_target] at ihr
      rw [if_pos hin]
      exact ihl.joined ihr
    · obtain ⟨hrange, s, hs⟩ := Kind.exists_sqlBinary? hop hin
      rw [Tier.right, if_neg hin, Rule.text_tier_operand] at ihr
      rw [if_neg hin, if_neg hrange, hs]
      exact ihl.joined (ihr.lead _)
  | members _ _ _ ih =>
    rw [Rule.text_arguments] at ih
    rw [Rule.text_target, Sql.targetText]
    exact (ih.close _).lead _
  | range _ _ hop _ ihl ihr =>
    rw [Rule.text_unary] at ihl ihr
    rw [Rule.text_target, Sql.targetText_range hq hop, Expr.leaves, List.any_append]
    exact (ihl.joined (ihr.lead _)).lead _
  | signed hop _ ih =>
    obtain ⟨s, hs⟩ := Kind.exists_sqlUnary? hop
    rw [Rule.text_unary] at ih
    rw [Rule.text_unary, Sql.text_unary hq, hs]
    dsimp only
    split
    · exact (ih.map _).lead _
    · exact ih.lead _
  | plain _ ih => exact ih
  | parameter _ => exact .of_ok (Sql.text_parameter _)
  | @literal t v _ => exact Sql.failsIff_value mark v
  | name _ => exact .of_ok (Sql.text_identifier _)
  | callEmpty _ _ _ =>
    rw [Rule.text_operand, Sql.text_call hq, Sql.text_identifier, Sql.itemsText_nil]
    exact .of_ok rfl
  | call _ _ _ _ ih =>
    rw [Rule.text_arguments] at ih
    rw [Rule.text_operand, Sql.text_call hq, Sql.text_identifier]
    exact ((ih.close _).lead _).lead _
  | grouping _ _ _ ih =>
    rw [Rule.text_tier] at ih
    rw [Rule.text_operand, Sql.text_grouping hq]
    exact (ih.close _).lead _
  | argument _ ih =>
    rw [Rule.text_tier] at ih
    rw [Rule.text_arguments, Sql.itemsText_cons hq, Sql.moreText_nil, Expr.leaves, Expr.leavesOf,
      Expr.leavesOf, List.append_nil]
    exact ih.close _
  | @arguments ts us comma before e hbefore _ _ ihs ih =>
    rw [Rule.text_arguments] at ihs
    rw [Rule.text_tier] at ih
    rw [Rule.text_arguments, Sql.itemsText_concat hq hbefore.items_ne_nil, Expr.leaves,
      Expr.leavesOf_append, Expr.leavesOf, Expr.leavesOf, List.append_nil, List.any_append]
    exact ihs.joined (ih.lead _)

/-- Without truth values there is a text. -/
theorem Derives.exists_text {r : Rule} {ts : List Token} {e : Expr} (h : Derives r ts e)
    (hboolean : ∀ b, Leaf.literal (.boolean b) ∉ e.leaves) :
    ∃ a, r.text (Sql.Quoter.fixed mark) e = .ok a := by
  refine h.text_failsIff.ok (Bool.eq_false_iff.mpr fun htruth => ?_)
  obtain ⟨b, hb⟩ := any_isTruth_iff.mp htruth
  exact hboolean b hb

end Success

/-! ### Leaves as pieces -/

namespace Sql

/-- Without quotes there is nothing to escape. -/
theorem escaped_eq_self (mark : List Char) {cs : List Char} (h : '\'' ∉ cs) :
    escaped mark cs = cs := by
  induction cs with
  | nil => rfl
  | cons c cs ih =>
    have hc : c ≠ '\'' := fun hc => h (by simp [hc])
    have hcs : '\'' ∉ cs := fun hmem => h (List.mem_cons_of_mem _ hmem)
    rw [escaped, List.flatMap_cons, if_neg hc]
    exact congrArg (c :: ·) (ih hcs)

namespace Piece

variable {flags : List Bool} {t : Token}

/-- A token spelled in SQL as it may be spelled in the language stands for itself. -/
theorem value {t' : Token} {x : List Char} {v : Value} (h : WhereClause.Spells t' x)
    (hbare : t'.bare = t.bare) (hv : t.value? = some v) :
    Piece flags flags [t.bare] [t'] x notEnd := by
  have hkind := Token.kind_eq_of_bare_eq hbare
  have hother : ¬ isWatched t'.kind ∧ t'.kind ≠ .dotDot := by
    rw [hkind]
    unfold Token.value? at hv
    cases hk : t.kind <;> simp_all [isWatched]
  rw [← hbare]
  exact unwatched (.plain h) (fun y hy => apart_of_clear_notEnd hy) hother.1 hother.2

/-- **A literal is written as a token of the same value.** -/
theorem exists_literal {v : Value} {a mark : String} (h : t.IsLexical) (hv : t.value? = some v)
    (ha : text (Quoter.fixed mark) (.literal v) = .ok a) :
    ∃ t', ∀ flags, Piece flags flags [t.bare] [t'] a.toList notEnd := by
  obtain ⟨x, h⟩ := h
  cases h with
  | @fixed k s line hs =>
    -- three keywords have values, and truth values are not written
    have hk : k = .kwNull ∨ ∃ b, v = .boolean b := by
      cases k <;> cases hs <;> cases hv <;> simp
    rcases hk with rfl | ⟨b, rfl⟩
    · cases hs
      cases hv
      cases text_null.symm.trans ha
      exact ⟨⟨.kwNull, "null", none, line⟩, fun flags => value (.fixed rfl) rfl rfl⟩
    · rw [text_boolean] at ha
      cases ha
  | identifier _ _ => cases hv
  | parameter _ => cases hv
  | @string body line hbody =>
    -- a string of the language has no quote in it that would have to be doubled
    cases hv
    rw [text_string, String.toList_ofList, escaped_eq_self _ hbody] at ha
    cases ha
    rw [String.toList_ofList]
    exact ⟨⟨.string, _, some (.string (String.ofList body)), line⟩,
      fun flags => value (.string hbody) rfl rfl⟩
  | integer _ hmax =>
    -- the shortest spelling is another token, but of the same value
    cases hv
    cases (text_integer _).symm.trans ha
    have hrepr : ∀ n : Nat, (Int.ofNat n).repr.toList = Digits.ofNat n := fun n => Nat.toList_repr
    rw [hrepr]
    exact ⟨_, fun flags => value (spells_ofNat hmax 1) rfl rfl⟩
  | @decimal whole fraction d line hwhole hfraction hd =>
    cases hv
    cases (text_decimal _).symm.trans ha
    obtain ⟨whole', fraction', htext, hwhole', hfraction', hd'⟩ :=
      Decimal.exists_digits_of_ofDigits? hfraction hd
    rw [htext]
    exact ⟨⟨.number, _, some (.decimal d), line⟩,
      fun flags => value (.decimal hwhole' hfraction' hd') rfl rfl⟩

/-- **A parameter is written as a placeholder.** -/
theorem placeholder (h : t.IsLexical) (ht : t.kind = .parameter) :
    Piece flags flags [t.bare] [t] ("$\x7b" ++ t.lexeme ++ "\x7d").toList notEnd := by
  obtain ⟨hw, hliteral⟩ := h.isWord_of_parameter ht
  obtain ⟨kind, lexeme, literal, line⟩ := t
  cases ht
  cases hliteral
  have hspells : Spells ⟨.parameter, _, none, line⟩ _ := .placeholder hw
  rw [String.ofList_toList] at hspells
  rw [String.toList_append, String.toList_append]
  exact unwatched hspells (fun y hy => apart_of_clear_notEnd hy) Bool.false_ne_true nofun

end Piece

end Sql

/-! ### Derivations as pieces -/

/-- There is only one spelling of `in`. -/
theorem Token.IsLexical.bare_of_kwIn {t : Token} (h : t.IsLexical) (ht : t.kind = .kwIn) :
    t.bare = Token.ofKind .kwIn "" := by
  have hbare := (h.spells_of_spelling? (s := "in") (by rw [ht]; rfl)).2
  rw [hbare, ht]
  rfl

/-- **A text stands for tokens**, wherever what `r` derives may stand: if that is tight, also behind
a `between` that still waits for its `and`. -/
def Written (r : Rule) (ts : List Token) (a : String) : Prop :=
  ∃ S, ∀ (b : Bool) (flags : List Bool), (b → r.isTight) →
    Sql.Piece (b :: flags) (b :: flags) (r.lead ++ ts.map Token.bare) S a.toList Sql.notEnd

namespace Written

variable {t : Tier} {ts us : List Token} {op opening close : Token} {a c w : String}

theorem lift (h : Written t.operand ts a) : Written (.tier t) ts a := by
  obtain ⟨S, hS⟩ := h
  refine ⟨S, fun b flags hb => ?_⟩
  have hpiece := hS b flags fun h => absurd (hb h) Bool.false_ne_true
  cases t <;> exact hpiece

theorem plain (h : Written .operand ts a) : Written .unary ts a := by
  obtain ⟨S, hS⟩ := h
  exact ⟨S, fun b flags _ => hS b flags fun _ => rfl⟩

/-- What is not tight is written only where the flag is down. -/
theorem of_down {r : Rule} (S : List Token) (hr : r.isTight = false)
    (h : ∀ flags, Sql.Piece (false :: flags) (false :: flags) (r.lead ++ ts.map Token.bare) S
      a.toList Sql.notEnd) : Written r ts a := by
  refine ⟨S, fun b flags hb => ?_⟩
  cases b with
  | false => exact h flags
  | true => exact absurd (hr.symm.trans (hb rfl)) Bool.false_ne_true

/-- A target brings the operator in front of it along. -/
theorem target (hl : Written (.tier t) ts a) (hop : op.IsLexical) (hin : op.kind = .kwIn)
    (hr : Written .target us c) (hstarts : ∃ cs, c.toList = ' ' :: cs) :
    Written (.tier t) (ts ++ op :: us) (a ++ c) := by
  obtain ⟨Sl, hSl⟩ := hl
  obtain ⟨Sr, hSr⟩ := hr
  obtain ⟨cs, hcs⟩ := hstarts
  -- the text of the target begins with a blank, which prolongs nothing
  have hclear : ∀ y, Clear Sql.notEnd (c.toList ++ y) := by
    intro y
    rw [hcs]
    exact clear_cons.mpr (by decide)
  refine of_down (Sl ++ Sr) rfl fun flags => ?_
  have hpiece := (hSl false flags nofun).append (hSr false flags nofun) fun y _ => hclear y
  exact hpiece.congr (by simp [Rule.lead, hop.bare_of_kwIn hin]) String.toList_append.symm

/-- Every other operator is written as it is, between its operands. -/
theorem operator {s : String} (hl : Written (.tier t) ts a) (hop : op.IsLexical)
    (hs : op.kind.sqlBinary? = some s) (hr : Written t.operand us c) :
    Written (.tier t) (ts ++ op :: us) (a ++ (" " ++ s ++ " " ++ c)) := by
  obtain ⟨Sl, hSl⟩ := hl
  obtain ⟨Sr, hSr⟩ := hr
  refine of_down (Sl ++ ([op] ++ Sr)) rfl fun flags => ?_
  have hoperator := (Sql.Piece.operator hop hs).andThen (hSr false flags nofun)
  have hpiece := (hSl false flags nofun).append hoperator fun y _ => clear_cons.mpr (by decide)
  exact hpiece.congr (by cases t <;> simp [Rule.lead, Tier.operand]) (by simp)

/-- The bounds of a range are tight, so the `and` between them is the first to lower the flag. -/
theorem range (hl : Written .unary ts a) (hop : op.IsLexical) (hrange : op.kind = .dotDot)
    (hr : Written .unary us c) :
    Written .target (ts ++ op :: us) (" between " ++ (a ++ (" and " ++ c))) := by
  obtain ⟨Sl, hSl⟩ := hl
  obtain ⟨Sr, hSr⟩ := hr
  let S := [Token.ofKind .kwBetween ""] ++ (Sl ++ ([Token.ofKind .kwAnd ""] ++ Sr))
  refine of_down S rfl fun flags => ?_
  -- the flag is up while the first bound is written, and down again for the last
  have hlast := (Sql.Piece.upTo hop hrange).andThen (hSr false flags nofun)
  have hbounds := (hSl true flags fun _ => rfl).append hlast fun y _ => clear_cons.mpr (by decide)
  have hpiece := Sql.Piece.between.andThen hbounds
  exact hpiece.congr (by simp [Rule.lead]) (by simp)

/-- A sign, with a blank behind a minus sign if there has to be one. -/
theorem signed {s : String} (h : Written .unary ts a) (hop : op.IsLexical)
    (hs : op.kind.sqlUnary? = some s) :
    Written .unary (op :: ts) (s ++ a) ∧ Written .unary (op :: ts) (s ++ Sql.negated a) := by
  obtain ⟨S, hS⟩ := h
  constructor
  · refine ⟨[op] ++ S, fun b flags hb => ?_⟩
    have hpiece := (Sql.Piece.sign hop hs).andThen (hS b flags hb)
    exact hpiece.congr rfl String.toList_append.symm
  · refine ⟨[op] ++ S, fun b flags hb => ?_⟩
    have hpiece := (Sql.Piece.sign hop hs).andThen (hS b flags hb).negated
    exact hpiece.congr rfl String.toList_append.symm

/-- A dotted name. -/
theorem name (h : Named ts w) (hts : ∀ t ∈ ts, t.IsLexical) : Written .operand ts w := by
  have hall : Sql.expressionEnds.all (!Lexer.isWordPart ·) := rfl
  -- what may follow an expression is no part of a word
  have hend : ∀ c, Lexer.isWordPart c → Sql.notEnd c := by
    intro c hc
    rw [Sql.notEnd, Bool.not_eq_true', List.contains_eq_mem, decide_eq_false_iff_not]
    intro hmem
    simpa [hc] using List.all_eq_true.mp hall c hmem
  exact ⟨ts, fun b flags _ => (Sql.Piece.name h hts).mono hend⟩

/-- No arguments are written as nothing. -/
theorem noArguments : Written .arguments [] "" :=
  ⟨[], fun _ _ _ => Sql.Piece.nil.mono nofun⟩

theorem argument (h : Written (.tier .disjunction) ts a) : Written .arguments ts a := by
  obtain ⟨S, hS⟩ := h
  exact ⟨S, hS⟩

/-- One more argument, behind a comma. -/
theorem arguments {comma : Token} (hs : Written .arguments ts a) (hlexical : comma.IsLexical)
    (hcomma : comma.kind = .comma) (h : Written (.tier .disjunction) us c) :
    Written .arguments (ts ++ comma :: us) (a ++ (", " ++ c)) := by
  obtain ⟨Ss, hSs⟩ := hs
  obtain ⟨S, hS⟩ := h
  refine of_down (Ss ++ ([comma] ++ S)) rfl fun flags => ?_
  have hlast := (Sql.Piece.comma hlexical hcomma).andThen (hS false flags nofun)
  have hpiece := (hSs false flags nofun).append hlast fun y _ => clear_cons.mpr (by decide)
  exact hpiece.congr (by simp [Rule.lead]) (by simp)

section Parentheses

variable (ho : opening.IsLexical) (hopening : opening.kind = .leftParen) (hc : close.IsLexical)
  (hclose : close.kind = .rightParen)

include ho hopening hc hclose

/-- Parentheses have a flag of their own, so they may enclose anything anywhere. -/
theorem enclosed {r : Rule} (hr : r.lead = []) (h : Written r ts a) :
    ∃ S, ∀ flags, Sql.Piece flags flags ((opening :: ts ++ [close]).map Token.bare) S
      ('(' :: a.toList ++ [')']) Sql.notEnd := by
  obtain ⟨S, hS⟩ := h
  refine ⟨[opening] ++ (S ++ [close]), fun flags => ?_⟩
  -- the flag that the opening parenthesis adds is down, and stays so up to the closing one
  have hinner := (hS false flags nofun).followed (Sql.Piece.closing hc hclose) (by decide)
  have hpiece := (Sql.Piece.opening ho hopening).andThen hinner
  exact (hpiece.mono nofun).congr (by simp [hr]) (by simp)

/-- A list of members, behind the operator in front of it. -/
theorem members (h : Written .arguments ts a) :
    Written .target (opening :: ts ++ [close]) (" in (" ++ (a ++ ")")) := by
  obtain ⟨S, hS⟩ := enclosed ho hopening hc hclose rfl h
  refine of_down ([Token.ofKind .kwIn ""] ++ S) rfl fun flags => ?_
  have hpiece := Sql.Piece.membership.andThen (hS (false :: flags))
  exact hpiece.congr rfl (by simp)

/-- An expression in parentheses may stand anywhere, also as a bound of a range. -/
theorem grouping (h : Written (.tier .disjunction) ts a) :
    Written .operand (opening :: ts ++ [close]) ("(" ++ (a ++ ")")) := by
  obtain ⟨S, hS⟩ := enclosed ho hopening hc hclose rfl h
  refine ⟨S, fun b flags _ => ?_⟩
  exact (hS (b :: flags)).congr rfl (by simp)

/-- A call may stand anywhere, as its arguments are in parentheses. -/
theorem call (h : Named ts w) (hts : ∀ t ∈ ts, t.IsLexical) (hargs : Written .arguments us a) :
    Written .operand (ts ++ opening :: us ++ [close]) (w ++ ("(" ++ (a ++ ")"))) := by
  obtain ⟨S, hS⟩ := enclosed ho hopening hc hclose rfl hargs
  refine ⟨ts ++ S, fun b flags _ => ?_⟩
  have hpiece := (Sql.Piece.name h hts).append (hS (b :: flags))
    fun y _ => clear_cons.mpr (by decide)
  exact hpiece.congr (by simp [Rule.lead]) (by simp)

end Parentheses

end Written

/-- **What is written for a derived tree stands for the tokens of the derivation.** -/
theorem Derives.written {r : Rule} {ts : List Token} {e : Expr} {mark a : String}
    (h : Derives r ts e) (hts : ∀ t ∈ ts, t.IsLexical)
    (ha : r.text (Sql.Quoter.fixed mark) e = .ok a) : Written r ts a := by
  have hq := Sql.fixed_steady mark
  induction h generalizing a with
  | lift _ ih =>
    rw [Rule.text_tier, ← Rule.text_tier_operand] at ha
    exact (ih hts ha).lift
  | @chain t ts us op l r _ hop _ ihl ihr =>
    have hlexical : op.IsLexical := hts op (by simp)
    have htsl : ∀ t ∈ ts, t.IsLexical := fun t ht => hts t (by simp [ht])
    have htsr : ∀ t ∈ us, t.IsLexical := fun t ht => hts t (by simp [ht])
    rw [Rule.text_tier, Sql.text_binary hq] at ha
    by_cases hin : op.kind = .kwIn
    · -- the text of the target begins with the operator, or with what it has become
      rw [if_pos hin] at ha
      obtain ⟨al, ar, hal, har, rfl⟩ := Sql.joined_eq_ok.mp ha
      have hright : t.right op.kind = .target := if_pos hin
      rw [hright] at ihr
      exact (ihl htsl hal).target hlexical hin (ihr htsr har) (Sql.targetText_starts har)
    · -- what is on the right is an operand of the tier, with the operator in front of it
      obtain ⟨hrange, s, hs⟩ := Kind.exists_sqlBinary? hop hin
      rw [if_neg hin, if_neg hrange, hs] at ha
      obtain ⟨al, rest, hal, hrest, rfl⟩ := Sql.joined_eq_ok.mp ha
      obtain ⟨ar, har, rfl⟩ := Sql.joined_ok_eq_ok.mp hrest
      have hright : t.right op.kind = t.operand := if_neg hin
      rw [hright] at ihr
      rw [← Rule.text_tier_operand] at har
      exact (ihl htsl hal).operator hlexical hs (ihr htsr har)
  | @members opening close ts items hopening _ hclose ih =>
    rw [Rule.text_target, Sql.targetText] at ha
    obtain ⟨rest, hrest, rfl⟩ := Sql.joined_ok_eq_ok.mp ha
    obtain ⟨c, hc, rfl⟩ := Sql.joined_ok_right_eq_ok.mp hrest
    exact .members (hts _ (by simp)) hopening (hts _ (by simp)) hclose
      (ih (fun t ht => hts t (by simp [ht])) hc)
  | @range ts us op first last _ _ hop _ ihl ihr =>
    rw [Rule.text_target, Sql.targetText_range hq hop] at ha
    obtain ⟨rest, hrest, rfl⟩ := Sql.joined_ok_eq_ok.mp ha
    obtain ⟨al, rest', hal, hrest', rfl⟩ := Sql.joined_eq_ok.mp hrest
    obtain ⟨ar, har, rfl⟩ := Sql.joined_ok_eq_ok.mp hrest'
    exact (ihl (fun t ht => hts t (by simp [ht])) hal).range (hts _ (by simp)) hop
      (ihr (fun t ht => hts t (by simp [ht])) har)
  | @signed op ts x hop _ ih =>
    obtain ⟨s, hs⟩ := Kind.exists_sqlUnary? hop
    rw [Rule.text_unary, Sql.text_unary hq, hs] at ha
    obtain ⟨rest, hrest, rfl⟩ := Sql.joined_ok_eq_ok.mp ha
    have hwritten : ∀ {c}, Sql.text (Sql.Quoter.fixed mark) x = .ok c → Written .unary ts c :=
      ih fun t ht => hts t (by simp [ht])
    split at hrest
    · -- behind a minus sign a blank may have been added
      cases hx : Sql.text (Sql.Quoter.fixed mark) x with
      | error e =>
        rw [hx] at hrest
        cases hrest
      | ok c =>
        rw [hx] at hrest
        cases hrest
        exact ((hwritten hx).signed (hts _ (by simp)) hs).2
    · exact ((hwritten hrest).signed (hts _ (by simp)) hs).1
  | plain _ ih => exact (ih hts ha).plain
  | parameter ht =>
    cases (Sql.text_parameter _).symm.trans ha
    exact ⟨_, fun b flags _ => .placeholder (hts _ (by simp)) ht⟩
  | literal hv =>
    -- the token that is written may be another one than that of the source, of the same value
    obtain ⟨t', ht'⟩ := Sql.Piece.exists_literal (hts _ (by simp)) hv ha
    exact ⟨[t'], fun b flags _ => ht' (b :: flags)⟩
  | name hname =>
    cases (Sql.text_identifier _).symm.trans ha
    exact .name hname hts
  | @callEmpty ts name opening close hname hopening hclose =>
    rw [Rule.text_operand, Sql.text_call hq, Sql.text_identifier, Sql.itemsText_nil] at ha
    cases ha
    have hwritten := Written.call (hts opening (by simp)) hopening (hts close (by simp)) hclose
      hname (fun t ht => hts t (by simp [ht])) .noArguments
    rwa [List.append_assoc] at hwritten
  | @call ts us name opening close args hname hopening _ hclose ih =>
    rw [Rule.text_operand, Sql.text_call hq, Sql.text_identifier] at ha
    obtain ⟨rest, hrest, rfl⟩ := Sql.joined_ok_eq_ok.mp ha
    obtain ⟨rest', hrest', rfl⟩ := Sql.joined_ok_eq_ok.mp hrest
    obtain ⟨c, hc, rfl⟩ := Sql.joined_ok_right_eq_ok.mp hrest'
    exact .call (hts _ (by simp)) hopening (hts _ (by simp)) hclose hname
      (fun t ht => hts t (by simp [ht])) (ih (fun t ht => hts t (by simp [ht])) hc)
  | @grouping opening close ts e hopening _ hclose ih =>
    rw [Rule.text_operand, Sql.text_grouping hq] at ha
    obtain ⟨rest, hrest, rfl⟩ := Sql.joined_ok_eq_ok.mp ha
    obtain ⟨c, hc, rfl⟩ := Sql.joined_ok_right_eq_ok.mp hrest
    exact .grouping (hts _ (by simp)) hopening (hts _ (by simp)) hclose
      (ih (fun t ht => hts t (by simp [ht])) hc)
  | argument _ ih =>
    rw [Rule.text_arguments, Sql.itemsText_cons hq, Sql.moreText_nil] at ha
    obtain ⟨c, hc, rfl⟩ := Sql.joined_ok_right_eq_ok.mp ha
    rw [String.append_empty]
    exact (ih hts hc).argument
  | @arguments ts us comma before e hbefore hcomma _ ihs ih =>
    rw [Rule.text_arguments, Sql.itemsText_concat hq hbefore.items_ne_nil] at ha
    obtain ⟨c, rest, hc, hrest, rfl⟩ := Sql.joined_eq_ok.mp ha
    obtain ⟨d, hd, rfl⟩ := Sql.joined_ok_eq_ok.mp hrest
    exact (ihs (fun t ht => hts t (by simp [ht])) hc).arguments (hts _ (by simp)) hcomma
      (ih (fun t ht => hts t (by simp [ht])) hd)

end WhereClause
