import WhereClause.Proofs.Relining
import WhereClause.Proofs.Written

/-!
# Filters and their SQL text

What the SQL text of a filter says about the filter. The text that is written for a parsed tree
stands for the tokens of the source, so the tokens can be read back from it, and with them the tree:
two filters with the same SQL text have trees that are alike. Where the tree has no parameter and no
range, the SQL text is a text of the language itself; it parses to the same tree and is its own SQL
text.

Both statements compare trees up to lines, which is how far tokens that are equal in their bare
forms determine a tree (`Within.atLine_eq_of_bare_eq`).

* `exists_spelled_of_parse`, `exists_parse_of_spelled` — a text parses to a tree iff it is spelled
  by tokens that derive the tree within the limit;
* `Sql.text_atLine_eq_ok` — lines do not show in SQL text;
* `exists_resolved` — the tokens of a source, found again in its SQL text;
* `exists_spelled_text` — without parameters and ranges, SQL text is spelled by these very tokens.
-/

namespace WhereClause

/-! ### Texts and trees -/

/-- A text with a token in it is not blank. -/
theorem not_blank_of_spelled {ts : List Token} {x : List Char} (h : Spelled Spells ts x)
    (hts : ts ≠ []) : ¬ x.all Text.whiteSpace.contains := by
  induction h with
  | nil => exact absurd rfl hts
  | blank _ _ ih =>
    intro hall
    exact ih hts (Bool.and_eq_true_iff.mp hall).2
  | token ht _ _ _ =>
    intro hall
    obtain ⟨c, cs, rfl, hc⟩ := ht.starts
    exact not_whiteSpace_of_isGraphic hc (Bool.and_eq_true_iff.mp hall).1

/-- The tokens of a text are those in front of the end marker. -/
theorem tokens_ofList_eof {ts : List Token} (h : ∀ t ∈ ts, t.IsLexical) (n : Nat) :
    (TokenStream.ofList (ts ++ [Token.eof n])).tokens = ts := by
  have hts : ∀ t ∈ ts, (t.kind != .eof) = true := by
    intro t ht
    obtain ⟨x, hx⟩ := h t ht
    simpa using hx.kind_ne_eof
  change (ts ++ [Token.eof n]).takeWhile (fun t => t.kind != .eof) = ts
  rw [List.takeWhile_append_of_pos hts]
  simp [Token.eof]

/-- **The tokens of a source that parses.** -/
theorem exists_scan_of_parse {s : String} {e : Expr} (h : parse s = .ok e) :
    ∃ ts n, scan s = .ok (ts ++ [Token.eof n]) ∧ Spelled Spells ts s.toList ∧
      Within Parser.maxLevels (.tier .disjunction) ts e := by
  unfold parse at h
  split at h
  · cases h
  · cases hscan : scan s with
    | error e =>
      rw [hscan] at h
      cases h
    | ok tokens =>
      rw [hscan] at h
      dsimp only at h
      -- the last token is the end marker, which the parser does not see
      obtain ⟨ts, n, rfl, hts⟩ := Lexer.spelled_of_tokens hscan
      refine ⟨ts, n, rfl, hts, ?_⟩
      cases hparse : (TokenStream.ofList (ts ++ [Token.eof n])).parse.1 with
      | error e =>
        rw [hparse] at h
        cases h
      | ok e' =>
        rw [hparse] at h
        cases h
        have hwithin := TokenStream.parse_eq_ok_iff.mp hparse
        rwa [tokens_ofList_eof hts.isLexical] at hwithin

/-- **The tokens that spell a source that parses.** -/
theorem exists_spelled_of_parse {s : String} {e : Expr} (h : parse s = .ok e) :
    ∃ ts, Spelled Spells ts s.toList ∧ Within Parser.maxLevels (.tier .disjunction) ts e := by
  obtain ⟨ts, n, -, hts, hwithin⟩ := exists_scan_of_parse h
  exact ⟨ts, hts, hwithin⟩

/-- The limit does not depend on lines. -/
theorem Within.of_bare_eq {n : Nat} {r : Rule} {ts us : List Token} {e : Expr}
    (h : Within n r ts e) (hbare : us.map Token.bare = ts.map Token.bare) :
    ∃ e', Within n r us e' ∧ e'.atLine 1 = e.atLine 1 := by
  obtain ⟨e', hderives, hatLine⟩ := h.1.of_bare_eq hbare
  have hnesting : e'.nesting = e.nesting := by
    rw [← Expr.nesting_atLine (n := 1) e', hatLine, Expr.nesting_atLine]
  exact ⟨e', ⟨hderives, hnesting ▸ h.2⟩, hatLine⟩

/-- Trees within the limit are the same up to lines if their tokens have the same bare forms. -/
theorem Within.atLine_eq_of_bare_eq {ts us : List Token} {e e' : Expr}
    (h : Within Parser.maxLevels (.tier .disjunction) ts e)
    (h' : Within Parser.maxLevels (.tier .disjunction) us e')
    (hbare : us.map Token.bare = ts.map Token.bare) : e'.atLine 1 = e.atLine 1 := by
  obtain ⟨e'', hwithin, hatLine⟩ := h.of_bare_eq hbare
  rw [h'.unique hwithin, hatLine]

/-- **A text that is spelled by the tokens of a tree** parses to that tree, up to lines. -/
theorem exists_parse_of_spelled {s : String} {ts us : List Token} {e : Expr}
    (hus : Spelled Spells us s.toList) (h : Within Parser.maxLevels (.tier .disjunction) ts e)
    (hbare : us.map Token.bare = ts.map Token.bare) :
    ∃ e', parse s = .ok e' ∧ e'.atLine 1 = e.atLine 1 := by
  -- the tokens that are read differ from those that spell the text in their lines only
  obtain ⟨vs, n, hscan, hatLine⟩ := Lexer.tokens_of_spelled hus 1
  have hbare' : vs.map Token.bare = ts.map Token.bare := by
    have hlines := congrArg (List.map Token.bare) hatLine
    simp only [List.map_map, Function.comp_def, Token.bare_atLine] at hlines
    exact hlines.trans hbare
  obtain ⟨vs', n', heq, hvs'⟩ := Lexer.spelled_of_tokens hscan
  obtain ⟨rfl, -⟩ := List.append_inj' heq rfl
  -- a tree has a token at least, so the text is not blank
  have hblank : ¬ Text.isBlank s := by
    refine not_blank_of_spelled hvs' ?_
    rintro rfl
    obtain ⟨t, ts', rfl, -⟩ := h.1.starts
    cases hbare'
  obtain ⟨e', hwithin, he'⟩ := h.of_bare_eq hbare'
  refine ⟨e', ?_, he'⟩
  have hparse : (TokenStream.ofList (vs ++ [Token.eof n])).parse.1 = .ok e' := by
    rw [TokenStream.parse_eq_ok_iff, tokens_ofList_eof hvs'.isLexical]
    exact hwithin
  have hscan : scan s = .ok (vs ++ [Token.eof n]) := hscan
  rw [parse, if_neg hblank, hscan]
  dsimp only
  rw [hparse]

/-! ### SQL text up to lines -/

/-- Changing errors leaves results. -/
theorem mapError_eq_ok {ε ε' α : Type} {f : ε → ε'} {x : Except ε α} {a : α} :
    x.mapError f = .ok a ↔ x = .ok a := by
  cases x with
  | error e => exact iff_of_false nofun nofun
  | ok b =>
    change Except.ok b = Except.ok a ↔ _
    rw [Except.ok.injEq, Except.ok.injEq]

/-- **Lines do not show in SQL text.** -/
theorem Sql.text_atLine_eq_ok {q : Quoter} {n : Nat} (e : Expr) (a : String) :
    text q (e.atLine n) = .ok a ↔ text q e = .ok a := by
  rw [← mapError_eq_ok (f := SqlError.atLine n), text_atLine, mapError_eq_ok]

/-! ### Finding the tokens again -/

/-- **The tokens of a source are found again in its SQL text.** There are as many words `between` as
there were ranges. -/
theorem exists_resolved {ts : List Token} {e : Expr} {mark a : String}
    (h : Derives (.tier .disjunction) ts e) (hts : ∀ t ∈ ts, t.IsLexical)
    (ha : Sql.text (Sql.Quoter.fixed mark) e = .ok a) :
    ∃ S, Spelled Sql.Spells S a.toList ∧
      (Sql.resolve [false] S).map Token.bare = ts.map Token.bare ∧
      Sql.countKind .kwBetween S = Sql.countKind .dotDot (ts.map Token.bare) := by
  obtain ⟨S, hS⟩ := h.written hts ha
  -- the text starts outside of all ranges, and there is nothing in front of it
  have hpiece := hS false [] nofun
  have hspelled := hpiece.spelled clear_nil .nil
  have hresolved := hpiece.resolved []
  rw [List.append_nil, List.append_nil] at hspelled
  rw [List.append_nil] at hresolved
  refine ⟨S, hspelled, ?_, hpiece.ranges⟩
  simpa [Sql.resolve, Rule.lead] using hresolved

/-- SQL text without placeholders is a text of the language. -/
theorem Sql.spelled_of_ne_parameter {ts : List Token} {x : List Char}
    (h : Spelled Sql.Spells ts x) (hts : ∀ t ∈ ts, t.kind ≠ .parameter) :
    Spelled WhereClause.Spells ts x := by
  induction h with
  | nil => exact .nil
  | blank hc _ ih => exact .blank hc (ih hts)
  | token ht hr _ ih =>
    obtain ⟨hkind, hts⟩ := List.forall_mem_cons.mp hts
    cases ht with
    | plain ht => exact .token ht hr (ih hts)
    | placeholder _ => exact absurd rfl hkind

/-! ### Compiling without passes -/

/-- **Compiling without passes** is parsing and writing. -/
theorem compile_nil_eq_ok_iff {q : Sql.Quoter} {s t : String} :
    compile (m := Id) [] q s = .ok t ↔ ∃ e, parse s = .ok e ∧ Sql.text q e = .ok t := by
  constructor
  · intro h
    -- with no pass to run, nothing stands between parsing and writing
    unfold compile parseWith parseThen at h
    cases hparse : parse s with
    | error e =>
      rw [hparse] at h
      cases h
    | ok e =>
      simp only [hparse, List.map_nil, rewriteInTurn, pure_bind] at h
      cases htext : Sql.text q e with
      | error e' =>
        simp only [htext] at h
        cases h
      | ok a =>
        simp only [htext] at h
        cases h
        exact ⟨e, rfl, htext⟩
  · rintro ⟨e, hparse, htext⟩
    unfold compile parseWith parseThen
    simp only [hparse, List.map_nil, rewriteInTurn, pure_bind, htext]
    rfl

/-! ### Reading SQL text as a filter -/

/-- **Trees that are written in the language itself**: without truth values, which have no SQL text,
and without parameters and ranges, which are written in another way. -/
def Expr.isPlain (e : Expr) : Bool :=
  e.leaves.all (fun
    | .literal (.boolean _) | .parameter _ => false
    | _ => true) &&
  e.operators.all (·.kind != .dotDot)

namespace Expr

variable {e : Expr}

/-- There is no truth value in a plain tree. -/
theorem boolean_not_mem_of_isPlain (h : e.isPlain) (b : Bool) :
    Leaf.literal (.boolean b) ∉ e.leaves := by
  intro hmem
  have hall := List.all_eq_true.mp (Bool.and_eq_true_iff.mp h).1 _ hmem
  cases hall

/-- There is no parameter in a plain tree. -/
theorem parameter_not_mem_of_isPlain (h : e.isPlain) (name : String) :
    Leaf.parameter name ∉ e.leaves := by
  intro hmem
  have hall := List.all_eq_true.mp (Bool.and_eq_true_iff.mp h).1 _ hmem
  cases hall

/-- There is no range in a plain tree. -/
theorem ne_dotDot_of_isPlain (h : e.isPlain) : ∀ op ∈ e.operators, op.kind ≠ .dotDot := by
  intro op hop
  have hall := List.all_eq_true.mp (Bool.and_eq_true_iff.mp h).2 op hop
  simpa using hall

end Expr

/-- Without a range in the tree there is none among its tokens. -/
theorem Derives.kind_ne_dotDot {r : Rule} {ts : List Token} {e : Expr} (h : Derives r ts e)
    (hplain : e.isPlain) : ∀ t ∈ ts, t.kind ≠ .dotDot := by
  intro t ht hkind
  have hop : t ∈ e.operators := by
    rw [h.operators_eq]
    exact List.mem_filter.mpr ⟨ht, by simp [Token.isOperator, hkind]⟩
  exact Expr.ne_dotDot_of_isPlain hplain t hop hkind

/-- Without a parameter in the tree there is none among its tokens. -/
theorem Derives.kind_ne_parameter {r : Rule} {ts : List Token} {e : Expr} (h : Derives r ts e)
    (hplain : e.isPlain) : ∀ t ∈ ts, t.kind ≠ .parameter := by
  intro t ht hkind
  have hleaf : Leaf.parameter t.lexeme ∈ ts.filterMap Token.leaf? :=
    List.mem_filterMap.mpr ⟨t, ht, by simp [Token.leaf?, hkind]⟩
  rw [← h.leaves_eq] at hleaf
  exact Expr.parameter_not_mem_of_isPlain hplain _ (List.mem_filter.mp hleaf).1

/-- **SQL text without placeholders and ranges is spelled by the tokens of the source**, up to lines
and the digits of numbers. -/
theorem exists_spelled_text {ts : List Token} {e : Expr} {mark a : String}
    (h : Derives (.tier .disjunction) ts e) (hts : ∀ t ∈ ts, t.IsLexical) (hplain : e.isPlain)
    (ha : Sql.text (Sql.Quoter.fixed mark) e = .ok a) :
    ∃ S, Spelled Spells S a.toList ∧ S.map Token.bare = ts.map Token.bare := by
  obtain ⟨S, hspelled, hresolved, hcount⟩ := exists_resolved h hts ha
  have hbetween : ∀ t ∈ S, t.kind ≠ .kwBetween := by
    -- no range was there, so none was written
    have hzero : Sql.countKind .dotDot (ts.map Token.bare) = 0 := by
      refine List.countP_eq_zero.mpr fun t ht => ?_
      obtain ⟨t', ht', rfl⟩ := List.mem_map.mp ht
      simpa using h.kind_ne_dotDot hplain t' ht'
    rw [hzero] at hcount
    intro t ht hkind
    exact List.countP_eq_zero.mp hcount t ht (by simp [hkind])
  rw [Sql.resolve_eq_self hbetween (by simp)] at hresolved
  refine ⟨S, Sql.spelled_of_ne_parameter hspelled ?_, hresolved⟩
  -- now the tokens of the text are those of the source, and these have no parameter
  intro t ht hkind
  have hmem : t.bare ∈ ts.map Token.bare := hresolved ▸ List.mem_map_of_mem ht
  obtain ⟨t', ht', hbare⟩ := List.mem_map.mp hmem
  exact h.kind_ne_parameter hplain t' ht' ((Token.kind_eq_of_bare_eq hbare).trans hkind)

/-- **SQL text is read as what it was written for.** A filter without truth values, parameters and
ranges has an SQL text; that text parses to a tree that is alike, with the very same leaves, and
compiles to itself. -/
theorem parse_text_doubled {s : String} {e : Expr} (h : parse s = .ok e) (hplain : e.isPlain) :
    ∃ q, Sql.text Sql.Quoter.doubled e = .ok q ∧
      (∃ e', parse q = .ok e' ∧ e'.alike e ∧ e'.leaves = e.leaves) ∧
      compile (m := Id) [] Sql.Quoter.doubled q = .ok q := by
  obtain ⟨ts, hts, hwithin⟩ := exists_spelled_of_parse h
  obtain ⟨q, hq⟩ : ∃ q, Sql.text Sql.Quoter.doubled e = .ok q :=
    hwithin.1.exists_text (Expr.boolean_not_mem_of_isPlain hplain)
  -- the same bare tokens spell the SQL text, so it parses to the same tree up to lines
  obtain ⟨S, hS, hbare⟩ := exists_spelled_text hwithin.1 hts.isLexical hplain hq
  obtain ⟨e', he', hatLine⟩ := exists_parse_of_spelled hS hwithin hbare
  have hleaves : e'.leaves = e.leaves := by
    rw [← Expr.leaves_atLine (n := 1) e', hatLine, Expr.leaves_atLine]
  have htext : Sql.text Sql.Quoter.doubled e' = .ok q := by
    rw [← Sql.text_atLine_eq_ok (n := 1), hatLine, Sql.text_atLine_eq_ok]
    exact hq
  exact ⟨q, hq, ⟨e', he', Expr.alike_of_atLine_eq hatLine, hleaves⟩,
    compile_nil_eq_ok_iff.mpr ⟨e', he', htext⟩⟩

/-- A filter on two lines, with leading and trailing zeros and two signs in a row. -/
theorem parse_text_doubled_zeros :
    ∃ e, parse "a . b in (007, null)\nor not - -x < 1.50" = .ok e ∧ e.isPlain ∧
      ∃ q, Sql.text Sql.Quoter.doubled e = .ok q ∧
        (∃ e', parse q = .ok e' ∧ e'.alike e ∧ e'.leaves = e.leaves) ∧
        compile (m := Id) [] Sql.Quoter.doubled q = .ok q := by
  obtain ⟨e, hparse, hplain⟩ := exists_ok_of_any (p := Expr.isPlain)
    (x := parse "a . b in (007, null)\nor not - -x < 1.50") (by decide +kernel)
  exact ⟨e, hparse, hplain, parse_text_doubled hparse hplain⟩

/-! ### Telling filters apart by their SQL text -/

/-- **Different filters have different SQL texts**: filters with the same one are alike. -/
theorem alike_of_compile_eq {s₁ s₂ t : String}
    (h₁ : compile (m := Id) [] Sql.Quoter.doubled s₁ = .ok t)
    (h₂ : compile (m := Id) [] Sql.Quoter.doubled s₂ = .ok t) :
    ∃ e₁ e₂, parse s₁ = .ok e₁ ∧ parse s₂ = .ok e₂ ∧ e₁.alike e₂ := by
  obtain ⟨e₁, hparse₁, htext₁⟩ := compile_nil_eq_ok_iff.mp h₁
  obtain ⟨e₂, hparse₂, htext₂⟩ := compile_nil_eq_ok_iff.mp h₂
  obtain ⟨ts₁, hts₁, hwithin₁⟩ := exists_spelled_of_parse hparse₁
  obtain ⟨ts₂, hts₂, hwithin₂⟩ := exists_spelled_of_parse hparse₂
  obtain ⟨S₁, hS₁, hresolved₁, -⟩ := exists_resolved hwithin₁.1 hts₁.isLexical htext₁
  obtain ⟨S₂, hS₂, hresolved₂, -⟩ := exists_resolved hwithin₂.1 hts₂.isLexical htext₂
  -- the same text is spelled by the same tokens, and these stand for the tokens of both sources
  have hbare : ts₁.map Token.bare = ts₂.map Token.bare := by
    rw [← hresolved₁, ← hresolved₂, ← Sql.resolve_map_atLine 1 [false] S₁,
      ← Sql.resolve_map_atLine 1 [false] S₂, Sql.spelled_unique hS₁ hS₂]
  exact ⟨e₁, e₂, hparse₁, hparse₂,
    Expr.alike_of_atLine_eq (hwithin₂.atLine_eq_of_bare_eq hwithin₁ hbare)⟩

/-- Two spellings of a filter in which one `and` belongs to a range and the other does not. -/
theorem alike_of_compile_eq_range :
    compile (m := Id) [] Sql.Quoter.doubled "x in 1 .. :p and y" =
        .ok "x between 1 and $\x7bp\x7d and y" ∧
      compile (m := Id) [] Sql.Quoter.doubled "x in 01..:p\n and y" =
        .ok "x between 1 and $\x7bp\x7d and y" ∧
      ∃ e₁ e₂, parse "x in 1 .. :p and y" = .ok e₁ ∧ parse "x in 01..:p\n and y" = .ok e₂ ∧
        e₁.alike e₂ := by
  have h₁ : compile (m := Id) [] Sql.Quoter.doubled "x in 1 .. :p and y" =
      .ok "x between 1 and $\x7bp\x7d and y" := eq_ok_of_toOption (by decide +kernel)
  have h₂ : compile (m := Id) [] Sql.Quoter.doubled "x in 01..:p\n and y" =
      .ok "x between 1 and $\x7bp\x7d and y" := eq_ok_of_toOption (by decide +kernel)
  exact ⟨h₁, h₂, alike_of_compile_eq h₁ h₂⟩

end WhereClause
