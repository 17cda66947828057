import WhereClause.Proofs.Parameters
import WhereClause.Proofs.Sources
import WhereClause.Proofs.SqlGrouping

/-!
# What placeholders stand for

An SQL text has a placeholder for every parameter of the tree that it was written for, in the order
of the tree (`Sql.placeholders_of_text`). For a filter whose literals are bound, these are the
parameters that the filter has written and a numbered name for each literal.

The names are made without a look at the filter, which may use them itself. A placeholder then
stands both for a literal and for what the filter has written; this is the only way in which it can
stand for anything but its literal.

* `Token.parameter?` — the name that a placeholder has in an SQL text;
* `Sql.placeholders_of_text` — the placeholders of an SQL text, from its tree;
* `IsNthLiteral` — the literals of a list of leaves, counted from one;
* `bound_eq_numbered_iff`, `bound_only_literal_iff` — where a numbered parameter stands.
-/

namespace WhereClause

/-! ### Placeholders in SQL text -/

/-- The name of a parameter, from its token. In an SQL text it is the name of a placeholder. -/
def Token.parameter? (t : Token) : Option String :=
  if t.kind = .parameter then some t.lexeme else none

namespace Token

theorem parameter?_of_ne {t : Token} (h : t.kind ≠ .parameter) : t.parameter? = none :=
  if_neg h

/-- The bare form of a token keeps the name of a parameter; only numbers lose their lexemes. -/
@[simp] theorem parameter?_bare (t : Token) : t.bare.parameter? = t.parameter? := by
  by_cases hkind : t.kind = .parameter
  · simp [parameter?, bare, hkind]
  · have hbare : t.bare.kind ≠ .parameter := hkind
    rw [parameter?_of_ne hbare, parameter?_of_ne hkind]

/-- The parameter that a token names is the one of the leaf that it makes. -/
theorem bind_parameter?_leaf? (t : Token) : t.leaf?.bind Leaf.parameter? = t.parameter? := by
  by_cases hkind : t.kind = .parameter
  · rw [leaf?_of_parameter hkind, parameter?, if_pos hkind]
    rfl
  · -- all other leaves are literals
    rw [leaf?_of_ne_parameter hkind, parameter?_of_ne hkind]
    cases t.value? <;> rfl

end Token

/-- The parameters that tokens name, with and without lines and the lexemes of numbers. -/
theorem filterMap_parameter?_of_bare_eq {ts us : List Token}
    (h : us.map Token.bare = ts.map Token.bare) :
    us.filterMap Token.parameter? = ts.filterMap Token.parameter? := by
  have hbare : ∀ ts : List Token,
      (ts.map Token.bare).filterMap Token.parameter? = ts.filterMap Token.parameter? := by
    intro ts
    rw [List.filterMap_map]
    exact congrArg (List.filterMap · ts) (funext Token.parameter?_bare)
  rw [← hbare us, h, hbare]

/-- The parameters of a tree are those that its tokens name, in their order. -/
theorem Derives.filterMap_parameter? {r : Rule} {ts : List Token} {e : Expr} (h : Derives r ts e) :
    ts.filterMap Token.parameter? = e.leaves.filterMap Leaf.parameter? := by
  rw [← filterMap_filter_isUnnamed e.leaves fun _ => rfl, h.leaves_eq, List.filterMap_filterMap]
  exact congrArg (List.filterMap · ts) (funext fun t => t.bind_parameter?_leaf?.symm)

namespace Sql

/-- **A range neither makes a placeholder nor takes one away.** -/
theorem filterMap_parameter?_resolve (flags : List Bool) (ts : List Token) :
    (resolve flags ts).filterMap Token.parameter? = ts.filterMap Token.parameter? := by
  induction ts generalizing flags with
  | nil => rfl
  | cons t ts ih =>
    rw [resolve]
    split
    · rw [List.filterMap_cons, List.filterMap_cons, ih]
    · rw [List.filterMap_cons, List.filterMap_cons, ih]
    · -- the word `between` is put back as `in`
      next hkind =>
        have hnone : t.parameter? = none := Token.parameter?_of_ne (by simp [hkind])
        rw [List.filterMap_cons_none hnone, List.filterMap_cons_none rfl, ih]
    · next hkind =>
        have hnone : t.parameter? = none := Token.parameter?_of_ne (by simp [hkind])
        rw [List.filterMap_cons_none hnone]
        -- an `and` is put back as the mark of a range, or it stays
        split
        · rw [List.filterMap_cons_none rfl, ih]
        · rw [List.filterMap_cons_none hnone, ih]
    · rw [List.filterMap_cons, List.filterMap_cons, ih]

/-- **The placeholders of an SQL text are the parameters of its tree**, from left to right. -/
theorem placeholders_of_text {ts : List Token} {e : Expr} {mark a : String}
    (h : Derives (.tier .disjunction) ts e) (hts : ∀ t ∈ ts, t.IsLexical)
    (ha : text (Quoter.fixed mark) e = .ok a) :
    (tokens a.toList).map (List.filterMap Token.parameter?) =
      some (e.leaves.filterMap Leaf.parameter?) := by
  -- the tokens of the text stand for those of the tree, and no parameter is lost on the way
  obtain ⟨S, hspelled, hresolved, -⟩ := exists_resolved h hts ha
  have hlines : (S.map (·.atLine 1)).filterMap Token.parameter? = S.filterMap Token.parameter? := by
    rw [List.filterMap_map]
    rfl
  rw [tokens_of_spelled hspelled, Option.map_some, hlines, ← filterMap_parameter?_resolve [false],
    filterMap_parameter?_of_bare_eq hresolved, h.filterMap_parameter?]

end Sql

/-! ### The tree that is written -/

namespace Style

/-- The passes of a style stay within the language. -/
theorem exists_answersSpellable (style : Style) :
    ∀ p ∈ style.passes, ∃ f, p = Pass.ofLeaf f ∧ AnswersSpellable f := by
  have hupper : ∃ f, Pass.upperCase (m := StateM (Bindings Unit)) = Pass.ofLeaf f ∧
      AnswersSpellable f := ⟨_, rfl, answersSpellable_upperCase⟩
  have hbind : ∃ f, Pass.bindLiterals (ν := Unit) .numbered = Pass.ofLeaf f ∧
      AnswersSpellable f := ⟨_, rfl, answersSpellable_bindLiterals⟩
  refine List.forall_mem_append.mpr ⟨?_, ?_⟩
  · split
    · exact List.forall_mem_singleton.mpr hupper
    · exact List.forall_mem_nil _
  · split
    · exact List.forall_mem_singleton.mpr hbind
    · exact List.forall_mem_nil _

/-- **The tree that a style makes of a filter is derived from tokens that can be spelled**, like the
tree of the filter. -/
theorem exists_derives_of_run (style : Style) {s : String} {e e' : Expr} {b : Bindings Unit}
    (h : parse s = .ok e) (hrun : (parseWith style.passes s).run .empty = (.ok e', b)) :
    DerivableFrom Token.IsLexical (.tier .disjunction) e' := by
  obtain ⟨ts, hts, hderives, -⟩ := exists_spelled_of_parse h
  obtain ⟨e'', b', hpasses, hshape, hnamed, hleaves⟩ := run_applyPasses_keep
    style.exists_answersSpellable .empty hderives.hasNamedCallees
    (hderives.isSpellable_of_mem_leaves hts.isLexical)
  -- both speak of the one run of the passes
  obtain ⟨hok, rfl⟩ := Prod.mk.inj ((run_parseWith_of_ok h hpasses).symm.trans hrun)
  obtain rfl := Except.ok.inj hok
  exact hderives.of_shape_eq hts.isLexical hshape hnamed fun l hl => (hleaves l hl).derivableFrom

/-- **The placeholders of what is written for a filter**, in any style. -/
theorem placeholders_of_run (style : Style) {s sql : String} {e e' : Expr} {b : Bindings Unit}
    (h : parse s = .ok e) (hrun : (parseWith style.passes s).run .empty = (.ok e', b))
    (hsql : Sql.text style.quoting.quoter e' = .ok sql) :
    (Sql.tokens sql.toList).map (List.filterMap Token.parameter?) =
      some (e'.leaves.filterMap Leaf.parameter?) := by
  obtain ⟨ts, hderives, hts⟩ := style.exists_derives_of_run h hrun
  -- both ways to write a quote are fixed texts
  cases hquoting : style.quoting with
  | doubled =>
    rw [hquoting] at hsql
    exact Sql.placeholders_of_text hderives hts hsql
  | backslash =>
    rw [hquoting] at hsql
    exact Sql.placeholders_of_text hderives hts hsql

end Style

/-! ### Values and placeholders in the order of the source -/

/-- **Values and placeholders come in the order of the source.** A filter that parses has an SQL
text with its literals bound. The values are those of its literal tokens in their order. The
placeholders of the text, which are the parameters of the tree that is written, are the parameters
of the source and the numbered names, each where its token stands. -/
theorem exists_fragment_of_parse {s : String} {e : Expr} (h : parse s = .ok e) (quoting : Quoting)
    (upper : Bool) :
    ∃ tokens sql params e',
      scan s = .ok tokens ∧
      Style.fragment ⟨true, quoting, upper⟩ s = .ok ⟨sql, some params⟩ ∧
      (tokens.filter Token.isValued).map Token.value? = params.map some ∧
      (parseWith (Style.passes ⟨true, quoting, upper⟩) s).run .empty = (.ok e', ⟨params, ()⟩) ∧
      Sql.text quoting.quoter e' = .ok sql ∧
      (Sql.tokens sql.toList).map (List.filterMap Token.parameter?) =
        some (placeholders 0 tokens) ∧
      e'.leaves.filterMap Leaf.parameter? = placeholders 0 tokens := by
  obtain ⟨tokens, hscan, hvalued, hleaves⟩ := exists_scan_leaves_of_parse h
  obtain ⟨e', sql, hparse, hsql, hfragment, hleaves'⟩ :=
    Style.exists_bound_of_parse ⟨true, quoting, upper⟩ rfl h
  have hplaceholders : e'.leaves.filterMap Leaf.parameter? = placeholders 0 tokens := by
    rw [hleaves', filterMap_parameter?_numberLeaves, hleaves, placeholders_eq hvalued]
  refine ⟨tokens, sql, e.literals, e', hscan, hfragment, ?_, hparse, hsql, ?_, hplaceholders⟩
  · rw [map_value?_filter_isValued hvalued, ← filterMap_value?_leaf?, ← hleaves,
      filterMap_value?_filter_isUnnamed]
    rfl
  · rw [← hplaceholders]
    exact Style.placeholders_of_run _ h hparse hsql

/-- A filter on two lines that has a parameter between its literals, and writes one of the numbered
names itself. -/
def boundExample : String :=
  "f(1.50, :x) in ('a', :_1)\nor not b = true"

theorem exists_parse_boundExample : ∃ e, parse boundExample = .ok e := by
  have hcheck : (parse boundExample).toOption.isSome := by decide +kernel
  obtain ⟨e, he⟩ := Option.isSome_iff_exists.mp hcheck
  exact ⟨e, eq_ok_of_toOption he⟩

theorem exists_fragment_of_parse_boundExample :
    ∃ e, parse boundExample = .ok e ∧
      ∃ tokens sql params e',
        scan boundExample = .ok tokens ∧
        Style.fragment ⟨true, .backslash, true⟩ boundExample = .ok ⟨sql, some params⟩ ∧
        (tokens.filter Token.isValued).map Token.value? = params.map some ∧
        (parseWith (Style.passes ⟨true, .backslash, true⟩) boundExample).run .empty =
          (.ok e', ⟨params, ()⟩) ∧
        Sql.text Quoting.backslash.quoter e' = .ok sql ∧
        (Sql.tokens sql.toList).map (List.filterMap Token.parameter?) =
          some (placeholders 0 tokens) ∧
        e'.leaves.filterMap Leaf.parameter? = placeholders 0 tokens := by
  obtain ⟨e, hparse⟩ := exists_parse_boundExample
  exact ⟨e, hparse, exists_fragment_of_parse hparse .backslash true⟩

/-! ### Numbered parameters -/

/-- **The `k`-th literal stands at the place `i`** in a list of leaves and has the value `v`.
Literals are counted from one. -/
def IsNthLiteral (ls : List Leaf) (k i : Nat) (v : Value) : Prop :=
  ls[i]? = some (.literal v) ∧ literalsBefore ls i + 1 = k

/-- The value of the `k`-th literal is the `k`-th value. -/
theorem getElem?_literalsBefore {ls : List Leaf} {i : Nat} {v : Value}
    (h : ls[i]? = some (.literal v)) :
    (ls.filterMap Leaf.value?)[literalsBefore ls i]? = some v := by
  induction ls generalizing i with
  | nil => cases h
  | cons l ls ih =>
    cases i with
    | zero =>
      obtain rfl : l = .literal v := Option.some.inj h
      rfl
    | succ i => cases l <;> exact ih h

/-- Renaming moves no parameters. -/
theorem getElem?_map_rename_eq_parameter_iff {f : String → String} {ls : List Leaf} {i : Nat}
    {name : String} :
    (ls.map (Leaf.rename f))[i]? = some (.parameter name) ↔ ls[i]? = some (.parameter name) := by
  rw [List.getElem?_map]
  cases ls[i]? with
  | none => rfl
  | some l => cases l <;> simp [Leaf.rename]

/-- The parameters of a filter are those that its tokens name. -/
theorem parameter_mem_leaves_iff {tokens : List Token} {e : Expr}
    (h : e.leaves.filter Leaf.isUnnamed = tokens.filterMap Token.leaf?) {name : String} :
    Leaf.parameter name ∈ e.leaves ↔ ∃ t ∈ tokens, t.kind = .parameter ∧ t.lexeme = name := by
  have hfilter : Leaf.parameter name ∈ e.leaves ↔
      Leaf.parameter name ∈ e.leaves.filter Leaf.isUnnamed := by
    simp [List.mem_filter, Leaf.isUnnamed]
  rw [hfilter, h, List.mem_filterMap]
  simp only [Token.leaf?_eq_parameter_iff]

section Bound

variable {ls : List Leaf} {k : Nat} (f : String → String)

/-- Where a numbered parameter stands, with the names changed or not: where it was written, and
where the literal with that number was. -/
theorem bound_eq_numbered_iff (i : Nat) :
    ((numberLeaves 0 ls).map (Leaf.rename f))[i]? = some (.parameter (numberedName k)) ↔
      ls[i]? = some (.parameter (numberedName k)) ∨
        ∃ v, IsNthLiteral ls k i v ∧ (ls.filterMap Leaf.value?)[k - 1]? = some v := by
  rw [getElem?_map_rename_eq_parameter_iff, getElem?_numberLeaves_eq_parameter_iff, Nat.zero_add]
  refine or_congr Iff.rfl (exists_congr fun v => ⟨?_, ?_⟩)
  · rintro ⟨hi, hname⟩
    -- different numbers have different names
    obtain rfl : k = literalsBefore ls i + 1 := numberedName_inj hname
    exact ⟨⟨hi, rfl⟩, getElem?_literalsBefore hi⟩
  · rintro ⟨⟨hi, rfl⟩, -⟩
    exact ⟨hi, rfl⟩

/-- A numbered parameter stands for its literal alone just where it was not written. -/
theorem bound_only_literal_iff :
    (∀ i, ((numberLeaves 0 ls).map (Leaf.rename f))[i]? = some (.parameter (numberedName k)) →
        ∃ v, IsNthLiteral ls k i v) ↔
      Leaf.parameter (numberedName k) ∉ ls := by
  constructor
  · -- a parameter that was written stays at its place, and there was no literal there
    intro honly hmem
    obtain ⟨i, hi⟩ := List.mem_iff_getElem?.mp hmem
    obtain ⟨v, hliteral, -⟩ := honly i ((bound_eq_numbered_iff f i).mpr (.inl hi))
    rw [hi] at hliteral
    cases hliteral
  · intro hnot i hi
    rcases (bound_eq_numbered_iff f i).mp hi with hwritten | ⟨v, hliteral, -⟩
    · exact absurd (List.mem_of_getElem? hwritten) hnot
    · exact ⟨v, hliteral⟩

end Bound

/-- **A numbered placeholder stands for its literal, and for nothing else unless the filter writes
the name itself.** The literals and parameters of the filter are those of its tokens, in their
order. The placeholders of the SQL text, read from left to right, are the parameters of the tree
that is written. There the parameter `_k` stands where the filter has its `k`-th literal, whose
value is the `k`-th one, and where the filter has written a parameter `_k`. -/
theorem numbered_placeholder_iff {s : String} {e : Expr} (h : parse s = .ok e) (quoting : Quoting)
    (upper : Bool) :
    ∃ tokens sql params e',
      scan s = .ok tokens ∧
      e.leaves.filter Leaf.isUnnamed = tokens.filterMap Token.leaf? ∧
      Style.fragment ⟨true, quoting, upper⟩ s = .ok ⟨sql, some params⟩ ∧
      (parseWith (Style.passes ⟨true, quoting, upper⟩) s).run .empty = (.ok e', ⟨params, ()⟩) ∧
      Sql.text quoting.quoter e' = .ok sql ∧
      (Sql.tokens sql.toList).map (List.filterMap Token.parameter?) =
        some (e'.leaves.filterMap Leaf.parameter?) ∧
      ∀ k,
        (∀ i, e'.leaves[i]? = some (.parameter (numberedName k)) ↔
          e.leaves[i]? = some (.parameter (numberedName k)) ∨
            ∃ v, IsNthLiteral e.leaves k i v ∧ params[k - 1]? = some v) ∧
        ((∀ i, e'.leaves[i]? = some (.parameter (numberedName k)) →
            ∃ v, IsNthLiteral e.leaves k i v) ↔
          ∀ t ∈ tokens, t.kind = .parameter → t.lexeme ≠ numberedName k) := by
  obtain ⟨tokens, hscan, -, htokens⟩ := exists_scan_leaves_of_parse h
  obtain ⟨e', sql, hparse, hsql, hfragment, hleaves⟩ :=
    Style.exists_bound_of_parse ⟨true, quoting, upper⟩ rfl h
  refine ⟨tokens, sql, e.literals, e', hscan, htokens, hfragment, hparse, hsql,
    Style.placeholders_of_run _ h hparse hsql, fun k => ?_⟩
  have hwritten : Leaf.parameter (numberedName k) ∉ e.leaves ↔
      ∀ t ∈ tokens, t.kind = .parameter → t.lexeme ≠ numberedName k := by
    rw [parameter_mem_leaves_iff htokens]
    simp
  rw [hleaves, ← hwritten]
  exact ⟨bound_eq_numbered_iff _, bound_only_literal_iff _⟩

/-- The same filter in another style. -/
theorem numbered_placeholder_iff_boundExample :
    ∃ e, parse boundExample = .ok e ∧
      ∃ tokens sql params e',
        scan boundExample = .ok tokens ∧
        e.leaves.filter Leaf.isUnnamed = tokens.filterMap Token.leaf? ∧
        Style.fragment ⟨true, .doubled, false⟩ boundExample = .ok ⟨sql, some params⟩ ∧
        (parseWith (Style.passes ⟨true, .doubled, false⟩) boundExample).run .empty =
          (.ok e', ⟨params, ()⟩) ∧
        Sql.text Quoting.doubled.quoter e' = .ok sql ∧
        (Sql.tokens sql.toList).map (List.filterMap Token.parameter?) =
          some (e'.leaves.filterMap Leaf.parameter?) ∧
        ∀ k,
          (∀ i, e'.leaves[i]? = some (.parameter (numberedName k)) ↔
            e.leaves[i]? = some (.parameter (numberedName k)) ∨
              ∃ v, IsNthLiteral e.leaves k i v ∧ params[k - 1]? = some v) ∧
          ((∀ i, e'.leaves[i]? = some (.parameter (numberedName k)) →
              ∃ v, IsNthLiteral e.leaves k i v) ↔
            ∀ t ∈ tokens, t.kind = .parameter → t.lexeme ≠ numberedName k) := by
  obtain ⟨e, hparse⟩ := exists_parse_boundExample
  exact ⟨e, hparse, numbered_placeholder_iff hparse .doubled false⟩

/-- **The numbered names are not always new.** In `:_1 = 5` the name of the parameter that was
written is also the name for the literal, so one placeholder stands for both. -/
theorem numbered_name_not_fresh :
    ∃ e, parse ":_1 = 5" = .ok e ∧ e.leaves = [.parameter (numberedName 1), .literal (.integer 5)] ∧
      Style.fragment ⟨true, .doubled, false⟩ ":_1 = 5" =
        .ok ⟨"$\x7b_1\x7d = $\x7b_1\x7d", some [.integer 5]⟩ := by
  have hcheck : (parse ":_1 = 5").toOption.map Expr.leaves =
      some [.parameter (numberedName 1), .literal (.integer 5)] := by decide +kernel
  have hfragment : (Style.fragment ⟨true, .doubled, false⟩ ":_1 = 5").toOption =
      some ⟨"$\x7b_1\x7d = $\x7b_1\x7d", some [.integer 5]⟩ := by decide +kernel
  obtain ⟨e, he, hleaves⟩ := Option.map_eq_some_iff.mp hcheck
  exact ⟨e, eq_ok_of_toOption he, hleaves, eq_ok_of_toOption hfragment⟩

end WhereClause
