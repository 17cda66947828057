import WhereClause.Proofs.Parameters
import WhereClause.Proofs.Sources

/-!
# Filters never ask the quoter

What is written for a quote is asked for where a string has a quote in it, and nowhere else. A
source has no way to put one there, since a quote ends its string, and the passes for names and
literals bring no strings of their own. So no tree that is compiled ever comes to the quoter, and
the SQL text of a filter, or the reason why it has none, is the same whatever stands for a quote.

The quoter is an arbitrary writer here. It may fail, write whatever it likes and look at the sink,
so its text is of no use for a comparison. What is compared are the renderers themselves: on a tree
whose strings have no quotes, two of them with different quoters are one and the same writer
(`Sql.render_eq_of_isQuoteFree`), on every sink.

* `Leaf.IsQuoteFree` — leaves that are written without the quoter;
* `Pass.IsStandard` — the passes for names and literals, whatever namer these have;
* `Sql.render_eq_of_isQuoteFree` — without quotes in its strings, a tree is written alike by all;
* `run_parseWith_isQuoteFree` — the passes leave the strings of a parsed tree without quotes.
-/

namespace WhereClause

variable {σ : Type}

/-! ### Trees without quotes in their strings -/

/-- **A leaf that is written without the quoter**: any but a string with a quote in it. -/
def Leaf.IsQuoteFree : Leaf → Prop
  | literal (.string s) => '\'' ∉ s.toList
  | _ => True

/-- What the language can spell has no quotes. -/
theorem Leaf.IsSpellable.isQuoteFree {l : Leaf} (h : l.IsSpellable) : l.IsQuoteFree := by
  cases l with
  | identifier _ => trivial
  | parameter _ => trivial
  | literal v =>
    cases v with
    | string s => exact h
    | _ => trivial

namespace Sql

/-- Characters that are no quotes are written as they are. -/
theorem renderChars_eq_of_not_mem (q q' : Quoter) {cs : List Char} (h : '\'' ∉ cs) :
    renderChars q cs = renderChars q' cs := by
  induction cs with
  | nil => rfl
  | cons c cs ih =>
    obtain ⟨hc, hcs⟩ := not_or.mp fun hmem => h (List.mem_cons.mpr hmem)
    rw [renderChars, renderChars, if_neg (Ne.symm hc), if_neg (Ne.symm hc), ih hcs]

/-- Leaves without quotes. -/
theorem renderLeaf_eq_of_isQuoteFree (q q' : Quoter) {l : Leaf} (h : l.IsQuoteFree) :
    renderLeaf q l = renderLeaf q' l := by
  cases l with
  | identifier _ => rfl
  | parameter _ => rfl
  | literal v =>
    cases v with
    | string s =>
      rw [renderLeaf, renderLeaf, renderValue, renderValue, renderChars_eq_of_not_mem q q' h]
    | _ => rfl

mutual

/-- **The quoter makes no difference** to a tree whose strings have no quotes. -/
theorem render_eq_of_isQuoteFree (q q' : Quoter) : ∀ e : Expr,
    (∀ l ∈ e.leaves, l.IsQuoteFree) → render q e = render q' e
  | .leaf l, h => by
    rw [render, render]
    exact renderLeaf_eq_of_isQuoteFree q q' (h l (List.mem_singleton.mpr rfl))
  | .unary op x, h => by
    -- the operand of a minus sign is written apart, by the same writer in both
    rw [render, render, render_eq_of_isQuoteFree q q' x h]
  | .binary l op r, h => by
    obtain ⟨hleft, hright⟩ := List.forall_mem_append.mp h
    have hl := render_eq_of_isQuoteFree q q' l hleft
    have hr := render_eq_of_isQuoteFree q q' r hright
    rw [render.eq_def, render.eq_def]
    cases r with
    | list items =>
      have hitems := renderItems_eq_of_isQuoteFree q q' items hright
      simp only [hl, hr, hitems]
    | _ => simp only [hl, hr]
  | .grouping x, h => by
    rw [render, render, render_eq_of_isQuoteFree q q' x h]
  | .call callee close args, h => by
    obtain ⟨hcallee, hargs⟩ := List.forall_mem_append.mp h
    rw [render, render, render_eq_of_isQuoteFree q q' callee hcallee,
      renderItems_eq_of_isQuoteFree q q' args hargs]
  | .list items, _ => by
    rw [render, render]

/-- Items without quotes. -/
theorem renderItems_eq_of_isQuoteFree (q q' : Quoter) : ∀ es : List Expr,
    (∀ l ∈ Expr.leavesOf es, l.IsQuoteFree) → renderItems q es = renderItems q' es
  | [], _ => by
    rw [renderItems, renderItems]
  | e :: es, h => by
    obtain ⟨he, hes⟩ := List.forall_mem_append.mp h
    rw [renderItems, renderItems, render_eq_of_isQuoteFree q q' e he,
      renderMore_eq_of_isQuoteFree q q' es hes]

/-- Further items without quotes. -/
theorem renderMore_eq_of_isQuoteFree (q q' : Quoter) : ∀ es : List Expr,
    (∀ l ∈ Expr.leavesOf es, l.IsQuoteFree) → renderMore q es = renderMore q' es
  | [], _ => by
    rw [renderMore, renderMore]
  | e :: es, h => by
    obtain ⟨he, hes⟩ := List.forall_mem_append.mp h
    rw [renderMore, renderMore, render_eq_of_isQuoteFree q q' e he,
      renderMore_eq_of_isQuoteFree q q' es hes]

end

/-- The SQL text is the same with every quoter. -/
theorem text_eq_of_isQuoteFree (q q' : Quoter) {e : Expr} (h : ∀ l ∈ e.leaves, l.IsQuoteFree) :
    text q e = text q' e := by
  rw [text, text, render_eq_of_isQuoteFree q q' e h]

end Sql

/-- **No string of a source has a quote in it.** -/
theorem isQuoteFree_of_parse {s : String} {e : Expr} (h : parse s = .ok e) :
    ∀ l ∈ e.leaves, l.IsQuoteFree := by
  obtain ⟨ts, hts, hderives, -⟩ := exists_spelled_of_parse h
  intro l hl
  exact (hderives.isSpellable_of_mem_leaves hts.isLexical l hl).isQuoteFree

/-! ### Passes that bring no quotes -/

namespace Pass

/-- **The passes for names and literals.** They put names into upper or lower case, or parameters in
the places of literals, with any namer. All passes that are used together share one state, and each
pass for literals has its own part of it: what it finds there and puts back leaves all as it is. -/
inductive IsStandard : Pass (StateM σ) → Prop
  | upperCase : IsStandard upperCase
  | lowerCase : IsStandard lowerCase
  | bindLiterals {ν : Type} (namer : Namer ν) (get : σ → Bindings ν) (set : Bindings ν → σ → σ) :
      (∀ st, set (get st) st = st) → IsStandard (focus get set (bindLiterals namer))

/-- Another name is a leaf without quotes, and so are all leaves that are kept. -/
theorem answersKeep_rename (f : String → String) :
    AnswersKeep Leaf.IsQuoteFree (rename (m := StateM σ) f).leaf := by
  intro l st e _ hanswer
  cases l with
  | identifier name =>
    have hanswer : (if f name = name then Answer.keep
        else .replace (.identifier (f name))) = .replace e := hanswer
    split at hanswer
    · cases hanswer
    · cases hanswer
      exact ⟨.identifier (f name), rfl, trivial⟩
  | literal _ => cases hanswer
  | parameter _ => cases hanswer

/-- A parameter is a leaf without quotes, whatever its name. -/
theorem answersKeep_bindLiterals {ν : Type} (namer : Namer ν) (get : σ → Bindings ν)
    (set : Bindings ν → σ → σ) :
    AnswersKeep Leaf.IsQuoteFree (focus get set (bindLiterals namer)).leaf := by
  intro l st e _ hanswer
  cases l with
  | literal v =>
    have hanswer : Answer.replace (.parameter (namer ((get st).values ++ [v]).length v
        (get st).naming).1) = .replace e := hanswer
    cases hanswer
    exact ⟨_, rfl, trivial⟩
  | identifier _ => cases hanswer
  | parameter _ => cases hanswer

/-- **Standard passes look at leaves only**, and bring no quotes. -/
theorem IsStandard.exists_ofLeaf {p : Pass (StateM σ)} (h : p.IsStandard) :
    ∃ f, p = ofLeaf f ∧ AnswersKeep Leaf.IsQuoteFree f := by
  cases h with
  | upperCase => exact ⟨_, rfl, answersKeep_rename Text.upper⟩
  | lowerCase => exact ⟨_, rfl, answersKeep_rename Text.lower⟩
  | bindLiterals namer get set hset =>
    refine ⟨_, ?_, answersKeep_bindLiterals namer get set⟩
    -- asked about a composite node, the pass puts back the state that it has found
    have hcomposite :
        (focus get set (Pass.bindLiterals namer)).composite = fun _ => pure .keep :=
      funext fun e => funext fun st => congrArg (Prod.mk Answer.keep) (hset st)
    exact congrArg (Pass.mk _) hcomposite

end Pass

/-- **What standard passes make of a source** has no quotes in its strings, if it is a tree. -/
theorem run_parseWith_isQuoteFree {passes : List (Pass (StateM σ))}
    (hpasses : ∀ p ∈ passes, p.IsStandard) (s : String) (st : σ) :
    ∃ r st', (parseWith passes s).run st = (r, st') ∧
      ∀ e, r = .ok e → ∀ l ∈ e.leaves, l.IsQuoteFree := by
  cases hparse : parse s with
  | error err =>
    refine ⟨.error err, st, run_parseWith_of_error hparse, ?_⟩
    rintro _ ⟨⟩
  | ok e =>
    obtain ⟨ts, -, hderives, -⟩ := exists_spelled_of_parse hparse
    -- the source has no quotes in its strings, and standard passes put none there
    obtain ⟨e', st', hrun, -, -, hleaves⟩ := run_applyPasses_keep
      (fun p hp => (hpasses p hp).exists_ofLeaf) st hderives.hasNamedCallees
      (isQuoteFree_of_parse hparse)
    refine ⟨.ok e', st', run_parseWith_of_ok hparse hrun, ?_⟩
    rintro _ ⟨⟩
    exact hleaves

/-- The passes of a style are standard, the one for literals having all of the state. -/
theorem Style.isStandard_of_mem_passes (style : Style) : ∀ p ∈ style.passes, p.IsStandard := by
  have hbind : Pass.IsStandard (Pass.bindLiterals (ν := Unit) .numbered) :=
    .bindLiterals .numbered id (fun b _ => b) fun _ => rfl
  intro p hp
  rcases List.mem_append.mp hp with hmem | hmem
  · -- there is at most one pass for names
    split at hmem
    · rw [List.mem_singleton.mp hmem]
      exact .upperCase
    · cases hmem
  · split at hmem
    · rw [List.mem_singleton.mp hmem]
      exact hbind
    · cases hmem

/-! ### The main statement -/

/-- **Any two quoters compile a source alike**: with the same result, and with the same effect on
the state of the passes. -/
theorem compile_congr_quoter {passes : List (Pass (StateM σ))}
    (hpasses : ∀ p ∈ passes, p.IsStandard) (q q' : Sql.Quoter) (s : String) :
    compile passes q s = compile passes q' s := by
  funext st
  show (compile passes q s).run st = (compile passes q' s).run st
  obtain ⟨r, st', hrun, hleaves⟩ := run_parseWith_isQuoteFree hpasses s st
  -- only a tree is written
  cases r with
  | error err => rw [compile, compile, run_bind_of_run hrun, run_bind_of_run hrun]
  | ok e =>
    rw [run_compile q hrun, run_compile q' hrun, Sql.text_eq_of_isQuoteFree q q' (hleaves e rfl)]

/-- **What stands for a quote is irrelevant to filters.** With passes for names and literals in any
combination, whatever their namers, two quoters compile every source to the same SQL text or the
same error. So the way in which a style writes quotes has no effect on its fragments. -/
theorem compile_ignores_quoter {passes : List (Pass (StateM σ))}
    (hpasses : ∀ p ∈ passes, p.IsStandard) (q q' : Sql.Quoter) (s : String) :
    compile passes q s = compile passes q' s ∧
      ∀ (style : Style) (quoting : Quoting),
        style.fragment s = { style with quoting := quoting }.fragment s := by
  refine ⟨compile_congr_quoter hpasses q q' s, fun style quoting => ?_⟩
  have hcompile := compile_congr_quoter style.isStandard_of_mem_passes style.quoting.quoter
    quoting.quoter s
  unfold Style.fragment
  rw [hcompile]
  rfl

/-- A filter with strings, one of them under minus signs. A quoter that fails gives what the usual
one gives, whether the strings are written or their values go into a part of a state. -/
theorem compile_ignores_quoter_stringsExample :
    compile (m := StateM Nat) [.lowerCase] .failing "NAME = 'it' and - -'s' > 1" =
        compile [.lowerCase] .doubled "NAME = 'it' and - -'s' > 1" ∧
      compile [.upperCase, .focus Prod.fst (fun b st => (b, st.2)) (.bindLiterals .numbered)]
          .failing "NAME = 'it' and - -'s' > 1" =
        compile (m := StateM (Bindings Unit × Nat))
          [.upperCase, .focus Prod.fst (fun b st => (b, st.2)) (.bindLiterals .numbered)]
          .doubled "NAME = 'it' and - -'s' > 1" := by
  refine ⟨(compile_ignores_quoter ?_ .failing .doubled _).1,
    (compile_ignores_quoter ?_ .failing .doubled _).1⟩
  · exact List.forall_mem_singleton.mpr .lowerCase
  · exact List.forall_mem_cons.mpr
      ⟨.upperCase, List.forall_mem_singleton.mpr (.bindLiterals .numbered _ _ fun _ => rfl)⟩

end WhereClause
