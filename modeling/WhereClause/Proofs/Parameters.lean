import WhereClause.Command
import WhereClause.Proofs.Binding
import WhereClause.Proofs.LongestMatch
import WhereClause.Proofs.RoundTrip

/-!
# Filters without their literals

What comes of a filter whose literals become parameters. Such a filter has an SQL text as soon as it
parses: the passes leave its shape as it is and its callees names, so the grammar still derives the
tree, and no truth value is left in it. Its values are those of the tokens of the source, and its
placeholders, read from left to right, are the parameters that the source has written and the
numbered names, in the order of their tokens.

* `Style.run_applyPasses` — the passes of a style on the leaves of a tree;
* `Style.exists_passed_of_parse` — the tree that is written, and what can keep it from that;
* `Style.exists_bound_of_parse` — the tree, the SQL text and the values of a filter that parses;
* `placeholders` — the names of the placeholders, from the tokens of the source.
-/

namespace WhereClause

/-! ### Renaming leaves -/

/-- A change of names in a leaf. -/
def Leaf.rename (f : String → String) : Leaf → Leaf
  | identifier name => identifier (f name)
  | l => l

theorem Leaf.rename_id (l : Leaf) : l.rename id = l := by
  cases l <;> rfl

/-- What the pass for names makes of a leaf. A name that comes out as it went in may as well be put
back. -/
theorem onLeaf_rename {σ : Type} (f : String → String) (l : Leaf) :
    Pass.onLeaf (Pass.rename (m := StateM σ) f).leaf l =
      leafwise (fun l => pure (l.rename f)) l := by
  cases l with
  | identifier name =>
    have hanswer : (if f name = name then Answer.keep
        else .replace (.identifier (f name))).onLeaf (.identifier name) = .identifier (f name) := by
      split
      · next hname => rw [hname]; rfl
      · rfl
    exact congrArg (pure (f := StateM σ)) hanswer
  | _ => rfl

/-- **Renaming a tree renames its leaves**, and leaves the state alone. -/
theorem Pass.apply_rename {σ : Type} (f : String → String) (e : Expr) (s : σ)
    (he : e.hasNamedCallees) :
    ∃ r, ((rename (m := StateM σ) f).apply e).run s = (r, s) ∧
      r.tree.leaves = e.leaves.map (Leaf.rename f) ∧ r.tree.shape = e.shape ∧
      r.tree.hasNamedCallees := by
  obtain ⟨r, s', happly, hleaves, hshape, hnamed⟩ :=
    apply_of_leafwise (onLeaf_rename f) (fun name s => ⟨f name, s, rfl⟩) e s he
  rw [List.mapM_pure] at hleaves
  obtain ⟨htree, rfl⟩ := Prod.mk.inj hleaves
  exact ⟨r, happly, htree.symm, hshape, hnamed⟩

/-- Numbering and renaming do not meet: the one changes literals, the other names. -/
theorem numberLeaves_map_rename (f : String → String) (k : Nat) (ls : List Leaf) :
    numberLeaves k (ls.map (Leaf.rename f)) = (numberLeaves k ls).map (Leaf.rename f) := by
  induction ls generalizing k with
  | nil => rfl
  | cons l ls ih => cases l <;> simp [Leaf.rename, ih]

/-- Renaming changes no values. -/
theorem filterMap_value?_map_rename (f : String → String) (ls : List Leaf) :
    (ls.map (Leaf.rename f)).filterMap Leaf.value? = ls.filterMap Leaf.value? := by
  rw [List.filterMap_map]
  refine congrArg (List.filterMap · ls) (funext fun l => ?_)
  cases l <;> rfl

theorem any_isTruth_map_rename (f : String → String) (ls : List Leaf) :
    (ls.map (Leaf.rename f)).any Leaf.isTruth = ls.any Leaf.isTruth := by
  rw [List.any_map]
  refine congrArg (List.any ls) (funext fun l => ?_)
  cases l <;> rfl

/-- Among numbered leaves there is no truth value, since there is no literal. -/
theorem any_isTruth_numberLeaves (k : Nat) (ls : List Leaf) :
    (numberLeaves k ls).any Leaf.isTruth = false := by
  refine Bool.eq_false_iff.mpr fun htruth => ?_
  obtain ⟨b, hb⟩ := any_isTruth_iff.mp htruth
  exact literal_not_mem_numberLeaves _ k ls hb

/-! ### Passes on a source -/

section Passes

variable {σ : Type} {passes : List (Pass (StateM σ))} {s : String} {b b' : σ}

/-- A list of passes goes through its parts in turn. -/
theorem applyPasses_append (ps qs : List (Pass (StateM σ))) (e : Expr) :
    applyPasses (ps ++ qs) e = applyPasses ps e >>= applyPasses qs := by
  induction ps generalizing e with
  | nil => exact (pure_bind e (applyPasses qs)).symm
  | cons p ps ih =>
    rw [List.cons_append, applyPasses_cons, applyPasses_cons, bind_assoc]
    exact congrArg _ (funext fun r => ih r.tree)

/-- **What all answers keep, passes over leaves keep**, one pass after the other. -/
theorem run_applyPasses_keep {P : Leaf → Prop}
    (hpasses : ∀ p ∈ passes, ∃ f, p = Pass.ofLeaf f ∧ Pass.AnswersKeep P f) {e : Expr} (b : σ)
    (he : e.hasNamedCallees) (hleaves : ∀ l ∈ e.leaves, P l) :
    ∃ e' b', (applyPasses passes e).run b = (e', b') ∧ e'.shape = e.shape ∧
      e'.hasNamedCallees ∧ ∀ l ∈ e'.leaves, P l := by
  induction passes generalizing e b with
  | nil => exact ⟨e, b, rfl, rfl, he, hleaves⟩
  | cons p passes ih =>
    obtain ⟨⟨f, rfl, hf⟩, hrest⟩ := List.forall_mem_cons.mp hpasses
    obtain ⟨r, b₁, happly, hshape, hnamed, hkept⟩ := hf.apply e b he hleaves
    -- the first pass leaves a tree of the same shape, whose leaves are as good as before
    obtain ⟨e', b', hrun, hshape', hnamed', hleaves'⟩ := ih hrest b₁ hnamed hkept
    refine ⟨e', b', ?_, hshape'.trans hshape, hnamed', hleaves'⟩
    rw [applyPasses_cons, run_bind_of_run happly]
    exact hrun

/-- One pass alone. -/
theorem run_applyPasses_singleton {p : Pass (StateM σ)} {e : Expr} {r : Revision}
    (h : (p.apply e).run b = (r, b')) : (applyPasses [p] e).run b = (r.tree, b') := by
  rw [applyPasses_cons, run_bind_of_run h]
  rfl

/-- **A source that does not parse is not shown to any rewriting**, so that their state stays. -/
theorem run_parseThen_of_error {rewritings : List (Rewriting (StateM σ))} {err : CompileError}
    (h : parse s = .error err) : (parseThen rewritings s).run b = (.error err, b) := by
  rw [parseThen, h]
  rfl

/-- A source that parses is handed to the rewritings. -/
theorem run_parseThen_of_ok {rewritings : List (Rewriting (StateM σ))} {e e' : Expr}
    (h : parse s = .ok e) (hrewritten : (rewriteInTurn rewritings e).run b = (e', b')) :
    (parseThen rewritings s).run b = (.ok e', b') := by
  rw [parseThen, h]
  exact run_bind_of_run hrewritten

/-- **A source that does not parse leaves the passes alone.** -/
theorem run_parseWith_of_error {err : CompileError} (h : parse s = .error err) :
    (parseWith passes s).run b = (.error err, b) :=
  run_parseThen_of_error h

/-- A source that parses is handed to the passes. -/
theorem run_parseWith_of_ok {e e' : Expr} (h : parse s = .ok e)
    (hpasses : (applyPasses passes e).run b = (e', b')) :
    (parseWith passes s).run b = (.ok e', b') :=
  run_parseThen_of_ok h hpasses

/-- A source that does not parse has no SQL text, and the passes are left alone. -/
theorem run_compile_of_error (q : Sql.Quoter) {err : CompileError} (h : parse s = .error err) :
    (compile passes q s).run b = (.error err, b) := by
  rw [compile, run_bind_of_run (run_parseWith_of_error h)]
  rfl

/-- What is compiled is the text of the tree that the passes leave, or the reason why there is
none. -/
theorem run_compile (q : Sql.Quoter) {e : Expr}
    (hparse : (parseWith passes s).run b = (.ok e, b')) :
    (compile passes q s).run b = ((Sql.text q e).mapError .sql, b') := by
  rw [compile, run_bind_of_run hparse]
  -- errors of the text become errors of compiling
  cases htext : Sql.text q e <;> simp only [htext] <;> rfl

end Passes

/-! ### The passes of a style -/

namespace Style

/-- What a style makes of names. -/
def naming (style : Style) : String → String :=
  if style.upperCase then Text.upper else id

/-- What a style makes of a list of leaves. -/
def relabel (style : Style) (ls : List Leaf) : List Leaf :=
  (if style.bindsLiterals then numberLeaves 0 ls else ls).map (Leaf.rename style.naming)

/-- The values that a style takes out of a tree. -/
def values (style : Style) (e : Expr) : List Value :=
  if style.bindsLiterals then e.literals else []

/-- The passes that change names leave the collected values alone. -/
theorem run_naming (style : Style) {e : Expr} (he : e.hasNamedCallees) (b : Bindings Unit) :
    ∃ e', StateT.run (m := Id)
        (applyPasses (if style.upperCase then [Pass.upperCase] else []) e) b = (e', b) ∧
      e'.leaves = e.leaves.map (Leaf.rename style.naming) ∧ e'.shape = e.shape ∧
      e'.hasNamedCallees := by
  -- without upper case there is no pass, and names stay as they are
  unfold naming
  cases style.upperCase with
  | false =>
    refine ⟨e, rfl, ?_, rfl, he⟩
    rw [if_neg Bool.false_ne_true, funext Leaf.rename_id, List.map_id']
  | true =>
    obtain ⟨r, happly, hleaves, hshape, hnamed⟩ := Pass.apply_rename Text.upper e b he
    exact ⟨r.tree, run_applyPasses_singleton happly, hleaves, hshape, hnamed⟩

/-- **The passes of a style**: they number the literals if they are to be bound and change the names
if these are to be in upper case, and leave the shape of the tree as it is. -/
theorem run_applyPasses (style : Style) {e : Expr} (he : e.hasNamedCallees) :
    ∃ e', (applyPasses style.passes e).run .empty = (e', ⟨style.values e, ()⟩) ∧
      e'.leaves = style.relabel e.leaves ∧ e'.shape = e.shape ∧ e'.hasNamedCallees := by
  obtain ⟨e₁, hrun₁, hleaves₁, hshape₁, hnamed₁⟩ := style.run_naming he .empty
  -- names change first, which neither makes a literal nor moves one
  have hliterals : e₁.literals = e.literals := by
    rw [Expr.literals, hleaves₁, filterMap_value?_map_rename]
    rfl
  rw [passes, applyPasses_append, run_bind_of_run hrun₁]
  unfold relabel values
  cases style.bindsLiterals with
  | false => exact ⟨e₁, rfl, hleaves₁, hshape₁, hnamed₁⟩
  | true =>
    obtain ⟨r, happly, hleaves, hshape, hnamed⟩ := Pass.apply_bindLiterals e₁ .empty hnamed₁
    rw [hliterals] at happly
    refine ⟨r.tree, run_applyPasses_singleton happly, ?_, hshape.trans hshape₁, hnamed⟩
    rw [hleaves, hleaves₁, numberLeaves_map_rename]
    rfl

/-- **The tree that a style makes of a filter that parses.** Only a truth value can keep it from
having an SQL text. -/
theorem exists_passed_of_parse (style : Style) {s : String} {e : Expr} (h : parse s = .ok e) :
    ∃ e', (parseWith style.passes s).run .empty = (.ok e', ⟨style.values e, ()⟩) ∧
      e'.leaves = style.relabel e.leaves ∧
      Sql.FailsIff (!style.bindsLiterals && e.leaves.any Leaf.isTruth)
        (Sql.text style.quoting.quoter e') := by
  obtain ⟨ts, -, hderives, -⟩ := exists_spelled_of_parse h
  obtain ⟨e', hpasses, hleaves, hshape, hnamed⟩ := style.run_applyPasses hderives.hasNamedCallees
  refine ⟨e', run_parseWith_of_ok h hpasses, hleaves, ?_⟩
  -- the grammar derives the new tree too, and its truth values are those that are not bound
  obtain ⟨ts', hderives', -⟩ := hderives.of_shape_eq (P := fun _ => True) (fun _ _ => trivial)
    hshape hnamed fun l _ => by
      obtain ⟨t, ht⟩ := Derives.exists_leaf l
      exact ⟨[t], ht, fun _ _ => trivial⟩
  have htruth : e'.leaves.any Leaf.isTruth =
      (!style.bindsLiterals && e.leaves.any Leaf.isTruth) := by
    rw [hleaves, relabel, any_isTruth_map_rename]
    cases style.bindsLiterals with
    | false => rfl
    | true => exact any_isTruth_numberLeaves _ _
  rw [← htruth]
  cases style.quoting with
  | doubled => exact hderives'.text_failsIff
  | backslash => exact hderives'.text_failsIff

/-- **A filter that parses has an SQL text without its literals**, whatever the style. -/
theorem exists_bound_of_parse (style : Style) (hbinds : style.bindsLiterals) {s : String} {e : Expr}
    (h : parse s = .ok e) :
    ∃ e' sql, (parseWith style.passes s).run .empty = (.ok e', ⟨e.literals, ()⟩) ∧
      Sql.text style.quoting.quoter e' = .ok sql ∧
      style.fragment s = .ok ⟨sql, some e.literals⟩ ∧
      e'.leaves = (numberLeaves 0 e.leaves).map (Leaf.rename style.naming) := by
  obtain ⟨e', hparse, hleaves, hfails⟩ := style.exists_passed_of_parse h
  rw [hbinds] at hfails
  rw [values, if_pos hbinds] at hparse
  rw [relabel, if_pos hbinds] at hleaves
  -- with its literals bound there is no truth value left that could keep the tree from its text
  obtain ⟨sql, hsql⟩ := hfails.ok rfl
  refine ⟨e', sql, hparse, hsql, ?_, hleaves⟩
  rw [fragment, run_compile _ hparse, hsql, hbinds]
  rfl

end Style

/-! ### Values and placeholders from tokens -/

/-- Whether a token stands for a value, which its kind decides. -/
def Token.isValued (t : Token) : Bool :=
  match t.kind with
  | .number | .string | .kwTrue | .kwFalse | .kwNull => true
  | _ => false

/-- The name of a parameter. -/
def Leaf.parameter? : Leaf → Option String
  | parameter name => some name
  | _ => none

/-- **The names of the placeholders**, from the tokens of the source: the parameters that it has
written, and numbered names for its literals, `k` of them having been numbered before. -/
def placeholders (k : Nat) : List Token → List String
  | [] => []
  | t :: ts =>
    if t.kind = .parameter then t.lexeme :: placeholders k ts
    else if t.isValued then numberedName (k + 1) :: placeholders (k + 1) ts
    else placeholders k ts

/-- The tokens of a source that stand for values have them. -/
theorem Spells.isSome_value? {t : Token} {x : List Char} (h : Spells t x) :
    t.value?.isSome = t.isValued := by
  -- strings and numbers carry their values, and reserved words are theirs
  have hliteral := h.literal_iff
  unfold Token.value? Token.isValued
  cases hkind : t.kind <;> simp_all

/-- The same for all tokens of a source, with the end marker. -/
theorem isSome_value?_of_spelled {s : String} {ts : List Token} {n : Nat}
    (hts : Spelled Spells ts s.toList) :
    ∀ t ∈ ts ++ [Token.eof n], t.value?.isSome = t.isValued := by
  intro t ht
  rcases List.mem_append.mp ht with ht | ht
  · obtain ⟨x, hx⟩ := hts.isLexical t ht
    exact hx.isSome_value?
  · rw [List.mem_singleton.mp ht]
    rfl

section Tokens

variable {ts : List Token}

theorem Token.leaf?_of_parameter {t : Token} (h : t.kind = .parameter) :
    t.leaf? = some (.parameter t.lexeme) :=
  if_pos h

theorem Token.leaf?_of_ne_parameter {t : Token} (h : t.kind ≠ .parameter) :
    t.leaf? = t.value?.map .literal :=
  if_neg h

/-- The tokens that stand for values, and the values they stand for. -/
theorem map_value?_filter_isValued (h : ∀ t ∈ ts, t.value?.isSome = t.isValued) :
    (ts.filter Token.isValued).map Token.value? = (ts.filterMap Token.value?).map some := by
  induction ts with
  | nil => rfl
  | cons t ts ih =>
    obtain ⟨ht, hts⟩ := List.forall_mem_cons.mp h
    cases hv : t.value? with
    | none =>
      rw [hv] at ht
      rw [List.filter_cons_of_neg (by simp [← ht]), List.filterMap_cons_none hv, ih hts]
    | some v =>
      rw [hv] at ht
      rw [List.filter_cons_of_pos ht.symm, List.filterMap_cons_some hv, List.map_cons,
        List.map_cons, hv, ih hts]

/-- **The placeholders of a list of tokens are those of the leaves that it makes.** -/
theorem placeholders_eq (h : ∀ t ∈ ts, t.value?.isSome = t.isValued) (k : Nat) :
    placeholders k ts = (numberLeaves k (ts.filterMap Token.leaf?)).filterMap Leaf.parameter? := by
  induction ts generalizing k with
  | nil => rfl
  | cons t ts ih =>
    obtain ⟨ht, hts⟩ := List.forall_mem_cons.mp h
    rw [placeholders]
    by_cases hkind : t.kind = .parameter
    · rw [if_pos hkind, List.filterMap_cons_some (Token.leaf?_of_parameter hkind), ih hts]
      rfl
    · -- all other leaves come from values, so both sides number on in the same cases
      have hleaf := Token.leaf?_of_ne_parameter hkind
      rw [if_neg hkind, ← ht]
      cases hv : t.value? with
      | none =>
        rw [hv] at hleaf
        rw [List.filterMap_cons_none hleaf]
        exact ih hts k
      | some v =>
        rw [hv] at hleaf
        rw [List.filterMap_cons_some hleaf]
        exact congrArg _ (ih hts (k + 1))

end Tokens

/-- The values of the leaves that tokens make are the values of the tokens. -/
theorem filterMap_value?_leaf? (ts : List Token) :
    (ts.filterMap Token.leaf?).filterMap Leaf.value? = ts.filterMap Token.value? := by
  rw [List.filterMap_filterMap]
  refine congrArg (List.filterMap · ts) (funext fun t => ?_)
  by_cases hkind : t.kind = .parameter
  · have hvalue : t.value? = none := by simp [Token.value?, hkind]
    rw [Token.leaf?_of_parameter hkind, hvalue]
    rfl
  · rw [Token.leaf?_of_ne_parameter hkind]
    cases t.value? <;> rfl

section Unnamed

variable (ls : List Leaf)

/-- What is found in no name is found without the names too. -/
theorem filterMap_filter_isUnnamed {α : Type} {f : Leaf → Option α}
    (hf : ∀ name, f (.identifier name) = none) :
    (ls.filter Leaf.isUnnamed).filterMap f = ls.filterMap f := by
  rw [List.filterMap_filter]
  refine congrArg (List.filterMap · ls) (funext fun l => ?_)
  cases l with
  | identifier name => exact (hf name).symm
  | literal _ | parameter _ => rfl

theorem filterMap_value?_filter_isUnnamed :
    (ls.filter Leaf.isUnnamed).filterMap Leaf.value? = ls.filterMap Leaf.value? :=
  filterMap_filter_isUnnamed ls fun _ => rfl

/-- Names are no placeholders, whatever becomes of them. -/
theorem filterMap_parameter?_numberLeaves (f : String → String) (k : Nat) :
    ((numberLeaves k ls).map (Leaf.rename f)).filterMap Leaf.parameter? =
      (numberLeaves k (ls.filter Leaf.isUnnamed)).filterMap Leaf.parameter? := by
  induction ls generalizing k with
  | nil => rfl
  | cons l ls ih =>
    cases l with
    | literal _ => exact congrArg (numberedName (k + 1) :: ·) (ih (k + 1))
    | identifier _ => exact ih k
    | parameter name => exact congrArg (name :: ·) (ih k)

end Unnamed

/-- **The tokens of a filter that parses**: those that stand for values have them, and together
they make the leaves that are no names. -/
theorem exists_scan_leaves_of_parse {s : String} {e : Expr} (h : parse s = .ok e) :
    ∃ tokens, scan s = .ok tokens ∧ (∀ t ∈ tokens, t.value?.isSome = t.isValued) ∧
      e.leaves.filter Leaf.isUnnamed = tokens.filterMap Token.leaf? := by
  obtain ⟨ts, n, hscan, hts, hderives, -⟩ := exists_scan_of_parse h
  refine ⟨_, hscan, isSome_value?_of_spelled hts, ?_⟩
  have heof : (Token.eof n).leaf? = none := rfl
  rw [hderives.leaves_eq, List.filterMap_append, List.filterMap_cons_none heof, List.filterMap_nil,
    List.append_nil]

/-! ### Numbered leaves one by one -/

/-- The number of literals before the place `i` in a list of leaves. -/
def literalsBefore (ls : List Leaf) (i : Nat) : Nat :=
  ((ls.take i).filterMap Leaf.value?).length

/-- **What a parameter stands for after the numbering**: for a parameter of that name, or for the
literal with that number. -/
theorem getElem?_numberLeaves_eq_parameter_iff {ls : List Leaf} {k i : Nat} {name : String} :
    (numberLeaves k ls)[i]? = some (.parameter name) ↔
      ls[i]? = some (.parameter name) ∨
        ∃ v, ls[i]? = some (.literal v) ∧ name = numberedName (k + literalsBefore ls i + 1) := by
  induction ls generalizing k i with
  | nil => simp [numberLeaves]
  | cons l ls ih =>
    cases i with
    | zero =>
      cases l <;> simp [literalsBefore, eq_comm]
    | succ i =>
      cases l with
      | literal w =>
        -- a literal in front is counted on both sides
        rw [numberLeaves_literal, List.getElem?_cons_succ, List.getElem?_cons_succ, ih]
        have hcount : k + literalsBefore (.literal w :: ls) (i + 1) =
            k + 1 + literalsBefore ls i := by
          change k + (literalsBefore ls i + 1) = _
          omega
        rw [hcount]
      | identifier _ => exact ih
      | parameter _ => exact ih

/-- The tokens that make a parameter are those that name it. -/
theorem Token.leaf?_eq_parameter_iff {t : Token} {name : String} :
    t.leaf? = some (.parameter name) ↔ t.kind = .parameter ∧ t.lexeme = name := by
  by_cases hkind : t.kind = .parameter
  · simp [Token.leaf?_of_parameter hkind, hkind]
  · simp [Token.leaf?_of_ne_parameter hkind, hkind]

end WhereClause
