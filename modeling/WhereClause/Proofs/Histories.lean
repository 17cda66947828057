import WhereClause.Proofs.Parameters

/-!
# Sources in turn

One list of rewritings may be used for many sources, and what it keeps is carried on from each of
them to the next. A source that does not parse is never shown to the rewritings, so it leaves no
trace: of any row of sources, those that fail may as well be left out (`exists_run_parseEach`). That
is so whatever the rewritings do with the trees they are shown, whether or not they are passes.

For the pass that takes out literals this fixes all that it does. Its values are those of the
sources that parse, one source after the other, and the parameters are numbered through: the first
one of a source has the number behind the last one of the sources before.

* `parseEach` — parses sources in turn, with one list of rewritings;
* `run_parseWith_bindLiterals`, `exists_run_parseEach_bindLiterals` — what the pass for literals
  makes of one source, and of many;
* `exists_place_of_value` — every value has its place in a source.
-/

namespace WhereClause

/-- **Parses sources in turn**, with rewritings of any kind that keep their state from one to the
next. -/
def parseEach {σ : Type} (rewritings : List (Rewriting (StateM σ))) (sources : List String) :
    StateM σ (List (Except CompileError Expr)) :=
  sources.mapM (parseThen rewritings)

/-- Whether a source parses. -/
def parses (s : String) : Bool :=
  (parse s).isOk

section ParseEach

variable {σ : Type} {rewritings : List (Rewriting (StateM σ))} {st st₁ st' : σ}

/-- One source in front of others. -/
theorem run_parseEach_cons {s : String} {sources : List String} {r : Except CompileError Expr}
    {rs : List (Except CompileError Expr)} (h : (parseThen rewritings s).run st = (r, st₁))
    (hs : (parseEach rewritings sources).run st₁ = (rs, st')) :
    (parseEach rewritings (s :: sources)).run st = (r :: rs, st') :=
  run_mapM_append (run_mapM_singleton h) hs

/-- **Sources that fail leave no trace.** The others have the same results without them, and the
rewritings end in the same state. -/
theorem exists_run_parseEach (rewritings : List (Rewriting (StateM σ))) (st : σ)
    (sources : List String) :
    ∃ rs st', (parseEach rewritings sources).run st = (rs, st') ∧
      rs.map Except.isOk = sources.map parses ∧
      (parseEach rewritings (sources.filter parses)).run st = (rs.filter Except.isOk, st') := by
  induction sources generalizing st with
  | nil => exact ⟨[], st, rfl, rfl, rfl⟩
  | cons s sources ih =>
    cases hparse : parse s with
    | error err =>
      -- the source is missing from the shorter row, where nothing happens to the state instead
      have hparses : parses s = false := by rw [parses, hparse]; rfl
      obtain ⟨rs, st', hrun, hok, hkept⟩ := ih st
      have hstep : (parseThen rewritings s).run st = (.error err, st) :=
        run_parseThen_of_error hparse
      refine ⟨.error err :: rs, st', run_parseEach_cons hstep hrun, ?_, ?_⟩
      · rw [List.map_cons, List.map_cons, hok, hparses]
        rfl
      · rw [List.filter_cons_of_neg (by simp [hparses]), List.filter_cons_of_neg Bool.false_ne_true]
        exact hkept
    | ok e =>
      -- the source stands in both rows, and both go on from the state that it leaves
      have hparses : parses s = true := by rw [parses, hparse]; rfl
      rcases hrewritten : (rewriteInTurn rewritings e).run st with ⟨e', st₁⟩
      have hstep := run_parseThen_of_ok hparse hrewritten
      obtain ⟨rs, st', hrun, hok, hkept⟩ := ih st₁
      refine ⟨.ok e' :: rs, st', run_parseEach_cons hstep hrun, ?_, ?_⟩
      · rw [List.map_cons, List.map_cons, hok, hparses]
        rfl
      · rw [List.filter_cons_of_pos hparses, List.filter_cons_of_pos rfl]
        exact run_parseEach_cons hstep hkept

end ParseEach

/-! ### Literals of many sources -/

/-- The values of the literals of a source, if it parses. -/
def sourceLiterals (s : String) : List Value :=
  match parse s with
  | .ok e => e.literals
  | .error _ => []

/-- **The literals of a tree as numbered parameters**, `n` of them having been numbered before. -/
structure Expr.NumberedAs (n : Nat) (e e' : Expr) : Prop where
  shape_eq : e'.shape = e.shape
  leaves_eq : e'.leaves = numberLeaves n e.leaves

/-- **One source.** The pass goes on behind the values that it has. -/
theorem run_parseWith_bindLiterals (s : String) (b : Bindings Unit) :
    ∃ r, (parseWith [.bindLiterals .numbered] s).run b =
        (r, ⟨b.values ++ sourceLiterals s, b.naming⟩) ∧
      ∀ e, parse s = .ok e → ∃ e', r = .ok e' ∧ e.NumberedAs b.values.length e' := by
  unfold sourceLiterals
  cases hparse : parse s with
  | error err =>
    refine ⟨.error err, ?_, nofun⟩
    rw [run_parseWith_of_error hparse, List.append_nil]
  | ok e =>
    obtain ⟨ts, -, hderives, -⟩ := exists_spelled_of_parse hparse
    obtain ⟨r, happly, hleaves, hshape, -⟩ :=
      Pass.apply_bindLiterals e b hderives.hasNamedCallees
    refine ⟨.ok r.tree, run_parseWith_of_ok hparse (run_applyPasses_singleton happly), ?_⟩
    intro e₀ he₀
    cases he₀
    exact ⟨r.tree, rfl, hshape, hleaves⟩

/-- **Many sources.** Each is numbered from the values of all those before it. -/
theorem exists_run_parseEach_bindLiterals (sources : List String) (b : Bindings Unit) :
    ∃ rs, (parseEach [Pass.rewriting (.bindLiterals .numbered)] sources).run b =
        (rs, ⟨b.values ++ sources.flatMap sourceLiterals, b.naming⟩) ∧
      ∀ i s e, sources[i]? = some s → parse s = .ok e → ∃ e', rs[i]? = some (.ok e') ∧
        e.NumberedAs (b.values.length + ((sources.take i).flatMap sourceLiterals).length) e' := by
  induction sources generalizing b with
  | nil =>
    refine ⟨[], ?_, nofun⟩
    rw [List.flatMap_nil, List.append_nil]
    rfl
  | cons s sources ih =>
    obtain ⟨r, hstep, hr⟩ := run_parseWith_bindLiterals s b
    obtain ⟨rs, hrun, hrs⟩ := ih ⟨b.values ++ sourceLiterals s, b.naming⟩
    refine ⟨r :: rs, ?_, ?_⟩
    · refine (run_parseEach_cons hstep hrun).trans ?_
      rw [List.append_assoc, List.flatMap_cons]
    · intro i s' e hs' he
      cases i with
      | zero =>
        cases hs'
        obtain ⟨e', rfl, he'⟩ := hr e he
        exact ⟨e', rfl, he'⟩
      | succ i =>
        obtain ⟨e', hget, he'⟩ := hrs i s' e hs' he
        refine ⟨e', hget, ?_⟩
        -- what was counted for the first source is now counted with those before
        rwa [List.take_succ_cons, List.flatMap_cons, List.length_append, ← Nat.add_assoc,
          ← List.length_append]

/-- The `k`-th value of a list of leaves is that of a literal with `k` literals before it. -/
theorem exists_literal_of_getElem? {ls : List Leaf} {k : Nat} {v : Value}
    (h : (ls.filterMap Leaf.value?)[k]? = some v) :
    ∃ j, ls[j]? = some (.literal v) ∧ literalsBefore ls j = k := by
  induction ls generalizing k with
  | nil => cases h
  | cons l ls ih =>
    cases l with
    | literal w =>
      -- this literal has the first value, and is one more in front of those that follow
      cases k with
      | zero => exact ⟨0, congrArg (Option.map Leaf.literal) h, rfl⟩
      | succ k =>
        obtain ⟨j, hj, hcount⟩ := ih h
        exact ⟨j + 1, hj, congrArg Nat.succ hcount⟩
    | identifier name =>
      obtain ⟨j, hj, hcount⟩ := ih h
      exact ⟨j + 1, hj, hcount⟩
    | parameter name =>
      obtain ⟨j, hj, hcount⟩ := ih h
      exact ⟨j + 1, hj, hcount⟩

/-- **Every value has its place**: it comes from a literal of a source, with as many literals before
it, in the sources in front and in its own, as there are values before the value. -/
theorem exists_place_of_value {sources : List String} {k : Nat} {v : Value}
    (h : (sources.flatMap sourceLiterals)[k]? = some v) :
    ∃ i s e j, sources[i]? = some s ∧ parse s = .ok e ∧ e.leaves[j]? = some (.literal v) ∧
      k = ((sources.take i).flatMap sourceLiterals).length + literalsBefore e.leaves j := by
  induction sources generalizing k with
  | nil => cases h
  | cons s sources ih =>
    rw [List.flatMap_cons] at h
    by_cases hk : k < (sourceLiterals s).length
    · -- the value is one of the first source, which has parsed then
      rw [List.getElem?_append_left hk] at h
      cases hparse : parse s with
      | error err =>
        rw [sourceLiterals, hparse] at h
        cases h
      | ok e =>
        rw [sourceLiterals, hparse] at h
        obtain ⟨j, hj, hcount⟩ := exists_literal_of_getElem? h
        exact ⟨0, s, e, j, rfl, hparse, hj, by rw [hcount]; exact (Nat.zero_add k).symm⟩
    · -- the value lies behind all those of the first source
      rw [List.getElem?_append_right (Nat.le_of_not_lt hk)] at h
      obtain ⟨i, s', e, j, hs', he, hj, hcount⟩ := ih h
      refine ⟨i + 1, s', e, j, hs', he, hj, ?_⟩
      rw [List.take_succ_cons, List.flatMap_cons, List.length_append]
      omega

/-- **Sources in turn.** Leaving out those that fail changes neither the results of the others nor
the final state of the rewritings, whatever these are: passes, or changes of any other kind. If the
only one is the pass for literals, its values are in the end those of all sources that parse. Each
of these sources has become a tree with numbered parameters in the places of its literals, and the
`k`-th value of all has become the parameter `_k` at its place. -/
theorem parseEach_drops_failures {σ : Type} (rewritings : List (Rewriting (StateM σ))) (st : σ)
    (sources : List String) :
    (∃ rs st', (parseEach rewritings sources).run st = (rs, st') ∧
      rs.map Except.isOk = sources.map parses ∧
      (parseEach rewritings (sources.filter parses)).run st = (rs.filter Except.isOk, st')) ∧
    ∃ rs b, (parseEach [Pass.rewriting (.bindLiterals .numbered)] sources).run Bindings.empty =
        (rs, b) ∧
      b.values = sources.flatMap sourceLiterals ∧
      (∀ i s e, sources[i]? = some s → parse s = .ok e → ∃ e', rs[i]? = some (.ok e') ∧
        e.NumberedAs ((sources.take i).flatMap sourceLiterals).length e') ∧
      ∀ k v, b.values[k]? = some v → ∃ i s e e' j,
        sources[i]? = some s ∧ parse s = .ok e ∧ rs[i]? = some (.ok e') ∧
        k = ((sources.take i).flatMap sourceLiterals).length + literalsBefore e.leaves j ∧
        e.leaves[j]? = some (.literal v) ∧
        e'.leaves[j]? = some (.parameter (numberedName (k + 1))) := by
  refine ⟨exists_run_parseEach rewritings st sources, ?_⟩
  obtain ⟨rs, hrun, hrs⟩ := exists_run_parseEach_bindLiterals sources Bindings.empty
  -- the pass starts without values, so only those of the sources in front are counted
  have hnumbered : ∀ i s e, sources[i]? = some s → parse s = .ok e → ∃ e', rs[i]? = some (.ok e') ∧
      e.NumberedAs ((sources.take i).flatMap sourceLiterals).length e' := by
    intro i s e hs he
    obtain ⟨e', hget, he'⟩ := hrs i s e hs he
    refine ⟨e', hget, ?_⟩
    rwa [show Bindings.empty.values.length = 0 from rfl, Nat.zero_add] at he'
  refine ⟨rs, _, hrun, rfl, hnumbered, fun k v hv => ?_⟩
  obtain ⟨i, s, e, j, hs, he, hj, hk⟩ := exists_place_of_value hv
  obtain ⟨e', hget, he'⟩ := hnumbered i s e hs he
  refine ⟨i, s, e, e', j, hs, he, hget, hk, hj, ?_⟩
  rw [he'.leaves_eq, getElem?_numberLeaves_eq_parameter_iff, hk]
  exact .inr ⟨v, hj, rfl⟩

/-- Three sources, the second of which breaks off. -/
def brokenHistory : List String :=
  ["a = 1", "b = 2 and", "c in (null, 'x')"]

/-- The literal of the source that breaks off is not among the values. -/
theorem parseEach_drops_failures_brokenHistory :
    ∃ rs b, (parseEach [Pass.rewriting (.bindLiterals .numbered)] brokenHistory).run
        Bindings.empty = (rs, b) ∧
      b.values = [.integer 1, .null, .string "x"] ∧
      (parseEach [Pass.rewriting (.bindLiterals .numbered)] ["a = 1", "c in (null, 'x')"]).run
        Bindings.empty = (rs.filter Except.isOk, b) := by
  obtain ⟨⟨rs, b, hrun, -, hkept⟩, rs', b', hrun', hvalues, -⟩ :=
    parseEach_drops_failures [Pass.rewriting (.bindLiterals .numbered)] Bindings.empty
      brokenHistory
  obtain ⟨rfl, rfl⟩ := Prod.mk.inj (hrun.symm.trans hrun')
  have hparses : brokenHistory.filter parses = ["a = 1", "c in (null, 'x')"] := by decide +kernel
  rw [hparses] at hkept
  refine ⟨rs, b, hrun, ?_, hkept⟩
  rw [hvalues]
  decide +kernel

end WhereClause
