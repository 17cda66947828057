import WhereClause.Pass.Bind
import WhereClause.Proofs.Numerals
import WhereClause.Proofs.Relabelling

/-!
# Literals and the parameters in their places

What is known of a tree whose literals were taken out. The pass goes through the leaves of a tree in
source order, so its work is that of a function on lists of leaves: `numberLeaves` puts the
parameters `_1`, `_2` and so on in the places of the literals, counting on from the values that were
collected before.

The names are numbers and different for different places, so a table of names and values undoes
the pass, as long as the tree did not use one of the new names itself.

* `numberedName` — the name of the parameter for a place;
* `numberLeaves` — parameters in the places of literals, in a list of leaves;
* `Pass.apply_bindLiterals` — what the pass makes of a tree, and what it collects;
* `Leaf.restore` — values in the places of parameters, from a table.
-/

namespace WhereClause

variable {ν : Type}

/-! ### Names and values -/

/-- **The name of the parameter for the `k`-th value**, counted from one. -/
def numberedName (k : Nat) : String :=
  "_" ++ k.repr

/-- Different places have different names. -/
theorem numberedName_inj {j k : Nat} (h : numberedName j = numberedName k) : j = k := by
  have hrepr : j.repr = k.repr := (String.append_right_inj "_").mp h
  -- a number is the value of its digits
  have hdigits : Digits.ofNat j = Digits.ofNat k := by
    rw [Digits.ofNat, Digits.ofNat, ← Nat.toList_repr, hrepr, Nat.toList_repr]
  rw [← Digits.value_ofNat j, hdigits, Digits.value_ofNat]

/-- The value of a literal. -/
def Leaf.value? : Leaf → Option Value
  | literal v => some v
  | _ => none

/-- **The values of the literals of a tree**, in source order. -/
def Expr.literals (e : Expr) : List Value :=
  e.leaves.filterMap Leaf.value?

/-- **Parameters in the places of literals**, `k` values having been collected before. -/
def numberLeaves (k : Nat) : List Leaf → List Leaf
  | [] => []
  | .literal _ :: ls => .parameter (numberedName (k + 1)) :: numberLeaves (k + 1) ls
  | l :: ls => l :: numberLeaves k ls

section NumberLeaves

variable (k : Nat) (ls : List Leaf)

@[simp] theorem numberLeaves_literal (v : Value) :
    numberLeaves k (.literal v :: ls) =
      .parameter (numberedName (k + 1)) :: numberLeaves (k + 1) ls :=
  rfl

@[simp] theorem numberLeaves_identifier (name : String) :
    numberLeaves k (.identifier name :: ls) = .identifier name :: numberLeaves k ls :=
  rfl

@[simp] theorem numberLeaves_parameter (name : String) :
    numberLeaves k (.parameter name :: ls) = .parameter name :: numberLeaves k ls :=
  rfl

end NumberLeaves

/-! ### The pass on lists of leaves -/

/-- What the pass puts in the place of a leaf. -/
def bindLeaf (namer : Namer ν) : Leaf → StateM (Bindings ν) Leaf
  | .literal v => fun b =>
    let (name, naming) := namer (b.values.length + 1) v b.naming
    (.parameter name, ⟨b.values ++ [v], naming⟩)
  | l => pure l

/-- The pass leaves names alone. -/
theorem keepsNames_bindLeaf (namer : Namer ν) : KeepsNames (bindLeaf namer) :=
  fun name b => ⟨name, b, rfl⟩

/-- The pass puts a leaf in the place of a leaf. -/
theorem onLeaf_bindLiterals (namer : Namer ν) (l : Leaf) :
    Pass.onLeaf (Pass.bindLiterals namer).leaf l = leafwise (bindLeaf namer) l := by
  cases l with
  | literal v =>
    funext b
    -- whatever the namer says, both sides have its name and its new state
    rcases hnamer : namer (b.values.length + 1) v b.naming with ⟨name, naming⟩
    have hbind : ((Pass.bindLiterals namer).leaf (.literal v)).run b =
        (.replace (.parameter name), ⟨b.values ++ [v], naming⟩) := by
      simp [Pass.bindLiterals, Pass.ofLeaf, Bindings.bind, StateT.run, hnamer]
    have hleaf : (bindLeaf namer (.literal v)).run b =
        (.parameter name, ⟨b.values ++ [v], naming⟩) := by
      simp [bindLeaf, StateT.run, hnamer]
    exact (run_bind_of_run hbind).trans (run_leafwise hleaf).symm
  | _ => rfl

/-- **The pass counts through the leaves.** -/
theorem run_mapM_bindLeaf (ls : List Leaf) (b : Bindings ν) :
    (ls.mapM (bindLeaf .numbered)).run b =
      (numberLeaves b.values.length ls, ⟨b.values ++ ls.filterMap Leaf.value?, b.naming⟩) := by
  induction ls generalizing b with
  | nil =>
    rw [List.mapM_nil, List.filterMap_nil, List.append_nil]
    rfl
  | cons l ls ih =>
    cases l with
    | literal v =>
      have hl : (bindLeaf .numbered (.literal v)).run b =
          (.parameter (numberedName (b.values.length + 1)), ⟨b.values ++ [v], b.naming⟩) := rfl
      -- the rest is numbered with one value more to start from
      refine (run_mapM_append (run_mapM_singleton hl) (ih _)).trans ?_
      rw [List.length_append, List.append_assoc]
      rfl
    | identifier name =>
      have hl : (bindLeaf .numbered (.identifier name)).run b = (.identifier name, b) := rfl
      exact run_mapM_append (run_mapM_singleton hl) (ih b)
    | parameter name =>
      have hl : (bindLeaf .numbered (.parameter name)).run b = (.parameter name, b) := rfl
      exact run_mapM_append (run_mapM_singleton hl) (ih b)

/-- **The pass on a tree**: it numbers the leaves and collects their values. -/
theorem Pass.apply_bindLiterals (e : Expr) (b : Bindings ν) (he : e.hasNamedCallees) :
    ∃ r, ((bindLiterals .numbered).apply e).run b =
        (r, ⟨b.values ++ e.literals, b.naming⟩) ∧
      r.tree.leaves = numberLeaves b.values.length e.leaves ∧ r.tree.shape = e.shape ∧
      r.tree.hasNamedCallees := by
  obtain ⟨r, b', happly, hleaves, hshape, hnamed⟩ :=
    apply_of_leafwise (onLeaf_bindLiterals .numbered) (keepsNames_bindLeaf .numbered) e b he
  rw [run_mapM_bindLeaf] at hleaves
  obtain ⟨htree, rfl⟩ := Prod.mk.inj hleaves
  exact ⟨r, happly, htree.symm, hshape, hnamed⟩

/-! ### Undoing the pass -/

/-- **Values in the places of parameters**, as far as a table has them. -/
def Leaf.restore (table : List (String × Value)) : Leaf → Leaf
  | parameter name =>
    match table.lookup name with
    | some v => literal v
    | none => parameter name
  | l => l

/-- The values that were collected after the first `k`, under the names of their places. -/
def numberedTable (k : Nat) : List Value → List (String × Value)
  | [] => []
  | v :: vs => (numberedName (k + 1), v) :: numberedTable (k + 1) vs

/-- **A place is found under its name.** -/
theorem lookup_numberedTable (k i : Nat) (vs : List Value) :
    (numberedTable k vs).lookup (numberedName (k + 1 + i)) = vs[i]? := by
  induction vs generalizing k i with
  | nil => rfl
  | cons v vs ih =>
    cases i with
    | zero => simp [numberedTable]
    | succ i =>
      -- a later place has another name, so the search goes past the first entry
      have hne : numberedName (k + 1 + (i + 1)) ≠ numberedName (k + 1) := by
        intro h
        have := numberedName_inj h
        omega
      rw [numberedTable, List.lookup_cons, beq_false_of_ne hne, List.getElem?_cons_succ,
        ← ih (k + 1), Nat.add_right_comm (k + 1) 1 i]
      rfl

/-- No other name is in the table. -/
theorem lookup_numberedTable_eq_none {k : Nat} {vs : List Value} {name : String}
    (h : ∀ j, k < j → j ≤ k + vs.length → name ≠ numberedName j) :
    (numberedTable k vs).lookup name = none := by
  induction vs generalizing k with
  | nil => rfl
  | cons v vs ih =>
    have hne : name ≠ numberedName (k + 1) := h _ (by omega) (by simp)
    rw [numberedTable, List.lookup_cons, beq_false_of_ne hne]
    refine ih fun j hj hle => h j (by omega) ?_
    rw [List.length_cons]
    omega

/-- A table that has the values of the literals under their new names, and no other name, undoes
the numbering. -/
theorem map_restore_numberLeaves {table : List (String × Value)} {k : Nat} {ls : List Leaf}
    (hvalues : ∀ i, table.lookup (numberedName (k + 1 + i)) = (ls.filterMap Leaf.value?)[i]?)
    (hother : ∀ name, Leaf.parameter name ∈ ls → table.lookup name = none) :
    (numberLeaves k ls).map (Leaf.restore table) = ls := by
  induction ls generalizing k with
  | nil => rfl
  | cons l ls ih =>
    have hother' : ∀ name, Leaf.parameter name ∈ ls → table.lookup name = none :=
      fun name hmem => hother name (List.mem_cons_of_mem _ hmem)
    cases l with
    | literal v =>
      -- the first value has the first name, and the rest is numbered from there on
      have hfirst : table.lookup (numberedName (k + 1)) = some v := hvalues 0
      have hrest : (numberLeaves (k + 1) ls).map (Leaf.restore table) = ls := by
        refine ih (fun i => ?_) hother'
        rw [Nat.add_right_comm (k + 1) 1 i]
        exact hvalues (i + 1)
      rw [numberLeaves_literal, List.map_cons, hrest, Leaf.restore, hfirst]
    | identifier name =>
      rw [numberLeaves_identifier, List.map_cons, ih hvalues hother', Leaf.restore]
      simp
    | parameter name =>
      rw [numberLeaves_parameter, List.map_cons, ih hvalues hother', Leaf.restore,
        hother name (by simp)]

/-- No literal is left. -/
theorem literal_not_mem_numberLeaves (v : Value) (k : Nat) (ls : List Leaf) :
    Leaf.literal v ∉ numberLeaves k ls := by
  induction ls generalizing k with
  | nil => simp [numberLeaves]
  | cons l ls ih => cases l <;> simp [ih]

/-- **Putting the values back undoes the pass.** With `b` the values collected before and no
parameter of the tree named like one of the new ones, the pass leaves no literal, collects those of
the tree behind the old values, and a table of the new names gives back the very same tree. -/
theorem mapLeaves_bindLiterals (b : Bindings ν) (e : Expr) (he : e.hasNamedCallees)
    (hfresh : ∀ k, b.values.length < k → k ≤ b.values.length + e.literals.length →
      Leaf.parameter (numberedName k) ∉ e.leaves) :
    ∃ r b', ((Pass.bindLiterals .numbered).apply e).run b = (r, b') ∧
      (∀ v, Leaf.literal v ∉ r.tree.leaves) ∧
      b'.values = b.values ++ e.literals ∧
      r.tree.mapLeaves (Leaf.restore
        (numberedTable b.values.length (b'.values.drop b.values.length))) = e := by
  obtain ⟨r, happly, hleaves, hshape, -⟩ := Pass.apply_bindLiterals e b he
  refine ⟨r, _, happly, fun v => ?_, rfl, ?_⟩
  · rw [hleaves]
    exact literal_not_mem_numberLeaves v _ _
  · rw [List.drop_left]
    -- the shape is the old one already, so only the leaves have to be looked at
    refine Expr.eq_of_shape_eq ((Expr.shape_mapLeaves _ _).trans hshape) ?_
    rw [Expr.leaves_mapLeaves, hleaves]
    refine map_restore_numberLeaves (fun i => lookup_numberedTable _ i _) fun name hmem => ?_
    -- a parameter of the tree is not in the table, by the condition on its name
    refine lookup_numberedTable_eq_none fun j hj hle heq => ?_
    subst heq
    exact hfresh j hj hle hmem

/-- A tree `f(:_1, 1.50) in ('x', null)`, which uses the name `_1` of a value that is there
already. -/
def restoreExample : Expr :=
  .binary
    (.call (.identifier "f") (Token.ofKind .rightParen ")")
      [.parameter "_1", .literal (.decimal ⟨150, 2, by decide, by decide⟩)])
    (Token.ofKind .kwIn "in") (.list [.literal (.string "x"), .literal .null])

/-- Two values are there already, so the new names are `_3` to `_5` and `_1` stays as it is. -/
theorem mapLeaves_bindLiterals_restoreExample :
    restoreExample.hasNamedCallees ∧
      (∀ k, 2 < k → k ≤ 2 + restoreExample.literals.length →
        Leaf.parameter (numberedName k) ∉ restoreExample.leaves) ∧
      ∃ r b', ((Pass.bindLiterals .numbered).apply restoreExample).run
          (⟨[.boolean true, .integer 7], ()⟩ : Bindings Unit) = (r, b') ∧
        (∀ v, Leaf.literal v ∉ r.tree.leaves) ∧
        b'.values = [.boolean true, .integer 7] ++ restoreExample.literals ∧
        r.tree.mapLeaves (Leaf.restore (numberedTable 2 (b'.values.drop 2))) = restoreExample := by
  have hfresh : ∀ k, 2 < k → k ≤ 2 + restoreExample.literals.length →
      Leaf.parameter (numberedName k) ∉ restoreExample.leaves := by
    intro k hk hle
    change k ≤ 2 + 3 at hle
    -- there are three new names, and the tree has none of them
    have hcases : k = 3 ∨ k = 4 ∨ k = 5 := by omega
    rcases hcases with rfl | rfl | rfl <;> decide +kernel
  exact ⟨rfl, hfresh, mapLeaves_bindLiterals ⟨[.boolean true, .integer 7], ()⟩ _ rfl hfresh⟩

end WhereClause
