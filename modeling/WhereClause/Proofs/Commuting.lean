import WhereClause.Proofs.Handles
import WhereClause.Proofs.Parameters

/-!
# Passes that commute

The pass for names looks at names only, and the pass for literals at literals only, so it should not
matter which of them goes first. Callees are what needs a proof: both passes are offered them, a
callee may be any tree, and an answer that is no name is ignored, though the pass has been asked and
keeps what it took from the question.

The reason why it comes out right is that neither pass makes a name of anything else, or anything
else of a name. A callee that is no name therefore stays the very tree it was under both, and the
pass for literals finds the same literals in it whenever it comes; a callee that is a name is left
alone by one of the two.

The calls of the namer are part of what agrees. A namer that keeps a log of its calls
(`Namer.logged`) is a namer like any other, so the two orders leave the same log.

* `Expr.renamed` — a change of names in a tree, without effects;
* `SparesNames` — passes over leaves that leave names alone and make no new ones;
* `Expr.graft_renamed` — such a pass commutes with every change of names;
* `run_mapM_bindLiterals_logged` — the calls of the namer are the literals, each with its number.
-/

namespace WhereClause

variable {σ ν : Type}

/-! ### A change of names in a tree -/

namespace Expr

/-- **A change of names in a tree.** A callee that is no name stays as it is, with all the names in
it. -/
def renamed (f : String → String) (e : Expr) : Expr :=
  Id.run (e.graft fun l => pure (leaf (l.rename f)))

/-- A change of names in several trees. -/
def renamedAll (f : String → String) (es : List Expr) : List Expr :=
  Id.run (graftAll (fun l => pure (leaf (l.rename f))) es)

section Renamed

variable (f : String → String)

@[simp] theorem renamed_leaf (l : Leaf) : (leaf l).renamed f = leaf (l.rename f) := rfl

@[simp] theorem renamed_unary (op : Token) (x : Expr) :
    (unary op x).renamed f = unary op (x.renamed f) := rfl

@[simp] theorem renamed_binary (l : Expr) (op : Token) (r : Expr) :
    (binary l op r).renamed f = binary (l.renamed f) op (r.renamed f) := rfl

@[simp] theorem renamed_grouping (x : Expr) : (grouping x).renamed f = grouping (x.renamed f) := rfl

@[simp] theorem renamed_call (callee : Expr) (close : Token) (args : List Expr) :
    (call callee close args).renamed f =
      call (callee.calleeOr (callee.renamed f)) close (renamedAll f args) := rfl

@[simp] theorem renamed_list (items : List Expr) :
    (list items).renamed f = list (renamedAll f items) := rfl

@[simp] theorem renamedAll_nil : renamedAll f [] = [] := rfl

@[simp] theorem renamedAll_cons (e : Expr) (es : List Expr) :
    renamedAll f (e :: es) = e.renamed f :: renamedAll f es := rfl

mutual

/-- A graft that only changes names has no effect on the state. -/
theorem graft_rename : ∀ (e : Expr) (s : σ),
    (e.graft (leafwise fun l => pure (l.rename f))).run s = (e.renamed f, s)
  | leaf l, s => rfl
  | unary op x, s => by
    rw [graft, run_bind_of_run (graft_rename x s), renamed_unary]
    rfl
  | binary l op r, s => by
    rw [graft, run_bind_of_run (graft_rename l s), run_bind_of_run (graft_rename r s),
      renamed_binary]
    rfl
  | grouping x, s => by
    rw [graft, run_bind_of_run (graft_rename x s), renamed_grouping]
    rfl
  | call callee close args, s => by
    rw [graft, run_bind_of_run (graft_rename callee s), run_bind_of_run (graftAll_rename args s),
      renamed_call]
    rfl
  | list items, s => by
    rw [graft, run_bind_of_run (graftAll_rename items s), renamed_list]
    rfl

/-- The same for several trees. -/
theorem graftAll_rename : ∀ (es : List Expr) (s : σ),
    (graftAll (leafwise fun l => pure (l.rename f)) es).run s = (renamedAll f es, s)
  | [], s => rfl
  | e :: es, s => by
    rw [run_graftAll_cons (graft_rename e s) (graftAll_rename es s), renamedAll_cons]

end

/-- Names stay names, and nothing else becomes one. -/
theorem isName_renamed (e : Expr) : (e.renamed f).isName = e.isName := by
  cases e with
  | leaf l => cases l <;> rfl
  | _ => rfl

end Renamed

/-- A name is taken for a callee. -/
theorem calleeOr_of_isName (callee : Expr) {answered : Expr} (h : answered.isName = true) :
    callee.calleeOr answered = answered := by
  rw [calleeOr_eq_ite, if_pos h]

/-- Anything else is not. -/
theorem calleeOr_of_not_isName (callee : Expr) {answered : Expr} (h : answered.isName = false) :
    callee.calleeOr answered = callee := by
  rw [calleeOr_eq_ite, h, if_neg Bool.false_ne_true]

end Expr

/-! ### Passes that leave names alone -/

/-- **A pass over leaves that leaves names alone** and makes none of anything else. -/
structure SparesNames (g : Leaf → StateM σ Leaf) : Prop where
  identifier : ∀ name s, (g (.identifier name)).run s = (.identifier name, s)
  isUnnamed : ∀ l s, l.isUnnamed → ((g l).run s).1.isUnnamed

/-- A leaf that is no name has none to change. -/
theorem Leaf.rename_of_isUnnamed (f : String → String) {l : Leaf} (h : l.isUnnamed) :
    l.rename f = l := by
  cases l with
  | identifier name => cases h
  | _ => rfl

theorem Leaf.exists_of_not_isUnnamed {l : Leaf} (h : l.isUnnamed = false) :
    ∃ name, l = .identifier name := by
  cases l with
  | identifier name => exact ⟨name, rfl⟩
  | _ => cases h

theorem Expr.isName_leaf (l : Leaf) : (leaf l).isName = !l.isUnnamed := by
  cases l <;> rfl

/-- The pass for literals leaves names alone and makes parameters, which are none. -/
theorem sparesNames_bindLeaf (namer : Namer ν) : SparesNames (bindLeaf namer) where
  identifier _ _ := rfl
  isUnnamed l b h := by
    cases l with
    | identifier name => cases h
    | _ => rfl

namespace SparesNames

variable {g : Leaf → StateM σ Leaf} (hg : SparesNames g)

include hg

/-- The answer is a name where the leaf is one. -/
theorem isUnnamed_eq {l l' : Leaf} {s s' : σ} (h : (g l).run s = (l', s')) :
    l'.isUnnamed = l.isUnnamed := by
  -- a name comes back as it is, and for other leaves this is asked of the pass
  cases hl : l.isUnnamed with
  | false =>
    obtain ⟨name, rfl⟩ := Leaf.exists_of_not_isUnnamed hl
    obtain ⟨rfl, -⟩ := Prod.mk.inj (h.symm.trans (hg.identifier name s))
    rfl
  | true =>
    have hanswer := hg.isUnnamed l s hl
    rwa [h] at hanswer

/-- On a leaf, the change of names may come before or after. -/
theorem run_rename (f : String → String) {l l' : Leaf} {s s' : σ} (h : (g l).run s = (l', s')) :
    (g (l.rename f)).run s = (l'.rename f, s') := by
  cases hl : l.isUnnamed with
  | false =>
    obtain ⟨name, rfl⟩ := Leaf.exists_of_not_isUnnamed hl
    obtain ⟨rfl, rfl⟩ := Prod.mk.inj (h.symm.trans (hg.identifier name s))
    exact hg.identifier (f name) _
  | true =>
    -- neither the leaf nor the answer has a name in it that could be changed
    rw [Leaf.rename_of_isUnnamed f hl, Leaf.rename_of_isUnnamed f ((hg.isUnnamed_eq h).trans hl), h]

end SparesNames

namespace Expr

variable {g : Leaf → StateM σ Leaf} (f : String → String)

mutual

/-- **Names can be changed before or after.** A pass that leaves names alone finds the same in a
tree with changed names, and what it makes of the tree has the names changed. -/
theorem graft_renamed (hg : SparesNames g) : ∀ (e : Expr) (s : σ),
    ∃ e' s', (e.graft (leafwise g)).run s = (e', s') ∧
      ((e.renamed f).graft (leafwise g)).run s = (e'.renamed f, s') ∧ e'.isName = e.isName
  | leaf l, s => by
    rcases hl : (g l).run s with ⟨l', s'⟩
    refine ⟨leaf l', s', run_leafwise hl, run_leafwise (hg.run_rename f hl), ?_⟩
    rw [isName_leaf, isName_leaf, hg.isUnnamed_eq hl]
  | unary op x, s => by
    obtain ⟨x', s₁, hx, hx', -⟩ := graft_renamed hg x s
    refine ⟨unary op x', s₁, ?_, ?_, rfl⟩
    · rw [graft, run_bind_of_run hx]
      rfl
    · rw [renamed_unary, graft, run_bind_of_run hx']
      rfl
  | binary l op r, s => by
    obtain ⟨l', s₁, hl, hl', -⟩ := graft_renamed hg l s
    obtain ⟨r', s₂, hr, hr', -⟩ := graft_renamed hg r s₁
    refine ⟨binary l' op r', s₂, ?_, ?_, rfl⟩
    · rw [graft, run_bind_of_run hl, run_bind_of_run hr]
      rfl
    · rw [renamed_binary, graft, run_bind_of_run hl', run_bind_of_run hr']
      rfl
  | grouping x, s => by
    obtain ⟨x', s₁, hx, hx', -⟩ := graft_renamed hg x s
    refine ⟨grouping x', s₁, ?_, ?_, rfl⟩
    · rw [graft, run_bind_of_run hx]
      rfl
    · rw [renamed_grouping, graft, run_bind_of_run hx']
      rfl
  | call callee close args, s => by
    obtain ⟨c', s₁, hc, hc', hname⟩ := graft_renamed hg callee s
    obtain ⟨args', s₂, hs, hs'⟩ := graftAll_renamed hg args s₁
    refine ⟨call (callee.calleeOr c') close args', s₂, ?_, ?_, rfl⟩
    · rw [graft, run_bind_of_run hc, run_bind_of_run hs]
      rfl
    · -- the callee is where the order could show, since an answer may be ignored on one side only
      rw [renamed_call, renamed_call]
      cases hcallee : callee.isName with
      | true =>
        -- all answers are names, and taken
        have hearly : (callee.renamed f).isName = true := (isName_renamed f callee).trans hcallee
        have hbound : c'.isName = true := hname.trans hcallee
        have hlate : (c'.renamed f).isName = true := (isName_renamed f c').trans hbound
        rw [calleeOr_of_isName _ hearly, calleeOr_of_isName _ hbound, calleeOr_of_isName _ hlate,
          graft, run_bind_of_run hc', run_bind_of_run hs', calleeOr_of_isName _ hlate]
        rfl
      | false =>
        -- no answer is a name, so the callee stays the tree that it was, and is asked about as such
        have hearly : (callee.renamed f).isName = false := (isName_renamed f callee).trans hcallee
        have hbound : c'.isName = false := hname.trans hcallee
        rw [calleeOr_of_not_isName _ hearly, calleeOr_of_not_isName _ hbound,
          calleeOr_of_not_isName _ hearly, graft, run_bind_of_run hc, run_bind_of_run hs',
          calleeOr_of_not_isName _ hbound]
        rfl
  | list items, s => by
    obtain ⟨items', s₁, hs, hs'⟩ := graftAll_renamed hg items s
    refine ⟨list items', s₁, ?_, ?_, rfl⟩
    · rw [graft, run_bind_of_run hs]
      rfl
    · rw [renamed_list, graft, run_bind_of_run hs']
      rfl

/-- The same for several trees in turn. -/
theorem graftAll_renamed (hg : SparesNames g) : ∀ (es : List Expr) (s : σ),
    ∃ es' s', (graftAll (leafwise g) es).run s = (es', s') ∧
      (graftAll (leafwise g) (renamedAll f es)).run s = (renamedAll f es', s')
  | [], s => ⟨[], s, rfl, rfl⟩
  | e :: es, s => by
    obtain ⟨e', s₁, he, he', -⟩ := graft_renamed hg e s
    obtain ⟨es', s₂, hes, hes'⟩ := graftAll_renamed hg es s₁
    refine ⟨e' :: es', s₂, run_graftAll_cons he hes, ?_⟩
    rw [renamedAll_cons, renamedAll_cons]
    exact run_graftAll_cons he' hes'

end

end Expr

/-! ### The two passes -/

namespace Pass

/-- What the pass for names makes of any tree. -/
theorem run_apply_rename (f : String → String) (e : Expr) (s : σ) :
    ∃ r, ((rename (m := StateM σ) f).apply e).run s = (r, s) ∧ r.tree = e.renamed f := by
  obtain ⟨r, e', s', happly, hgraft, hof⟩ := apply_ofLeaf (rename (m := StateM σ) f).leaf e s
  rw [funext (onLeaf_rename f), Expr.graft_rename] at hgraft
  obtain ⟨rfl, rfl⟩ := Prod.mk.inj hgraft
  exact ⟨r, happly, hof.tree_eq⟩

/-- What the pass for literals makes of any tree. -/
theorem run_apply_bindLiterals {namer : Namer ν} {e e' : Expr} {b b' : Bindings ν}
    (h : (e.graft (leafwise (bindLeaf namer))).run b = (e', b')) :
    ∃ r, ((bindLiterals namer).apply e).run b = (r, b') ∧ r.tree = e' := by
  obtain ⟨r, e'', b'', happly, hgraft, hof⟩ := apply_ofLeaf (bindLiterals namer).leaf e b
  rw [funext (onLeaf_bindLiterals namer), h] at hgraft
  obtain ⟨rfl, rfl⟩ := Prod.mk.inj hgraft
  exact ⟨r, happly, hof.tree_eq⟩

/-- **The passes for names and for literals commute.** -/
theorem exists_run_both (f : String → String) (namer : Namer ν) (e : Expr) (b : Bindings ν) :
    ∃ e' b', (e.graft (leafwise (bindLeaf namer))).run b = (e', b') ∧
      (applyPasses [.rename f, .bindLiterals namer] e).run b = (e'.renamed f, b') ∧
      (applyPasses [.bindLiterals namer, .rename f] e).run b = (e'.renamed f, b') := by
  obtain ⟨e', b', hplain, hrenamed, -⟩ := e.graft_renamed f (sparesNames_bindLeaf namer) b
  refine ⟨e', b', hplain, ?_, ?_⟩
  · -- names first: the second pass starts from the renamed tree, of which its graft is known
    obtain ⟨r, hfirst, hr⟩ := run_apply_rename f e b
    rw [← hr] at hrenamed
    obtain ⟨r', hsecond, hr'⟩ := run_apply_bindLiterals hrenamed
    rw [applyPasses_cons, run_bind_of_run hfirst, applyPasses_cons, run_bind_of_run hsecond, hr']
    rfl
  · -- literals first: what is renamed is the tree that the graft gives
    obtain ⟨r, hfirst, rfl⟩ := run_apply_bindLiterals hplain
    obtain ⟨r', hsecond, hr'⟩ := run_apply_rename f r.tree b'
    rw [applyPasses_cons, run_bind_of_run hfirst, applyPasses_cons, run_bind_of_run hsecond, hr']
    rfl

end Pass

/-! ### The calls of the namer -/

/-- **A namer that keeps a log of its calls**, each with the value and its number. -/
def Namer.logged (namer : Namer ν) : Namer (ν × List (Value × Nat)) :=
  fun i v st => let (name, naming) := namer i v st.1; (name, naming, st.2 ++ [(v, i)])

/-- **The calls of the namer** are the literals in source order, numbered on from the values that
were collected before. -/
theorem run_mapM_bindLiterals_logged (namer : Namer ν) (ls : List Leaf)
    (b : Bindings (ν × List (Value × Nat))) :
    ∃ answers b', (ls.mapM (Pass.bindLiterals namer.logged).leaf).run b = (answers, b') ∧
      b'.values = b.values ++ ls.filterMap Leaf.value? ∧
      b'.naming.2 = b.naming.2 ++ (ls.filterMap Leaf.value?).zipIdx (b.values.length + 1) := by
  induction ls generalizing b with
  | nil => exact ⟨[], b, rfl, (List.append_nil _).symm, (List.append_nil _).symm⟩
  | cons l ls ih =>
    cases l with
    | literal v =>
      -- the log grows by the value and the number that the namer was asked about
      rcases hnamer : namer (b.values.length + 1) v b.naming.1 with ⟨name, naming⟩
      have hl : ((Pass.bindLiterals namer.logged).leaf (.literal v)).run b =
          (.replace (.parameter name),
            ⟨b.values ++ [v], naming, b.naming.2 ++ [(v, b.values.length + 1)]⟩) := by
        simp [Pass.bindLiterals, Pass.ofLeaf, Bindings.bind, Namer.logged, StateT.run, hnamer]
      -- the rest is numbered with one value more to start from
      obtain ⟨answers, b', hrun, hvalues, hcalls⟩ := ih ⟨_, naming, _⟩
      refine ⟨_, b', run_mapM_append (run_mapM_singleton hl) hrun, ?_, ?_⟩
      · rw [hvalues, List.append_assoc]
        rfl
      · rw [hcalls, List.append_assoc, List.length_append]
        rfl
    | identifier name =>
      have hl : ((Pass.bindLiterals namer.logged).leaf (.identifier name)).run b = (.keep, b) := rfl
      obtain ⟨answers, b', hrun, hb'⟩ := ih b
      exact ⟨_, b', run_mapM_append (run_mapM_singleton hl) hrun, hb'⟩
    | parameter name =>
      have hl : ((Pass.bindLiterals namer.logged).leaf (.parameter name)).run b = (.keep, b) := rfl
      obtain ⟨answers, b', hrun, hb'⟩ := ih b
      exact ⟨_, b', run_mapM_append (run_mapM_singleton hl) hrun, hb'⟩

/-- **The order of the passes for names and for literals makes no difference**, whatever the change
of names is and however the parameters are named. The trees are the same, and so is all that the
pass for literals keeps: its values and the state of its namer. The calls of the namer are the same
too: it is asked once for each literal of the tree, also for those in callees, in source order. -/
theorem rename_bindLiterals_comm (f : String → String) (namer : Namer ν) (e : Expr) :
    (∀ b : Bindings ν, (applyPasses [.rename f, .bindLiterals namer] e).run b =
      (applyPasses [.bindLiterals namer, .rename f] e).run b) ∧
    ∀ b : Bindings (ν × List (Value × Nat)), ∃ e' b',
      (applyPasses [.rename f, .bindLiterals namer.logged] e).run b = (e', b') ∧
      (applyPasses [.bindLiterals namer.logged, .rename f] e).run b = (e', b') ∧
      b'.values = b.values ++ e.literals ∧
      b'.naming.2 = b.naming.2 ++ e.literals.zipIdx (b.values.length + 1) := by
  constructor
  · intro b
    obtain ⟨e', b', -, hfirst, hsecond⟩ := Pass.exists_run_both f namer e b
    exact hfirst.trans hsecond.symm
  · intro b
    obtain ⟨e', b', hgraft, hfirst, hsecond⟩ := Pass.exists_run_both f namer.logged e b
    refine ⟨e'.renamed f, b', hfirst, hsecond, ?_⟩
    -- what the pass keeps depends on the leaves only, in callees and elsewhere
    obtain ⟨e'', answers, b'', hgraft', hleaves⟩ :=
      Pass.graft_onLeaf_leaves (Pass.bindLiterals namer.logged).leaf e b
    rw [funext (onLeaf_bindLiterals namer.logged), hgraft] at hgraft'
    obtain ⟨-, rfl⟩ := Prod.mk.inj hgraft'
    obtain ⟨answers', b'', hcalls, hkept⟩ := run_mapM_bindLiterals_logged namer e.leaves b
    obtain ⟨-, rfl⟩ := Prod.mk.inj (hleaves.symm.trans hcalls)
    exact hkept

end WhereClause
