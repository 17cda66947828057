import WhereClause.Pass

/-!
# Passes over leaves

A pass builds a composite node anew only where something below it was replaced. What comes out is
nevertheless the tree that one gets by building every node anew: `Expr.graft` puts a tree in the
place of each leaf, from left to right, and knows nothing of sharing. A pass that looks at leaves
only has the same result and the same effects (`Pass.apply_ofLeaf`). What makes this work is that
an old node is used again only where it is the new one too (`Revision.Of`).

* `Expr.graft` — trees in the places of leaves, without sharing;
* `Revision.Of` — a revision that makes one tree of another;
* `Pass.apply_ofLeaf` — a pass over leaves is a `graft`.
-/

namespace WhereClause

variable {σ : Type}

/-! ### Building everything anew -/

namespace Expr

/-- What stands in the place of a callee: only a name takes it. -/
def calleeOr (callee answered : Expr) : Expr :=
  match answered with
  | identifier _ => answered
  | _ => callee

section Graft

variable {m : Type → Type} [Monad m]

mutual

/-- **Trees in the places of leaves.** The leaves are visited once each, in source order, and every
composite node is built anew. -/
def graft (f : Leaf → m Expr) : Expr → m Expr
  | leaf l => f l
  | unary op x => do
    let x' ← graft f x
    pure (unary op x')
  | binary l op r => do
    let l' ← graft f l
    let r' ← graft f r
    pure (binary l' op r')
  | grouping x => do
    let x' ← graft f x
    pure (grouping x')
  | call callee close args => do
    let answered ← graft f callee
    let args' ← graftAll f args
    pure (call (callee.calleeOr answered) close args')
  | list items => do
    let items' ← graftAll f items
    pure (list items')

/-- The same for several trees in turn. -/
def graftAll (f : Leaf → m Expr) : List Expr → m (List Expr)
  | [] => pure []
  | e :: es => do
    let e' ← graft f e
    let es' ← graftAll f es
    pure (e' :: es')

end

end Graft

end Expr

/-! ### Using old nodes again -/

/-- What an answer for a leaf puts in its place. -/
def Answer.onLeaf (l : Leaf) : Answer → Expr
  | keep => .leaf l
  | replace e => e

namespace Revision

/-- **A revision that makes `after` of `before`**, and uses the old node again only where the two
are the same. -/
structure Of (before : Expr) (r : Revision) (after : Expr) : Prop where
  tree_eq : r.tree = after
  eq_of_isKept : r.sharing.isKept → after = before

variable {before after : Expr} {r : Revision}

theorem of_kept (e : Expr) : (kept e).Of e e :=
  ⟨rfl, fun _ => rfl⟩

theorem isKept_fresh (e : Expr) : (Sharing.fresh e).isKept = false := by
  cases e <;> rfl

/-- An answer puts what it brings in the place of the leaf. -/
theorem of_answer (l : Leaf) (a : Answer) :
    ((kept (.leaf l)).answer a).Of (.leaf l) (a.onLeaf l) := by
  cases a with
  | keep => exact of_kept _
  | replace e => exact ⟨rfl, fun h => absurd ((isKept_fresh e).symm.trans h) Bool.false_ne_true⟩

/-- The old node is used again where all its children were kept, and then they are its children. -/
theorem of_rebuild {children : List Sharing}
    (h : children.all Sharing.isKept → after = before) :
    (rebuild before after children).Of before after := by
  unfold rebuild
  split
  · next hall =>
    rw [h hall]
    exact of_kept before
  · -- a new node is not the old one, so there is nothing to show
    exact ⟨rfl, fun hkept => absurd hkept Bool.false_ne_true⟩

/-- A callee is kept unless the answer is a name. -/
theorem Of.asCallee (h : r.Of before after) :
    (r.asCallee before).Of before (before.calleeOr after) := by
  obtain ⟨tree, sharing⟩ := r
  obtain ⟨rfl, hkept⟩ := h
  -- only for a name is the answer not ignored
  cases tree with
  | leaf l =>
    cases l with
    | identifier name => exact ⟨rfl, hkept⟩
    | _ => exact of_kept before
  | _ => exact of_kept before

/-- Revisions of several trees. -/
structure AllOf (before : List Expr) (rs : List Revision) (after : List Expr) : Prop where
  trees_eq : rs.map (·.tree) = after
  eq_of_isKept : (rs.map (·.sharing)).all Sharing.isKept → after = before

/-- One more tree in front. -/
theorem Of.cons {es es' : List Expr} {rs : List Revision} (h : r.Of before after)
    (hs : AllOf es rs es') : AllOf (before :: es) (r :: rs) (after :: es') := by
  obtain ⟨rfl, hkept⟩ := h
  obtain ⟨rfl, hskept⟩ := hs
  refine ⟨rfl, fun hall => ?_⟩
  obtain ⟨hr, hrs⟩ := Bool.and_eq_true_iff.mp hall
  rw [hkept hr, hskept hrs]

end Revision

/-! ### Passes as grafts -/

/-- A run goes on with the result and the state of its first step. -/
theorem run_bind_of_run {α β : Type} {x : StateM σ α} {f : α → StateM σ β} {s s' : σ} {a : α}
    (h : x.run s = (a, s')) : (x >>= f).run s = (f a).run s' := by
  rw [StateT.run_bind, h]
  rfl

/-- A graft of several trees goes on with the state that the first one leaves. -/
theorem Expr.run_graftAll_cons {f : Leaf → StateM σ Expr} {e e' : Expr} {es es' : List Expr}
    {s s₁ s' : σ} (h : (e.graft f).run s = (e', s₁)) (hs : (graftAll f es).run s₁ = (es', s')) :
    (graftAll f (e :: es)).run s = (e' :: es', s') := by
  rw [graftAll, run_bind_of_run h, run_bind_of_run hs]
  rfl

namespace Pass

/-- A pass over several trees goes on with the state that the first one leaves. -/
theorem run_applyEach_cons {p : Pass (StateM σ)} {e : Expr} {es : List Expr} {r : Revision}
    {rs : List Revision} {s s₁ s' : σ} (h : (p.apply e).run s = (r, s₁))
    (hs : (p.applyEach es).run s₁ = (rs, s')) : (p.applyEach (e :: es)).run s = (r :: rs, s') := by
  rw [applyEach, run_bind_of_run h, run_bind_of_run hs]
  rfl

/-- What a pass over leaves puts in the place of a leaf. -/
def onLeaf (g : Leaf → StateM σ Answer) (l : Leaf) : StateM σ Expr := do
  let a ← g l
  pure (a.onLeaf l)

mutual

/-- **A pass over leaves is a graft**, with the same effects. -/
theorem apply_ofLeaf (g : Leaf → StateM σ Answer) : ∀ (e : Expr) (s : σ),
    ∃ r e' s', ((ofLeaf g).apply e).run s = (r, s') ∧ (e.graft (onLeaf g)).run s = (e', s') ∧
      r.Of e e'
  | .leaf l, s => ⟨_, _, _, rfl, rfl, Revision.of_answer l _⟩
  -- The two runs visit the leaves in the same order, so below every node they start in the same
  -- state, and it is enough that a node whose children were all kept is the node before.
  | .unary op x, s => by
    obtain ⟨rx, x', s₁, happly, hgraft, hx⟩ := apply_ofLeaf g x s
    refine ⟨.rebuild (.unary op x) (.unary op rx.tree) [rx.sharing], .unary op x', s₁, ?_, ?_, ?_⟩
    · rw [apply, run_bind_of_run happly]
      rfl
    · rw [Expr.graft, run_bind_of_run hgraft]
      rfl
    · rw [hx.tree_eq]
      refine Revision.of_rebuild fun hall => ?_
      rw [hx.eq_of_isKept (by simpa using hall)]
  | .binary l op r, s => by
    obtain ⟨rl, l', s₁, hlapply, hlgraft, hl⟩ := apply_ofLeaf g l s
    obtain ⟨rr, r', s₂, hrapply, hrgraft, hr⟩ := apply_ofLeaf g r s₁
    refine ⟨.rebuild (.binary l op r) (.binary rl.tree op rr.tree) [rl.sharing, rr.sharing],
      .binary l' op r', s₂, ?_, ?_, ?_⟩
    · rw [apply, run_bind_of_run hlapply, run_bind_of_run hrapply]
      rfl
    · rw [Expr.graft, run_bind_of_run hlgraft, run_bind_of_run hrgraft]
      rfl
    · rw [hl.tree_eq, hr.tree_eq]
      refine Revision.of_rebuild fun hall => ?_
      -- the old node is used again only if both operands were kept
      have hkept : rl.sharing.isKept ∧ rr.sharing.isKept := by simpa using hall
      rw [hl.eq_of_isKept hkept.1, hr.eq_of_isKept hkept.2]
  | .grouping x, s => by
    obtain ⟨rx, x', s₁, happly, hgraft, hx⟩ := apply_ofLeaf g x s
    refine ⟨.rebuild (.grouping x) (.grouping rx.tree) [rx.sharing], .grouping x', s₁, ?_, ?_, ?_⟩
    · rw [apply, run_bind_of_run happly]
      rfl
    · rw [Expr.graft, run_bind_of_run hgraft]
      rfl
    · rw [hx.tree_eq]
      refine Revision.of_rebuild fun hall => ?_
      rw [hx.eq_of_isKept (by simpa using hall)]
  | .call callee close args, s => by
    obtain ⟨rc, c', s₁, hcapply, hcgraft, hc⟩ := apply_ofLeaf g callee s
    obtain ⟨rs, args', s₂, hsapply, hsgraft, hs⟩ := applyEach_ofLeaf g args s₁
    refine ⟨.rebuild (.call callee close args)
        (.call (rc.asCallee callee).tree close (rs.map (·.tree)))
        ((rc.asCallee callee).sharing :: rs.map (·.sharing)),
      .call (callee.calleeOr c') close args', s₂, ?_, ?_, ?_⟩
    · rw [apply, run_bind_of_run hcapply, run_bind_of_run hsapply]
      rfl
    · rw [Expr.graft, run_bind_of_run hcgraft, run_bind_of_run hsgraft]
      rfl
    · rw [hc.asCallee.tree_eq, hs.trees_eq]
      refine Revision.of_rebuild fun hall => ?_
      obtain ⟨hcallee, hargs⟩ := Bool.and_eq_true_iff.mp hall
      rw [hc.asCallee.eq_of_isKept hcallee, hs.eq_of_isKept hargs]
  | .list items, s => by
    obtain ⟨rs, items', s₁, happly, hgraft, hs⟩ := applyEach_ofLeaf g items s
    refine ⟨.rebuild (.list items) (.list (rs.map (·.tree))) (rs.map (·.sharing)), .list items',
      s₁, ?_, ?_, ?_⟩
    · rw [apply, run_bind_of_run happly]
      rfl
    · rw [Expr.graft, run_bind_of_run hgraft]
      rfl
    · rw [hs.trees_eq]
      refine Revision.of_rebuild fun hall => ?_
      rw [hs.eq_of_isKept hall]

/-- Several trees in turn. -/
theorem applyEach_ofLeaf (g : Leaf → StateM σ Answer) : ∀ (es : List Expr) (s : σ),
    ∃ rs es' s', ((ofLeaf g).applyEach es).run s = (rs, s') ∧
      (Expr.graftAll (onLeaf g) es).run s = (es', s') ∧ Revision.AllOf es rs es'
  | [], s => ⟨[], [], s, rfl, rfl, ⟨rfl, fun _ => rfl⟩⟩
  | e :: es, s => by
    obtain ⟨r, e', s₁, happly, hgraft, he⟩ := apply_ofLeaf g e s
    obtain ⟨rs, es', s₂, hsapply, hsgraft, hes⟩ := applyEach_ofLeaf g es s₁
    exact ⟨r :: rs, e' :: es', s₂, run_applyEach_cons happly hsapply,
      Expr.run_graftAll_cons hgraft hsgraft, he.cons hes⟩

end

end Pass

end WhereClause
