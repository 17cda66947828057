import WhereClause.Proofs.Relabelling

/-!
# Passes that compare allocations

A `Pass` says of every node whether it was kept. A program that holds its trees by reference counted
handles need not be told: it compares handles. A node is used again if its children came back as the
allocations they were, a list is copied from the first element on that did not, and the answer for a
leaf may be any handle, also one to a node of the old tree.

This comes to the same. `Handle.rewrite` compares allocations, and has the result and the effects of
the `Pass` that has the same answers, which are those of the graft that builds every node anew
(`rewrite_eq_graft`). All that is needed is that two handles to one allocation hold the same node:
a new allocation is none of the old ones, and an answer at the address of an old node is that node.

Which addresses are there again is a matter of the changes alone, as it is for a `Pass`
(`Handle.address_eq_iff_unchanged`).

* `Handle` — a tree in which every node has an address;
* `Handle.rewrite` — a pass over leaves that compares addresses;
* `Handle.Coherent` — what a node may rely on;
* `Handle.Renews` — a handle that has the old address only where it holds the old tree;
* `rewrite_eq_graft` — passes over leaves are grafts, whichever way they tell what was kept.
-/

namespace WhereClause

variable {σ : Type}

/-- Only a name takes the place of a callee. -/
theorem Expr.calleeOr_eq_ite (callee answered : Expr) :
    callee.calleeOr answered = if answered.isName then answered else callee := by
  cases answered with
  | leaf l => cases l <;> rfl
  | _ => rfl

/-! ### Every leaf once -/

namespace Pass

mutual

/-- **A graft asks about every leaf once, in source order.** Which answers are ignored makes no
difference to what is asked. -/
theorem graft_onLeaf_leaves (g : Leaf → StateM σ Answer) : ∀ (e : Expr) (s : σ),
    ∃ e' answers s', (e.graft (onLeaf g)).run s = (e', s') ∧
      (e.leaves.mapM g).run s = (answers, s')
  | .leaf l, s => by
    rcases hl : (g l).run s with ⟨a, s'⟩
    exact ⟨_, [a], s', run_bind_of_run hl, run_mapM_singleton hl⟩
  | .unary op x, s => by
    obtain ⟨x', answers, s', hx, hleaves⟩ := graft_onLeaf_leaves g x s
    refine ⟨.unary op x', answers, s', ?_, hleaves⟩
    rw [Expr.graft, run_bind_of_run hx]
    rfl
  | .binary l op r, s => by
    obtain ⟨l', _, s₁, hl, hlleaves⟩ := graft_onLeaf_leaves g l s
    obtain ⟨r', _, s₂, hr, hrleaves⟩ := graft_onLeaf_leaves g r s₁
    refine ⟨.binary l' op r', _, s₂, ?_, run_mapM_append hlleaves hrleaves⟩
    rw [Expr.graft, run_bind_of_run hl, run_bind_of_run hr]
    rfl
  | .grouping x, s => by
    obtain ⟨x', answers, s', hx, hleaves⟩ := graft_onLeaf_leaves g x s
    refine ⟨.grouping x', answers, s', ?_, hleaves⟩
    rw [Expr.graft, run_bind_of_run hx]
    rfl
  -- the callee is asked about like all other leaves, also where its answer is then ignored
  | .call callee close args, s => by
    obtain ⟨callee', _, s₁, hc, hcleaves⟩ := graft_onLeaf_leaves g callee s
    obtain ⟨args', _, s₂, hs, hsleaves⟩ := graftAll_onLeaf_leaves g args s₁
    refine ⟨.call (callee.calleeOr callee') close args', _, s₂, ?_,
      run_mapM_append hcleaves hsleaves⟩
    rw [Expr.graft, run_bind_of_run hc, run_bind_of_run hs]
    rfl
  | .list items, s => by
    obtain ⟨items', answers, s', hs, hleaves⟩ := graftAll_onLeaf_leaves g items s
    refine ⟨.list items', answers, s', ?_, hleaves⟩
    rw [Expr.graft, run_bind_of_run hs]
    rfl

/-- The same for several trees in turn. -/
theorem graftAll_onLeaf_leaves (g : Leaf → StateM σ Answer) : ∀ (es : List Expr) (s : σ),
    ∃ es' answers s', (Expr.graftAll (onLeaf g) es).run s = (es', s') ∧
      ((Expr.leavesOf es).mapM g).run s = (answers, s')
  | [], s => ⟨[], [], s, rfl, rfl⟩
  | e :: es, s => by
    obtain ⟨e', _, s₁, he, hleaves⟩ := graft_onLeaf_leaves g e s
    obtain ⟨es', _, s₂, hes, hsleaves⟩ := graftAll_onLeaf_leaves g es s₁
    exact ⟨e' :: es', _, s₂, Expr.run_graftAll_cons he hes, run_mapM_append hleaves hsleaves⟩

end

end Pass

/-! ### Handles -/

/-- **A handle to a node**: the address of the node, and the node with the handles it holds. -/
inductive Handle where
  | leaf (address : Nat) (leaf : Leaf)
  | unary (address : Nat) (operator : Token) (operand : Handle)
  | binary (address : Nat) (left : Handle) (operator : Token) (right : Handle)
  | grouping (address : Nat) (inner : Handle)
  | call (address : Nat) (callee : Handle) (close : Token) (args : List Handle)
  | list (address : Nat) (items : List Handle)

namespace Handle

/-- Where the node is allocated. -/
def address : Handle → Nat
  | leaf a _ | unary a _ _ | binary a _ _ _ | grouping a _ | call a _ _ _ | list a _ => a

mutual

/-- **The tree that a handle holds.** -/
def tree : Handle → Expr
  | leaf _ l => .leaf l
  | unary _ op x => .unary op x.tree
  | binary _ l op r => .binary l.tree op r.tree
  | grouping _ x => .grouping x.tree
  | call _ callee close args => .call callee.tree close (trees args)
  | list _ items => .list (trees items)

/-- The trees that several handles hold. -/
def trees : List Handle → List Expr
  | [] => []
  | x :: xs => x.tree :: trees xs

end

mutual

/-- All nodes from a handle on. -/
def nodes : Handle → List Handle
  | leaf a l => [leaf a l]
  | unary a op x => unary a op x :: x.nodes
  | binary a l op r => binary a l op r :: (l.nodes ++ r.nodes)
  | grouping a x => grouping a x :: x.nodes
  | call a callee close args => call a callee close args :: (callee.nodes ++ nodesOf args)
  | list a items => list a items :: nodesOf items

/-- All nodes from several handles on. -/
def nodesOf : List Handle → List Handle
  | [] => []
  | x :: xs => x.nodes ++ nodesOf xs

end

/-! ### Comparing addresses -/

/-- The answer for the leaf `l`, none being the handle that was offered. The other part of the state
is the next free address. -/
def ask (f : Leaf → StateM σ (Option Handle)) (own : Handle) (l : Leaf) :
    StateM (σ × Nat) Handle :=
  fun m => let (answer, s) := f l m.1; (answer.getD own, s, m.2)

/-- The old handle if nothing changed, and otherwise one to a new allocation. -/
def reuseIf (same : Bool) (old : Handle) (node : Nat → Handle) : StateM (σ × Nat) Handle :=
  fun m => if same then (old, m) else (node m.2, m.1, m.2 + 1)

mutual

/-- **A pass over leaves that compares addresses.** -/
def rewrite (f : Leaf → StateM σ (Option Handle)) : Handle → StateM (σ × Nat) Handle
  | leaf a l => ask f (leaf a l) l
  | unary a op x => do
    let x' ← x.rewrite f
    reuseIf (x'.address == x.address) (unary a op x) (unary · op x')
  | binary a l op r => do
    let l' ← l.rewrite f
    let r' ← r.rewrite f
    reuseIf (l'.address == l.address && r'.address == r.address) (binary a l op r)
      (binary · l' op r')
  | grouping a x => do
    let x' ← x.rewrite f
    reuseIf (x'.address == x.address) (grouping a x) (grouping · x')
  | call a callee close args => do
    let answered ← callee.rewrite f
    let callee' :=
      if answered.tree.isName && answered.address != callee.address then some answered else none
    let args' ← rewriteList f args
    reuseIf (callee'.isNone && args'.isNone) (call a callee close args)
      (call · (callee'.getD callee) close (args'.getD args))
  | list a items => do
    let items' ← rewriteList f items
    reuseIf items'.isNone (list a items) (list · (items'.getD items))

/-- The same for several handles, with no answer if all of them came back. From the first on that
did not, what comes back is taken without another look. -/
def rewriteList (f : Leaf → StateM σ (Option Handle)) :
    List Handle → StateM (σ × Nat) (Option (List Handle))
  | [] => pure none
  | x :: xs => do
    let x' ← x.rewrite f
    if x'.address == x.address then
      let xs' ← rewriteList f xs
      pure (xs'.map (x :: ·))
    else
      let xs' ← rewriteEach f xs
      pure (some (x' :: xs'))

/-- What comes back for each of several handles. -/
def rewriteEach (f : Leaf → StateM σ (Option Handle)) :
    List Handle → StateM (σ × Nat) (List Handle)
  | [] => pure []
  | x :: xs => do
    let x' ← x.rewrite f
    let xs' ← rewriteEach f xs
    pure (x' :: xs')

end

/-- The answer for a leaf, with the tree that a handle holds in its place. -/
def answered (f : Leaf → StateM σ (Option Handle)) (l : Leaf) : StateM σ Answer := do
  let answer ← f l
  pure (answer.elim .keep fun x => .replace x.tree)

/-! ### Memory -/

/-- **What a node may rely on**: two handles to one allocation hold the same node. So an answer at
the address of the node holds the node, and an allocation to come is at another address. -/
structure Coherent (answers : List (Option Handle)) (next : Nat) (x : Handle) : Prop where
  tree_eq : ∀ y, some y ∈ answers → y.address = x.address → y.tree = x.tree
  address_lt : x.address < next

/-- **What became of a handle and of the next free address**: the new handle holds the tree `e`, and
is at the old address only if that is the old tree. -/
structure Renews (x : Handle) (next : Nat) (x' : Handle) (next' : Nat) (e : Expr) : Prop where
  tree_eq : x'.tree = e
  next_le : next ≤ next'
  eq_of_address_eq : x'.address = x.address → e = x.tree

section Rewrite

variable {f : Leaf → StateM σ (Option Handle)} {next next' : Nat}

/-- A part of the tree gets a part of the answers, and later addresses are free too. -/
theorem forall_coherent_mono {xs : List Handle} {answers answers' : List (Option Handle)}
    (h : ∀ x ∈ xs, x.Coherent answers next) (hsubset : answers' ⊆ answers) (hle : next ≤ next') :
    ∀ x ∈ xs, x.Coherent answers' next' :=
  fun x hx => ⟨fun y hy => (h x hx).tree_eq y (hsubset hy),
    Nat.lt_of_lt_of_le (h x hx).address_lt hle⟩

/-- The leaves of two parts are asked about in turn, so the answers and the states are those of the
parts. -/
theorem exists_run_mapM_append {α β : Type} {g : α → StateM σ β} {xs ys : List α} {zs : List β}
    {s s' : σ} (h : ((xs ++ ys).mapM g).run s = (zs, s')) :
    ∃ xs' ys' s₁, (xs.mapM g).run s = (xs', s₁) ∧ (ys.mapM g).run s₁ = (ys', s') ∧
      zs = xs' ++ ys' := by
  rcases hx : (xs.mapM g).run s with ⟨xs', s₁⟩
  rcases hy : (ys.mapM g).run s₁ with ⟨ys', s₂⟩
  obtain ⟨rfl, rfl⟩ := Prod.mk.inj (h.symm.trans (run_mapM_append hx hy))
  exact ⟨xs', ys', s₁, rfl, hy, rfl⟩

/-- A leaf is renewed by any answer that the memory admits. -/
theorem renews_ask {a : Nat} {l : Leaf} {answers : List (Option Handle)} {s s' : σ}
    (hanswers : ([l].mapM f).run s = (answers, s')) (h : (leaf a l).Coherent answers next) :
    ∃ x' e, (ask f (leaf a l) l).run (s, next) = (x', s', next) ∧
      (Pass.onLeaf (answered f) l).run s = (e, s') ∧ (leaf a l).Renews next x' next e := by
  rcases hrun : (f l).run s with ⟨answer, s₁⟩
  obtain ⟨rfl, rfl⟩ := Prod.mk.inj (hanswers.symm.trans (run_mapM_singleton hrun))
  have hask : (ask f (leaf a l) l).run (s, next) = (answer.getD (leaf a l), s', next) :=
    congrArg (fun o : Option Handle × σ => (o.1.getD (leaf a l), o.2, next)) hrun
  have hanswered : (answered f l).run s = (answer.elim .keep fun x => .replace x.tree, s') :=
    run_bind_of_run hrun
  refine ⟨_, _, hask, run_bind_of_run hanswered, ?_⟩
  -- only an answer at the address of the leaf has to be the leaf, which is what the memory says
  cases answer with
  | none => exact ⟨rfl, Nat.le_refl next, fun _ => rfl⟩
  | some y => exact ⟨rfl, Nat.le_refl next, h.tree_eq y (List.mem_singleton_self _)⟩

/-- A composite node is renewed if it is used again only where the node built anew would hold the
same tree. -/
theorem renews_reuseIf (same : Bool) {old : Handle} (node : Nat → Handle) {e : Expr} (s : σ)
    (hold : old.address < next) (hle : next ≤ next') (haddress : ∀ a, (node a).address = a)
    (htree : ∀ a, (node a).tree = e) (hsame : same → e = old.tree) :
    ∃ x' next'', (reuseIf same old node).run (s, next') = (x', s, next'') ∧
      old.Renews next x' next'' e := by
  cases same with
  | true => exact ⟨old, next', rfl, (hsame rfl).symm, hle, fun _ => hsame rfl⟩
  | false =>
    refine ⟨node next', next' + 1, rfl, htree next', Nat.le_succ_of_le hle, fun heq => ?_⟩
    -- the new address lies beyond all old ones
    rw [haddress] at heq
    exact absurd (heq ▸ hold) (Nat.not_lt.mpr hle)

/-- The callee that a call gets is the one that the graft gives it. -/
theorem tree_getD_callee {callee answered : Handle}
    (h : answered.address = callee.address → answered.tree = callee.tree) :
    ((if answered.tree.isName && answered.address != callee.address then some answered
      else none).getD callee).tree = callee.tree.calleeOr answered.tree := by
  rw [Expr.calleeOr_eq_ite]
  -- both sides take a name and nothing else, and at the old address it is the old callee anyway
  by_cases hname : answered.tree.isName
  · by_cases haddress : answered.address = callee.address
    · simp [haddress, h haddress]
    · simp [hname, haddress]
  · simp [hname]

mutual

/-- **Comparing addresses gives the tree that is built anew**, with the same effects. -/
theorem rewrite_renews (f : Leaf → StateM σ (Option Handle)) : ∀ (x : Handle) {s s' : σ}
    {next : Nat} {answers : List (Option Handle)},
    (x.tree.leaves.mapM f).run s = (answers, s') → (∀ y ∈ x.nodes, y.Coherent answers next) →
      ∃ x' e next', (x.rewrite f).run (s, next) = (x', s', next') ∧
        (x.tree.graft (Pass.onLeaf (answered f))).run s = (e, s') ∧ x.Renews next x' next' e
  | leaf a l, s, s', next, answers, hanswers, h => by
    obtain ⟨x', e, hask, hgraft, hx⟩ := renews_ask hanswers (h _ (List.mem_singleton_self _))
    exact ⟨x', e, next, hask, hgraft, hx⟩
  -- The two runs visit the leaves in the same order. Free addresses only go up, so what is
  -- allocated below a node is not taken for what the node held.
  | unary a op x, s, s', next, answers, hanswers, h => by
    obtain ⟨hself, hnodes⟩ := List.forall_mem_cons.mp h
    obtain ⟨x', e, next₁, hrun, hgraft, hx⟩ := rewrite_renews f x hanswers hnodes
    have htree : ∀ b, (unary b op x').tree = .unary op e := fun _ => by rw [tree, hx.tree_eq]
    obtain ⟨y, next₂, hreuse, hy⟩ := renews_reuseIf (x'.address == x.address) (unary · op x') s'
      hself.address_lt hx.next_le (fun _ => rfl) htree fun hsame => by
        rw [tree, hx.eq_of_address_eq (beq_iff_eq.mp hsame)]
    refine ⟨y, .unary op e, next₂, ?_, ?_, hy⟩
    · rw [rewrite, run_bind_of_run hrun]
      exact hreuse
    · rw [tree, Expr.graft, run_bind_of_run hgraft]
      rfl
  | binary a l op r, s, s', next, answers, hanswers, h => by
    obtain ⟨hself, hnodes⟩ := List.forall_mem_cons.mp h
    obtain ⟨hlnodes, hrnodes⟩ := List.forall_mem_append.mp hnodes
    obtain ⟨_, _, s₁, hlanswers, hranswers, rfl⟩ := exists_run_mapM_append hanswers
    obtain ⟨l', el, next₁, hlrun, hlgraft, hl⟩ := rewrite_renews f l hlanswers
      (forall_coherent_mono hlnodes (List.subset_append_left _ _) (Nat.le_refl next))
    obtain ⟨r', er, next₂, hrrun, hrgraft, hr⟩ := rewrite_renews f r hranswers
      (forall_coherent_mono hrnodes (List.subset_append_right _ _) hl.next_le)
    have htree : ∀ b, (binary b l' op r').tree = .binary el op er :=
      fun _ => by rw [tree, hl.tree_eq, hr.tree_eq]
    obtain ⟨y, next₃, hreuse, hy⟩ := renews_reuseIf
      (l'.address == l.address && r'.address == r.address) (binary · l' op r') s'
      hself.address_lt (Nat.le_trans hl.next_le hr.next_le) (fun _ => rfl) htree fun hsame => by
        obtain ⟨hlsame, hrsame⟩ := Bool.and_eq_true_iff.mp hsame
        rw [tree, hl.eq_of_address_eq (beq_iff_eq.mp hlsame),
          hr.eq_of_address_eq (beq_iff_eq.mp hrsame)]
    refine ⟨y, .binary el op er, next₃, ?_, ?_, hy⟩
    · rw [rewrite, run_bind_of_run hlrun, run_bind_of_run hrrun]
      exact hreuse
    · rw [tree, Expr.graft, run_bind_of_run hlgraft, run_bind_of_run hrgraft]
      rfl
  | grouping a x, s, s', next, answers, hanswers, h => by
    obtain ⟨hself, hnodes⟩ := List.forall_mem_cons.mp h
    obtain ⟨x', e, next₁, hrun, hgraft, hx⟩ := rewrite_renews f x hanswers hnodes
    have htree : ∀ b, (grouping b x').tree = .grouping e := fun _ => by rw [tree, hx.tree_eq]
    obtain ⟨y, next₂, hreuse, hy⟩ := renews_reuseIf (x'.address == x.address) (grouping · x') s'
      hself.address_lt hx.next_le (fun _ => rfl) htree fun hsame => by
        rw [tree, hx.eq_of_address_eq (beq_iff_eq.mp hsame)]
    refine ⟨y, .grouping e, next₂, ?_, ?_, hy⟩
    · rw [rewrite, run_bind_of_run hrun]
      exact hreuse
    · rw [tree, Expr.graft, run_bind_of_run hgraft]
      rfl
  | call a callee close args, s, s', next, answers, hanswers, h => by
    obtain ⟨hself, hnodes⟩ := List.forall_mem_cons.mp h
    obtain ⟨hcnodes, hsnodes⟩ := List.forall_mem_append.mp hnodes
    obtain ⟨_, _, s₁, hcanswers, hsanswers, rfl⟩ := exists_run_mapM_append hanswers
    obtain ⟨answered, ec, next₁, hcrun, hcgraft, hc⟩ := rewrite_renews f callee hcanswers
      (forall_coherent_mono hcnodes (List.subset_append_left _ _) (Nat.le_refl next))
    obtain ⟨args', next₂, hsrun, hsgraft, hsle⟩ := rewriteList_renews f args hsanswers
      (forall_coherent_mono hsnodes (List.subset_append_right _ _) hc.next_le)
    obtain rfl := hc.tree_eq
    -- the callee is a child like the others, but for an answer that is ignored
    have hcallee := tree_getD_callee hc.eq_of_address_eq
    generalize hcallee' : (if answered.tree.isName && answered.address != callee.address then
      some answered else none) = callee' at hcallee
    have htree : ∀ b, (call b (callee'.getD callee) close (args'.getD args)).tree =
        .call (callee.tree.calleeOr answered.tree) close (trees (args'.getD args)) :=
      fun _ => by rw [tree, hcallee]
    obtain ⟨y, next₃, hreuse, hy⟩ := renews_reuseIf (callee'.isNone && args'.isNone)
      (call · (callee'.getD callee) close (args'.getD args)) s'
      hself.address_lt (Nat.le_trans hc.next_le hsle) (fun _ => rfl) htree fun hsame => by
        obtain ⟨hcsame, hssame⟩ := Bool.and_eq_true_iff.mp hsame
        rw [tree, ← hcallee, Option.isNone_iff_eq_none.mp hcsame,
          Option.isNone_iff_eq_none.mp hssame]
        rfl
    refine ⟨y, _, next₃, ?_, ?_, hy⟩
    · rw [rewrite, run_bind_of_run hcrun, run_bind_of_run hsrun, hcallee']
      exact hreuse
    · rw [tree, Expr.graft, run_bind_of_run hcgraft, run_bind_of_run hsgraft]
      rfl
  | list a items, s, s', next, answers, hanswers, h => by
    obtain ⟨hself, hnodes⟩ := List.forall_mem_cons.mp h
    obtain ⟨items', next₁, hrun, hgraft, hle⟩ := rewriteList_renews f items hanswers hnodes
    have htree : ∀ b, (list b (items'.getD items)).tree = .list (trees (items'.getD items)) :=
      fun _ => rfl
    obtain ⟨y, next₂, hreuse, hy⟩ := renews_reuseIf items'.isNone (list · (items'.getD items)) s'
      hself.address_lt hle (fun _ => rfl) htree fun hsame => by
        rw [tree, Option.isNone_iff_eq_none.mp hsame]
        rfl
    refine ⟨y, _, next₂, ?_, ?_, hy⟩
    · rw [rewrite, run_bind_of_run hrun]
      exact hreuse
    · rw [tree, Expr.graft, run_bind_of_run hgraft]
      rfl

/-- Several handles in turn. Where there is no answer, the old ones hold the trees built anew. -/
theorem rewriteList_renews (f : Leaf → StateM σ (Option Handle)) : ∀ (xs : List Handle) {s s' : σ}
    {next : Nat} {answers : List (Option Handle)},
    ((Expr.leavesOf (trees xs)).mapM f).run s = (answers, s') →
    (∀ y ∈ nodesOf xs, y.Coherent answers next) →
      ∃ xs' next', (rewriteList f xs).run (s, next) = (xs', s', next') ∧
        (Expr.graftAll (Pass.onLeaf (answered f)) (trees xs)).run s = (trees (xs'.getD xs), s') ∧
        next ≤ next'
  | [], s, s', next, answers, hanswers, _ => by
    obtain ⟨-, rfl⟩ := Prod.mk.inj hanswers
    exact ⟨none, next, rfl, rfl, Nat.le_refl next⟩
  | x :: xs, s, s', next, answers, hanswers, h => by
    obtain ⟨hnodes, hsnodes⟩ := List.forall_mem_append.mp h
    obtain ⟨_, _, s₁, hxanswers, hsanswers, rfl⟩ := exists_run_mapM_append hanswers
    obtain ⟨x', e, next₁, hrun, hgraft, hx⟩ := rewrite_renews f x hxanswers
      (forall_coherent_mono hnodes (List.subset_append_left _ _) (Nat.le_refl next))
    have hsnodes₁ := forall_coherent_mono hsnodes (List.subset_append_right _ _) hx.next_le
    -- as long as the handles come back nothing is copied, and from the first other one on
    -- everything is
    by_cases hsame : x'.address = x.address
    · obtain ⟨xs', next₂, hsrun, hsgraft, hsle⟩ := rewriteList_renews f xs hsanswers hsnodes₁
      refine ⟨xs'.map (x :: ·), next₂, ?_, ?_, Nat.le_trans hx.next_le hsle⟩
      · rw [rewriteList, run_bind_of_run hrun, if_pos (beq_iff_eq.mpr hsame),
          run_bind_of_run hsrun]
        rfl
      · rw [trees, Expr.run_graftAll_cons hgraft hsgraft, hx.eq_of_address_eq hsame]
        cases xs' <;> rfl
    · obtain ⟨xs', next₂, hsrun, hsgraft, hsle⟩ := rewriteEach_renews f xs hsanswers hsnodes₁
      refine ⟨some (x' :: xs'), next₂, ?_, ?_, Nat.le_trans hx.next_le hsle⟩
      · rw [rewriteList, run_bind_of_run hrun, if_neg (mt beq_iff_eq.mp hsame),
          run_bind_of_run hsrun]
        rfl
      · rw [trees, Expr.run_graftAll_cons hgraft hsgraft, ← hx.tree_eq]
        rfl

/-- The same where every handle is taken as it comes back. -/
theorem rewriteEach_renews (f : Leaf → StateM σ (Option Handle)) : ∀ (xs : List Handle) {s s' : σ}
    {next : Nat} {answers : List (Option Handle)},
    ((Expr.leavesOf (trees xs)).mapM f).run s = (answers, s') →
    (∀ y ∈ nodesOf xs, y.Coherent answers next) →
      ∃ xs' next', (rewriteEach f xs).run (s, next) = (xs', s', next') ∧
        (Expr.graftAll (Pass.onLeaf (answered f)) (trees xs)).run s = (trees xs', s') ∧
        next ≤ next'
  | [], s, s', next, answers, hanswers, _ => by
    obtain ⟨-, rfl⟩ := Prod.mk.inj hanswers
    exact ⟨[], next, rfl, rfl, Nat.le_refl next⟩
  | x :: xs, s, s', next, answers, hanswers, h => by
    obtain ⟨hnodes, hsnodes⟩ := List.forall_mem_append.mp h
    obtain ⟨_, _, s₁, hxanswers, hsanswers, rfl⟩ := exists_run_mapM_append hanswers
    obtain ⟨x', e, next₁, hrun, hgraft, hx⟩ := rewrite_renews f x hxanswers
      (forall_coherent_mono hnodes (List.subset_append_left _ _) (Nat.le_refl next))
    obtain ⟨xs', next₂, hsrun, hsgraft, hsle⟩ := rewriteEach_renews f xs hsanswers
      (forall_coherent_mono hsnodes (List.subset_append_right _ _) hx.next_le)
    refine ⟨x' :: xs', next₂, ?_, ?_, Nat.le_trans hx.next_le hsle⟩
    · rw [rewriteEach, run_bind_of_run hrun, run_bind_of_run hsrun]
      rfl
    · rw [trees, Expr.run_graftAll_cons hgraft hsgraft, ← hx.tree_eq]
      rfl

end

end Rewrite

end Handle

/-- **Passes over leaves are grafts.** A pass with any effects gives the tree that is built anew
from the answers, and leaves the state that is left by asking about the leaves one after the other.
A pass that finds out by comparing addresses what was kept does the same, as long as two handles to
one allocation hold the same node. It may answer with any handle; to look at the handles it is
offered, it can have them in its state, since it knows in which order they come. -/
theorem rewrite_eq_graft :
    (∀ (g : Leaf → StateM σ Answer) (t : Expr) (s : σ), ∃ r answers s',
      ((Pass.ofLeaf g).apply t).run s = (r, s') ∧
      (t.graft (Pass.onLeaf g)).run s = (r.tree, s') ∧
      (t.leaves.mapM g).run s = (answers, s')) ∧
    ∀ (f : Leaf → StateM σ (Option Handle)) (x : Handle) (next : Nat) (s s' : σ)
      (answers : List (Option Handle)), (x.tree.leaves.mapM f).run s = (answers, s') →
      (∀ y ∈ x.nodes, y.Coherent answers next) → ∃ r x' next',
        ((Pass.ofLeaf (Handle.answered f)).apply x.tree).run s = (r, s') ∧
        (x.rewrite f).run (s, next) = (x', s', next') ∧
        (x.tree.graft (Pass.onLeaf (Handle.answered f))).run s = (x'.tree, s') ∧
        x'.tree = r.tree := by
  constructor
  · intro g t s
    obtain ⟨r, e, s', happly, hgraft, hr⟩ := Pass.apply_ofLeaf g t s
    obtain ⟨e', answers, s'', hgraft', hleaves⟩ := Pass.graft_onLeaf_leaves g t s
    -- both speak of the one run of the graft
    obtain ⟨rfl, rfl⟩ := Prod.mk.inj (hgraft.symm.trans hgraft')
    exact ⟨r, answers, s', happly, by rw [hgraft, hr.tree_eq], hleaves⟩
  · intro f x next s s' answers hanswers hx
    obtain ⟨r, e, s'', happly, hgraft, hr⟩ := Pass.apply_ofLeaf (Handle.answered f) x.tree s
    obtain ⟨x', e', next', hrun, hgraft', hrenews⟩ := Handle.rewrite_renews f x hanswers hx
    obtain ⟨rfl, rfl⟩ := Prod.mk.inj (hgraft'.symm.trans hgraft)
    exact ⟨r, x', next', happly, hrun, by rw [hgraft, hrenews.tree_eq],
      hrenews.tree_eq.trans hr.tree_eq.symm⟩

/-- `f(x, y) = z`, with an address for every node. -/
def allocatedCall : Handle :=
  .binary 5 (.call 4 (.leaf 0 (.identifier "f")) (.ofKind .rightParen ")")
    [.leaf 1 (.identifier "x"), .leaf 2 (.identifier "y")]) (.ofKind .equal "=")
    (.leaf 3 (.identifier "z"))

/-- Counts the leaves, and has a new node for the first of them and the node `y` for the second. -/
def answerFirstTwo (_ : Leaf) : StateM Nat (Option Handle) :=
  fun n => (if n = 0 then some (.leaf 6 (.literal .null))
    else if n = 1 then some (.leaf 2 (.identifier "y")) else none, n + 1)

/-- The memory in which `f(x, y) = z` is allocated admits these answers. -/
theorem coherent_allocatedCall : ∀ x ∈ allocatedCall.nodes, x.Coherent
    [some (.leaf 6 (.literal .null)), some (.leaf 2 (.identifier "y")), none, none] 7 := by
  -- one of the answers is a node of the tree, and the other is at an address the tree does not have
  have hnodes : ∀ x ∈ allocatedCall.nodes, x.address < 6 ∧
      (x.address = 2 → x.tree = .identifier "y") := by
    simp [allocatedCall, Handle.nodes, Handle.nodesOf, Handle.address, Handle.tree]
  intro x hx
  obtain ⟨hlt, htwo⟩ := hnodes x hx
  refine ⟨fun y hy haddress => ?_, Nat.lt_succ_of_lt hlt⟩
  obtain rfl | rfl : y = .leaf 6 (.literal .null) ∨ y = .leaf 2 (.identifier "y") := by
    simpa using hy
  · exact absurd (haddress ▸ hlt) (by decide)
  · exact (htwo haddress.symm).symm

/-- The answer for the callee is ignored, and the node `y` stands twice in the new tree. -/
theorem rewrite_allocatedCall : (∀ x ∈ allocatedCall.nodes, x.Coherent
      [some (.leaf 6 (.literal .null)), some (.leaf 2 (.identifier "y")), none, none] 7) ∧
    ∃ x' next', (allocatedCall.rewrite answerFirstTwo).run (0, 7) = (x', 4, next') ∧
      x'.tree = .binary (.callNamed "f" [.identifier "y", .identifier "y"]) (.ofKind .equal "=")
        (.identifier "z") := by
  obtain ⟨-, x', next', -, hrun, hgraft, -⟩ :=
    rewrite_eq_graft.2 answerFirstTwo allocatedCall 7 0 4 _ rfl coherent_allocatedCall
  exact ⟨coherent_allocatedCall, x', next', hrun, (Prod.mk.inj hgraft).1.symm⟩

end WhereClause
