import WhereClause.Proofs.Handles
import WhereClause.Proofs.KeptNodes

/-!
# Which allocations a pass keeps

A pass that compares addresses keeps the allocations that the same pass keeps by its answers. Since
it finds out by itself what was kept, its answers are first brought into the form of a `Pass`: an
answer at the address of the leaf that was offered is no change, and every other one is. For this
the pass has to know the handles it is offered, which it has in its state in the order in which they
come (`Handle.judged`).

The two are then followed through a tree side by side (`Handle.rewrite_tracks`). At every place, the
old address is there again exactly where the `Sharing` says that the node was kept. What is kept
depends on the changes alone, so the same holds of addresses: an allocation is used again exactly if
no leaf at or below it was changed.

* `Handle.at?` — the handle at a place;
* `Handle.offered` — the handles to the leaves, in source order;
* `Handle.verdict` — what an answer comes to when addresses are compared;
* `Handle.Tracks` — the old address stands where the old node was kept;
* `Handle.address_eq_iff_keptAt` — addresses and sharing say the same;
* `Handle.address_eq_iff_unchanged` — passes that compare addresses, for single handles and for
  several in turn.
-/

namespace WhereClause

variable {σ : Type}

namespace Handle

/-! ### Places -/

/-- The handles that a node holds, a callee being the first of them. -/
def children : Handle → List Handle
  | leaf _ _ => []
  | unary _ _ x => [x]
  | binary _ l _ r => [l, r]
  | grouping _ x => [x]
  | call _ callee _ args => callee :: args
  | list _ items => items

/-- **The handle at a place**, if there is one. -/
def at? : Handle → Place → Option Handle
  | x, [] => some x
  | x, i :: p => x.children[i]?.bind (·.at? p)

/-- The trees of several handles, one by one. -/
theorem trees_eq_map (xs : List Handle) : trees xs = xs.map tree := by
  induction xs with
  | nil => rfl
  | cons x xs ih => rw [trees, ih, List.map_cons]

/-- The children of the tree are the trees of the children. -/
theorem children_tree (x : Handle) : x.tree.children = x.children.map tree := by
  cases x with
  | call a callee close args => exact congrArg (callee.tree :: ·) (trees_eq_map args)
  | list a items => exact trees_eq_map items
  | leaf _ _ | unary _ _ _ | binary _ _ _ _ | grouping _ _ => rfl

/-- The places of a handle are those of its tree. -/
theorem at?_tree {x y : Handle} {p : Place} (h : x.at? p = some y) :
    x.tree.at? p = some y.tree := by
  induction p generalizing x with
  | nil => exact congrArg (Option.map tree) h
  | cons i p ih =>
    obtain ⟨c, hc, hy⟩ := Option.bind_eq_some_iff.mp h
    rw [Expr.at?, children_tree, List.getElem?_map, hc]
    exact ih hy

/-! ### Answers and addresses -/

/-- Whether a handle is one to a leaf. -/
def isLeaf : Handle → Bool
  | leaf _ _ => true
  | _ => false

/-- **The handles that a pass over leaves is offered**, in source order. -/
def offered (x : Handle) : List Handle :=
  x.nodes.filter isLeaf

/-- The same for several handles. -/
def offeredOf (xs : List Handle) : List Handle :=
  (nodesOf xs).filter isLeaf

/-- **What an answer comes to when addresses are compared**: no change at the address that was
offered, and a change at any other. -/
def verdict (own : Handle) : Option Handle → Answer
  | none => .keep
  | some y => if y.address = own.address then .keep else .replace y.tree

/-- The verdicts on the answers for the leaves of a tree. -/
def verdicts (x : Handle) (answers : List (Option Handle)) : List Answer :=
  List.zipWith verdict x.offered answers

/-- The same for several trees. -/
def verdictsOf (xs : List Handle) (answers : List (Option Handle)) : List Answer :=
  List.zipWith verdict (offeredOf xs) answers

/-- **A pass over leaves that is told which handles it is offered**, and gives its verdicts. The
other part of its state are the handles to come. -/
def judged (f : Leaf → StateM σ (Option Handle)) (l : Leaf) : StateM (σ × List Handle) Answer :=
  fun m => let (answer, s) := f l m.1; (verdict (m.2.headD (leaf 0 l)) answer, s, m.2.tail)

theorem verdict_of_eq {own y : Handle} (h : y.address = own.address) :
    verdict own (some y) = .keep :=
  if_pos h

theorem verdict_of_ne {own y : Handle} (h : y.address ≠ own.address) :
    verdict own (some y) = .replace y.tree :=
  if_neg h

section Offered

variable {f : Leaf → StateM σ (Option Handle)}

/-- The leaves of the left operand are offered first. -/
theorem offered_binary (a : Nat) (l : Handle) (op : Token) (r : Handle) :
    (binary a l op r).offered = l.offered ++ r.offered :=
  List.filter_append ..

/-- The callee is offered before the arguments. -/
theorem offered_call (a : Nat) (callee : Handle) (close : Token) (args : List Handle) :
    (call a callee close args).offered = callee.offered ++ offeredOf args :=
  List.filter_append ..

theorem offeredOf_cons (x : Handle) (xs : List Handle) :
    offeredOf (x :: xs) = x.offered ++ offeredOf xs :=
  List.filter_append ..

mutual

/-- One handle is offered for each leaf. -/
theorem length_offered : ∀ x : Handle, x.offered.length = x.tree.leaves.length
  | leaf _ _ => rfl
  | unary _ _ x => length_offered x
  | binary _ l _ r => by
    rw [offered_binary, List.length_append, length_offered l, length_offered r, tree, Expr.leaves,
      List.length_append]
  | grouping _ x => length_offered x
  | call _ callee _ args => by
    rw [offered_call, List.length_append, length_offered callee, length_offeredOf args, tree,
      Expr.leaves, List.length_append]
  | list _ items => length_offeredOf items

/-- The same for several handles. -/
theorem length_offeredOf : ∀ xs : List Handle,
    (offeredOf xs).length = (Expr.leavesOf (trees xs)).length
  | [] => rfl
  | x :: xs => by
    rw [offeredOf_cons, List.length_append, length_offered x, length_offeredOf xs, trees,
      Expr.leavesOf, List.length_append]

end

/-- One leaf, with the handle that is offered for it. -/
theorem run_judged {l : Leaf} {s s' : σ} {answer : Option Handle} (h : (f l).run s = (answer, s'))
    (own : Handle) (rest : List Handle) :
    (judged f l).run (s, own :: rest) = (verdict own answer, s', rest) :=
  congrArg (fun o : Option Handle × σ => (verdict own o.1, o.2, rest)) h

/-- **The verdicts are those on the answers**, each one for the handle that was offered. -/
theorem run_mapM_judged {ls : List Leaf} {own : List Handle} {s s' : σ}
    {answers : List (Option Handle)} (hlength : own.length = ls.length)
    (hanswers : (ls.mapM f).run s = (answers, s')) :
    (ls.mapM (judged f)).run (s, own) = (List.zipWith verdict own answers, s', []) := by
  induction ls generalizing own s answers with
  | nil =>
    obtain rfl := List.length_eq_zero_iff.mp hlength
    obtain ⟨rfl, rfl⟩ := Prod.mk.inj hanswers
    rfl
  | cons l ls ih =>
    -- the handle in front is the one for this leaf, and the rest is for those that follow
    obtain ⟨x, own, rfl⟩ := List.exists_cons_of_length_eq_add_one hlength
    rcases hl : (f l).run s with ⟨answer, s₁⟩
    rcases hls : (ls.mapM f).run s₁ with ⟨answers', s₂⟩
    obtain ⟨rfl, rfl⟩ := Prod.mk.inj
      (hanswers.symm.trans (run_mapM_append (run_mapM_singleton hl) hls))
    exact run_mapM_append (run_mapM_singleton (run_judged hl x own))
      (ih (Nat.succ.inj hlength) hls)

end Offered

/-! ### Addresses and sharing -/

/-- **The old address stands where the old node was kept**, and with it all that it held. -/
structure Tracks (x x' : Handle) (r : Revision) : Prop where
  tree_eq : x'.tree = r.tree
  at_place : ∀ p y, x.at? p = some y → ∃ y', x'.at? p = some y' ∧
    (y'.address = y.address ↔ r.sharing.keptAt p) ∧ (y'.address = y.address → y' = y)

/-- The same for several handles. -/
inductive TracksAll : List Handle → List Handle → List Revision → Prop
  | nil : TracksAll [] [] []
  | cons {x x' : Handle} {r : Revision} {xs xs' : List Handle} {rs : List Revision} :
      Tracks x x' r → TracksAll xs xs' rs → TracksAll (x :: xs) (x' :: xs') (r :: rs)

section Tracks

variable {x x' : Handle} {r : Revision} {xs xs' : List Handle} {rs : List Revision}

/-- What is used again is at its address, and so is all below it. -/
theorem Tracks.kept (x : Handle) : Tracks x x (.kept x.tree) where
  tree_eq := rfl
  at_place := fun p y hy => ⟨y, hy, iff_of_true rfl (Sharing.keptAt_kept p), fun _ => rfl⟩

/-- At the root, addresses say whether the node was kept, and if so the old handle comes back. -/
theorem Tracks.address_eq_iff (h : Tracks x x' r) :
    (x'.address = x.address ↔ r.sharing.isKept) ∧ (x'.address = x.address → x' = x) := by
  obtain ⟨y', hy', hroot⟩ := h.at_place [] x rfl
  obtain rfl : x' = y' := Option.some.inj hy'
  exact hroot

/-- The comparison that a pass makes has the answer of the sharing. -/
theorem Tracks.beq_address (h : Tracks x x' r) : (x'.address == x.address) = r.sharing.isKept := by
  rw [Bool.eq_iff_iff, beq_iff_eq]
  exact h.address_eq_iff.1

/-- The new handles hold the trees that the pass gives. -/
theorem TracksAll.trees_eq (h : TracksAll xs xs' rs) : trees xs' = rs.map (·.tree) := by
  induction h with
  | nil => rfl
  | cons hx _ ih => rw [trees, List.map_cons, hx.tree_eq, ih]

/-- Each of several handles is followed on its own. -/
theorem TracksAll.exists_tracks (h : TracksAll xs xs' rs) {k : Nat} (hx : xs[k]? = some x) :
    ∃ x' r, xs'[k]? = some x' ∧ rs[k]? = some r ∧ Tracks x x' r := by
  induction h generalizing k with
  | nil => cases hx
  | cons hfirst _ ih =>
    cases k with
    | zero =>
      obtain rfl := Option.some.inj hx
      exact ⟨_, _, rfl, rfl, hfirst⟩
    | succ k => exact ih hx

/-- **A leaf**: any answer that the memory admits is followed by its verdict. -/
theorem tracks_leaf {a : Nat} {l : Leaf} {answer : Option Handle}
    (h : ∀ y, answer = some y → y.address = a → y.tree = .leaf l) :
    Tracks (leaf a l) (answer.getD (leaf a l))
      ((Revision.kept (.leaf l)).answer (verdict (leaf a l) answer)) := by
  cases answer with
  | none => exact .kept (leaf a l)
  | some y =>
    by_cases haddress : y.address = a
    · -- at the address of the leaf there is nothing but the leaf
      obtain rfl : y = leaf a l := by
        have htree := h y rfl haddress
        cases y with
        | leaf b l' =>
          obtain rfl : b = a := haddress
          cases htree
          rfl
        | _ => cases htree
      rw [verdict_of_eq rfl]
      exact .kept (leaf a l)
    · -- at another address there is another node, whatever it holds
      have hverdict : verdict (leaf a l) (some y) = .replace y.tree := verdict_of_ne haddress
      rw [hverdict]
      refine ⟨rfl, fun p z hz => ?_⟩
      cases p with
      | nil =>
        obtain rfl := Option.some.inj hz
        refine ⟨y, rfl, iff_of_false haddress ?_, fun heq => absurd heq haddress⟩
        exact Bool.eq_false_iff.mp (Revision.isKept_fresh y.tree)
      | cons k p => cases hz

/-- **A callee**: both ways ignore an answer that is no name. -/
theorem Tracks.asCallee {callee answered : Handle} {callee' : Option Handle}
    (h : Tracks callee answered r)
    (hcallee' : (if answered.tree.isName && answered.address != callee.address then some answered
      else none) = callee') :
    Tracks callee (callee'.getD callee) (r.asCallee callee.tree) ∧
      callee'.isNone = (r.asCallee callee.tree).sharing.isKept := by
  subst hcallee'
  by_cases hname : answered.tree.isName
  · -- a name is taken, and if it is at the old address it is the callee itself
    obtain ⟨name, htree⟩ := Expr.exists_of_isName hname
    have hcallee : r.asCallee callee.tree = r := by
      rw [Revision.asCallee, ← h.tree_eq, htree]
    rw [hcallee, ← h.beq_address]
    by_cases haddress : answered.address = callee.address
    · obtain rfl := h.address_eq_iff.2 haddress
      rw [if_neg (by simp)]
      exact ⟨h, (beq_self_eq_true _).symm⟩
    · rw [if_pos (by simp [hname, haddress])]
      exact ⟨h, (beq_false_of_ne haddress).symm⟩
  · have hcallee : r.asCallee callee.tree = .kept callee.tree := by
      unfold Revision.asCallee
      split
      · next name heq => exact absurd (by rw [h.tree_eq, heq]; rfl) hname
      · rfl
    rw [hcallee, if_neg (by simp [hname])]
    exact ⟨.kept callee, rfl⟩

/-- **A composite node** is at its address exactly if all that it holds is, provided that a new
allocation is at a new address. -/
theorem tracks_rebuild {old node : Handle} (h : TracksAll old.children xs' rs)
    (hchildren : node.children = xs') (haddress : node.address ≠ old.address) :
    Tracks old (if (rs.map (·.sharing)).all Sharing.isKept then old else node)
      (.rebuild old.tree node.tree (rs.map (·.sharing))) := by
  subst hchildren
  unfold Revision.rebuild
  by_cases hall : (rs.map (·.sharing)).all Sharing.isKept
  · -- with all children kept, the old node stands there with all below it
    rw [if_pos hall, if_pos hall]
    exact .kept old
  · rw [if_neg hall, if_neg hall]
    refine ⟨rfl, fun p y hy => ?_⟩
    cases p with
    | nil =>
      obtain rfl := Option.some.inj hy
      exact ⟨node, rfl, iff_of_false haddress Bool.false_ne_true, fun heq => absurd heq haddress⟩
    | cons k p =>
      -- below the new node stands what became of its children
      obtain ⟨c, hc, hy⟩ := Option.bind_eq_some_iff.mp hy
      obtain ⟨c', r, hc', hr, htracks⟩ := h.exists_tracks hc
      have hkept : (Sharing.rebuilt (rs.map (·.sharing))).keptAt (k :: p) = r.sharing.keptAt p := by
        rw [Sharing.keptAt, List.getElem?_map, hr]
        rfl
      have hat : node.at? (k :: p) = c'.at? p := by
        rw [at?, hc']
        rfl
      rw [hkept, hat]
      exact htracks.at_place p y hy

end Tracks

section Rewrite

variable {next next' : Nat}

/-- The step of a composite node. What it compares is whether all its children were kept, and new
addresses lie beyond its own. -/
theorem tracks_reuseIf (same : Bool) (old : Handle) (node : Nat → Handle) (s : σ)
    {xs' : List Handle} {rs : List Revision} {after : Expr} (h : TracksAll old.children xs' rs)
    (hsame : same = (rs.map (·.sharing)).all Sharing.isKept) (hold : old.address < next)
    (hle : next ≤ next') (haddress : ∀ a, (node a).address = a)
    (hchildren : ∀ a, (node a).children = xs') (hafter : ∀ a, (node a).tree = after) :
    ∃ x' next'', (reuseIf same old node).run (s, next') = (x', s, next'') ∧ next ≤ next'' ∧
      Tracks old x' (.rebuild old.tree after (rs.map (·.sharing))) := by
  have hne : (node next').address ≠ old.address := by
    rw [haddress]
    omega
  have htracks := tracks_rebuild h (hchildren next') hne
  rw [hafter, ← hsame] at htracks
  cases same with
  | true => exact ⟨old, next', rfl, hle, htracks⟩
  | false => exact ⟨node next', next' + 1, rfl, Nat.le_succ_of_le hle, htracks⟩

mutual

/-- **Comparing addresses and passing verdicts on keep the same**, and give the same tree. -/
theorem rewrite_tracks (f : Leaf → StateM σ (Option Handle)) : ∀ (x : Handle) {s s' : σ}
    {next : Nat} {answers : List (Option Handle)} (rest : List Handle),
    (x.tree.leaves.mapM f).run s = (answers, s') → (∀ y ∈ x.nodes, y.Coherent answers next) →
      ∃ x' r next', (x.rewrite f).run (s, next) = (x', s', next') ∧
        ((Pass.ofLeaf (judged f)).apply x.tree).run (s, x.offered ++ rest) = (r, s', rest) ∧
        next ≤ next' ∧ Tracks x x' r
  | leaf a l, s, s', next, answers, rest, hanswers, h => by
    rcases hl : (f l).run s with ⟨answer, s₁⟩
    obtain ⟨rfl, rfl⟩ := Prod.mk.inj (hanswers.symm.trans (run_mapM_singleton hl))
    have hask : (ask f (leaf a l) l).run (s, next) = (answer.getD (leaf a l), s', next) :=
      congrArg (fun o : Option Handle × σ => (o.1.getD (leaf a l), o.2, next)) hl
    refine ⟨_, _, next, hask, run_bind_of_run (run_judged hl (leaf a l) rest), Nat.le_refl next,
      tracks_leaf ?_⟩
    rintro y rfl haddress
    exact (h _ (List.mem_singleton_self _)).tree_eq y (List.mem_singleton_self _) haddress
  -- The handles that are offered to a node are those offered to its children, so what is left of
  -- them after one child is what the next one starts with.
  | unary a op x, s, s', next, answers, rest, hanswers, h => by
    obtain ⟨hself, hnodes⟩ := List.forall_mem_cons.mp h
    obtain ⟨x', r, next₁, hrun, happly, hle, hx⟩ := rewrite_tracks f x rest hanswers hnodes
    obtain ⟨y, next₂, hreuse, hle', hy⟩ := tracks_reuseIf (x'.address == x.address)
      (unary a op x) (unary · op x') s' (.cons hx .nil) (by simp [hx.beq_address])
      hself.address_lt hle (fun _ => rfl) (fun _ => rfl) (fun _ => rfl)
    refine ⟨y, _, next₂, ?_, ?_, hle', hy⟩
    · rw [rewrite, run_bind_of_run hrun]
      exact hreuse
    · rw [tree, Pass.apply, hx.tree_eq]
      exact run_bind_of_run happly
  | binary a l op r, s, s', next, answers, rest, hanswers, h => by
    obtain ⟨hself, hnodes⟩ := List.forall_mem_cons.mp h
    obtain ⟨hlnodes, hrnodes⟩ := List.forall_mem_append.mp hnodes
    obtain ⟨_, _, s₁, hlanswers, hranswers, rfl⟩ := exists_run_mapM_append hanswers
    obtain ⟨l', rl, next₁, hlrun, hlapply, hlle, hl⟩ := rewrite_tracks f l (r.offered ++ rest)
      hlanswers (forall_coherent_mono hlnodes (List.subset_append_left _ _) (Nat.le_refl next))
    obtain ⟨r', rr, next₂, hrrun, hrapply, hrle, hr⟩ := rewrite_tracks f r rest hranswers
      (forall_coherent_mono hrnodes (List.subset_append_right _ _) hlle)
    obtain ⟨y, next₃, hreuse, hle', hy⟩ := tracks_reuseIf
      (l'.address == l.address && r'.address == r.address) (binary a l op r) (binary · l' op r') s'
      (.cons hl (.cons hr .nil)) (by simp [hl.beq_address, hr.beq_address]) hself.address_lt
      (Nat.le_trans hlle hrle) (fun _ => rfl) (fun _ => rfl) (fun _ => rfl)
    refine ⟨y, _, next₃, ?_, ?_, hle', hy⟩
    · rw [rewrite, run_bind_of_run hlrun, run_bind_of_run hrrun]
      exact hreuse
    · rw [offered_binary, List.append_assoc, tree, Pass.apply, run_bind_of_run hlapply,
        run_bind_of_run hrapply, hl.tree_eq, hr.tree_eq]
      rfl
  | grouping a x, s, s', next, answers, rest, hanswers, h => by
    obtain ⟨hself, hnodes⟩ := List.forall_mem_cons.mp h
    obtain ⟨x', r, next₁, hrun, happly, hle, hx⟩ := rewrite_tracks f x rest hanswers hnodes
    obtain ⟨y, next₂, hreuse, hle', hy⟩ := tracks_reuseIf (x'.address == x.address)
      (grouping a x) (grouping · x') s' (.cons hx .nil) (by simp [hx.beq_address])
      hself.address_lt hle (fun _ => rfl) (fun _ => rfl) (fun _ => rfl)
    refine ⟨y, _, next₂, ?_, ?_, hle', hy⟩
    · rw [rewrite, run_bind_of_run hrun]
      exact hreuse
    · rw [tree, Pass.apply, hx.tree_eq]
      exact run_bind_of_run happly
  | call a callee close args, s, s', next, answers, rest, hanswers, h => by
    obtain ⟨hself, hnodes⟩ := List.forall_mem_cons.mp h
    obtain ⟨hcnodes, hsnodes⟩ := List.forall_mem_append.mp hnodes
    obtain ⟨_, _, s₁, hcanswers, hsanswers, rfl⟩ := exists_run_mapM_append hanswers
    obtain ⟨answered, rc, next₁, hcrun, hcapply, hcle, hc⟩ := rewrite_tracks f callee
      (offeredOf args ++ rest) hcanswers
      (forall_coherent_mono hcnodes (List.subset_append_left _ _) (Nat.le_refl next))
    obtain ⟨args', rs, next₂, hsrun, hsapply, hsle, hs, hnone⟩ := rewriteList_tracks f args rest
      hsanswers (forall_coherent_mono hsnodes (List.subset_append_right _ _) hcle)
    -- the callee is a child like the others once its answer has been looked at
    generalize hcallee' : (if answered.tree.isName && answered.address != callee.address then
      some answered else none) = callee'
    obtain ⟨hcallee, hcnone⟩ := hc.asCallee hcallee'
    obtain ⟨y, next₃, hreuse, hle', hy⟩ := tracks_reuseIf (callee'.isNone && args'.isNone)
      (call a callee close args) (call · (callee'.getD callee) close (args'.getD args)) s'
      (.cons hcallee hs) (by rw [hcnone, hnone]; rfl) hself.address_lt (Nat.le_trans hcle hsle)
      (fun _ => rfl) (fun _ => rfl) (fun _ => rfl)
    refine ⟨y, _, next₃, ?_, ?_, hle', hy⟩
    · rw [rewrite, run_bind_of_run hcrun, run_bind_of_run hsrun, hcallee']
      exact hreuse
    · rw [offered_call, List.append_assoc, tree, Pass.apply, run_bind_of_run hcapply,
        run_bind_of_run hsapply, hcallee.tree_eq, hs.trees_eq]
      rfl
  | list a items, s, s', next, answers, rest, hanswers, h => by
    obtain ⟨hself, hnodes⟩ := List.forall_mem_cons.mp h
    obtain ⟨items', rs, next₁, hrun, happly, hle, hs, hnone⟩ := rewriteList_tracks f items rest
      hanswers hnodes
    obtain ⟨y, next₂, hreuse, hle', hy⟩ := tracks_reuseIf items'.isNone (list a items)
      (list · (items'.getD items)) s' hs hnone hself.address_lt hle (fun _ => rfl) (fun _ => rfl)
      (fun _ => rfl)
    refine ⟨y, _, next₂, ?_, ?_, hle', hy⟩
    · rw [rewrite, run_bind_of_run hrun]
      exact hreuse
    · rw [tree, Pass.apply, hs.trees_eq]
      exact run_bind_of_run happly

/-- Several handles in turn. There is no answer exactly if all of them are kept. -/
theorem rewriteList_tracks (f : Leaf → StateM σ (Option Handle)) : ∀ (xs : List Handle) {s s' : σ}
    {next : Nat} {answers : List (Option Handle)} (rest : List Handle),
    ((Expr.leavesOf (trees xs)).mapM f).run s = (answers, s') →
    (∀ y ∈ nodesOf xs, y.Coherent answers next) →
      ∃ xs' rs next', (rewriteList f xs).run (s, next) = (xs', s', next') ∧
        ((Pass.ofLeaf (judged f)).applyEach (trees xs)).run (s, offeredOf xs ++ rest) =
          (rs, s', rest) ∧
        next ≤ next' ∧ TracksAll xs (xs'.getD xs) rs ∧
        xs'.isNone = (rs.map (·.sharing)).all Sharing.isKept
  | [], s, s', next, answers, rest, hanswers, _ => by
    obtain ⟨-, rfl⟩ := Prod.mk.inj hanswers
    exact ⟨none, [], next, rfl, rfl, Nat.le_refl next, .nil, rfl⟩
  | x :: xs, s, s', next, answers, rest, hanswers, h => by
    obtain ⟨hnodes, hsnodes⟩ := List.forall_mem_append.mp h
    obtain ⟨_, _, s₁, hxanswers, hsanswers, rfl⟩ := exists_run_mapM_append hanswers
    obtain ⟨x', r, next₁, hrun, happly, hle, hx⟩ := rewrite_tracks f x (offeredOf xs ++ rest)
      hxanswers (forall_coherent_mono hnodes (List.subset_append_left _ _) (Nat.le_refl next))
    have hsnodes₁ := forall_coherent_mono hsnodes (List.subset_append_right _ _) hle
    -- from the first handle on that does not come back, there is an answer
    by_cases hsame : x'.address = x.address
    · obtain ⟨xs', rs, next₂, hsrun, hsapply, hsle, hs, hnone⟩ :=
        rewriteList_tracks f xs rest hsanswers hsnodes₁
      refine ⟨xs'.map (x :: ·), r :: rs, next₂, ?_, ?_, Nat.le_trans hle hsle, ?_, ?_⟩
      · rw [rewriteList, run_bind_of_run hrun, if_pos (beq_iff_eq.mpr hsame),
          run_bind_of_run hsrun]
        rfl
      · rw [offeredOf_cons, List.append_assoc]
        exact Pass.run_applyEach_cons happly hsapply
      · obtain rfl := hx.address_eq_iff.2 hsame
        cases xs' with
        | none => exact .cons hx hs
        | some _ => exact .cons hx hs
      · rw [Option.isNone_map, hnone, List.map_cons, List.all_cons,
          hx.address_eq_iff.1.mp hsame, Bool.true_and]
    · obtain ⟨xs', rs, next₂, hsrun, hsapply, hsle, hs⟩ :=
        rewriteEach_tracks f xs rest hsanswers hsnodes₁
      refine ⟨some (x' :: xs'), r :: rs, next₂, ?_, ?_, Nat.le_trans hle hsle, .cons hx hs, ?_⟩
      · rw [rewriteList, run_bind_of_run hrun, if_neg (mt beq_iff_eq.mp hsame),
          run_bind_of_run hsrun]
        rfl
      · rw [offeredOf_cons, List.append_assoc]
        exact Pass.run_applyEach_cons happly hsapply
      · have hrebuilt : r.sharing.isKept = false :=
          Bool.eq_false_iff.mpr (mt hx.address_eq_iff.1.mpr hsame)
        rw [List.map_cons, List.all_cons, hrebuilt]
        rfl

/-- The same where every handle is taken as it comes back. -/
theorem rewriteEach_tracks (f : Leaf → StateM σ (Option Handle)) : ∀ (xs : List Handle) {s s' : σ}
    {next : Nat} {answers : List (Option Handle)} (rest : List Handle),
    ((Expr.leavesOf (trees xs)).mapM f).run s = (answers, s') →
    (∀ y ∈ nodesOf xs, y.Coherent answers next) →
      ∃ xs' rs next', (rewriteEach f xs).run (s, next) = (xs', s', next') ∧
        ((Pass.ofLeaf (judged f)).applyEach (trees xs)).run (s, offeredOf xs ++ rest) =
          (rs, s', rest) ∧
        next ≤ next' ∧ TracksAll xs xs' rs
  | [], s, s', next, answers, rest, hanswers, _ => by
    obtain ⟨-, rfl⟩ := Prod.mk.inj hanswers
    exact ⟨[], [], next, rfl, rfl, Nat.le_refl next, .nil⟩
  | x :: xs, s, s', next, answers, rest, hanswers, h => by
    obtain ⟨hnodes, hsnodes⟩ := List.forall_mem_append.mp h
    obtain ⟨_, _, s₁, hxanswers, hsanswers, rfl⟩ := exists_run_mapM_append hanswers
    obtain ⟨x', r, next₁, hrun, happly, hle, hx⟩ := rewrite_tracks f x (offeredOf xs ++ rest)
      hxanswers (forall_coherent_mono hnodes (List.subset_append_left _ _) (Nat.le_refl next))
    obtain ⟨xs', rs, next₂, hsrun, hsapply, hsle, hs⟩ := rewriteEach_tracks f xs rest hsanswers
      (forall_coherent_mono hsnodes (List.subset_append_right _ _) hle)
    refine ⟨x' :: xs', r :: rs, next₂, ?_, ?_, Nat.le_trans hle hsle, .cons hx hs⟩
    · rw [rewriteEach, run_bind_of_run hrun, run_bind_of_run hsrun]
      rfl
    · rw [offeredOf_cons, List.append_assoc]
      exact Pass.run_applyEach_cons happly hsapply

end

end Rewrite

/-! ### Allocations that are kept -/

section Kept

variable {f : Leaf → StateM σ (Option Handle)} {s s' : σ} {next : Nat}
  {answers : List (Option Handle)}

/-- **An allocation is used again exactly if nothing at or below it was changed**, and then the old
handle stands there with all that it holds. -/
theorem exists_rewrite_keeps {x : Handle} (hnamed : x.tree.hasNamedCallees)
    (hanswers : (x.tree.leaves.mapM f).run s = (answers, s'))
    (hx : ∀ y ∈ x.nodes, y.Coherent answers next) :
    ∃ x' next', (x.rewrite f).run (s, next) = (x', s', next') ∧
      ∀ p y, x.at? p = some y → ∃ y', x'.at? p = some y' ∧
        (y'.address = y.address ↔ Untouched (x.tree.changed (x.verdicts answers)) p) ∧
        (y'.address = y.address → y' = y) := by
  obtain ⟨x', r, next', hrun, happly, -, htracks⟩ := rewrite_tracks f x [] hanswers hx
  rw [List.append_nil] at happly
  -- the pass that the rewriting follows reflects the changes that its verdicts make
  obtain ⟨r', as, m, happly', hleaves, -, hreflects⟩ :=
    Pass.apply_reflects (judged f) x.tree (s, x.offered) hnamed
  obtain ⟨rfl, rfl⟩ := Prod.mk.inj (happly.symm.trans happly')
  obtain ⟨rfl, -⟩ := Prod.mk.inj
    (hleaves.symm.trans (run_mapM_judged x.length_offered hanswers))
  refine ⟨x', next', hrun, fun p y hy => ?_⟩
  obtain ⟨y', hy', hkept, heq⟩ := htracks.at_place p y hy
  exact ⟨y', hy', hkept.trans (hreflects p y.tree (at?_tree hy)).1, heq⟩

/-- **Addresses and sharing say the same.** A pass over leaves with any state, whose answers come to
the same, keeps the nodes whose allocations are used again. -/
theorem address_eq_iff_keptAt {τ : Type} (g : Leaf → StateM τ Answer) {x : Handle}
    (hnamed : x.tree.hasNamedCallees) (hanswers : (x.tree.leaves.mapM f).run s = (answers, s'))
    (hx : ∀ y ∈ x.nodes, y.Coherent answers next) {t t' : τ}
    (hg : (x.tree.leaves.mapM g).run t = (x.verdicts answers, t')) :
    ∃ x' next' r, (x.rewrite f).run (s, next) = (x', s', next') ∧
      ((Pass.ofLeaf g).apply x.tree).run t = (r, t') ∧
      ∀ p y, x.at? p = some y → ∃ y', x'.at? p = some y' ∧
        (y'.address = y.address ↔ r.sharing.keptAt p) := by
  obtain ⟨x', next', hrun, hplaces⟩ := exists_rewrite_keeps hnamed hanswers hx
  -- both kinds of pass reflect the same changes, so they keep the same places
  obtain ⟨r, as, t₁, happly, hleaves, -, hreflects⟩ := Pass.apply_reflects g x.tree t hnamed
  obtain ⟨rfl, rfl⟩ := Prod.mk.inj (hleaves.symm.trans hg)
  refine ⟨x', next', r, hrun, happly, fun p y hy => ?_⟩
  obtain ⟨y', hy', hkept, -⟩ := hplaces p y hy
  exact ⟨y', hy', hkept.trans (hreflects p y.tree (at?_tree hy)).1.symm⟩

/-- **Comparing addresses builds anew as little as it can.** A pass may answer with any handles, as
long as two handles to one allocation hold the same node. In a tree whose callees are names, the old
allocation is at a place afterwards exactly if no leaf from there on was answered at another address
than its own, the answer for a callee counting only if it is a name. The handle that stands there is
then the old one, so if no leaf at all was changed, the very handle comes back. Of several handles
in turn, each is kept under the same condition, and there is no answer exactly if all of them are.
-/
theorem address_eq_iff_unchanged :
    (∀ x : Handle, x.tree.hasNamedCallees → (x.tree.leaves.mapM f).run s = (answers, s') →
      (∀ y ∈ x.nodes, y.Coherent answers next) → ∃ x' next',
      (x.rewrite f).run (s, next) = (x', s', next') ∧
      (∀ p y, x.at? p = some y → ∃ y', x'.at? p = some y' ∧
        (y'.address = y.address ↔ ∀ q ∈ x.tree.changed (x.verdicts answers), ¬ p <+: q) ∧
        (y'.address = y.address → y' = y)) ∧
      (x.tree.changed (x.verdicts answers) = [] → x' = x)) ∧
    ∀ xs : List Handle, Expr.haveNamedCallees (trees xs) →
      ((Expr.leavesOf (trees xs)).mapM f).run s = (answers, s') →
      (∀ y ∈ nodesOf xs, y.Coherent answers next) → ∃ answer next',
      (rewriteList f xs).run (s, next) = (answer, s', next') ∧
      (answer = none ↔
        changedAmong (Expr.sitesFrom 0 (trees xs)) (verdictsOf xs answers) = []) ∧
      ∀ xs', answer = some xs' → ∀ k x, xs[k]? = some x → ∃ x', xs'[k]? = some x' ∧
        (x'.address = x.address ↔
          ∀ q ∈ changedAmong (Expr.sitesFrom 0 (trees xs)) (verdictsOf xs answers),
            ¬ [k] <+: q) := by
  constructor
  · intro x hnamed hanswers hx
    obtain ⟨x', next', hrun, hplaces⟩ := exists_rewrite_keeps hnamed hanswers hx
    refine ⟨x', next', hrun, hplaces, fun hchanged => ?_⟩
    obtain ⟨y', hy', hkept, heq⟩ := hplaces [] x rfl
    obtain rfl : x' = y' := Option.some.inj hy'
    exact heq (hkept.mpr (untouched_root_iff.mpr hchanged))
  · intro xs hnamed hanswers hxs
    obtain ⟨answer, rs, next', hrun, happly, -, htracks, hnone⟩ :=
      rewriteList_tracks f xs [] hanswers hxs
    rw [List.append_nil] at happly
    obtain ⟨rs', as, m, happly', hleaves, -, hreflects⟩ :=
      Pass.applyEach_reflects (judged f) 0 (trees xs) (s, offeredOf xs) hnamed
    obtain ⟨rfl, rfl⟩ := Prod.mk.inj (happly.symm.trans happly')
    obtain ⟨rfl, -⟩ := Prod.mk.inj
      (hleaves.symm.trans (run_mapM_judged (length_offeredOf xs) hanswers))
    refine ⟨answer, next', hrun, ?_, ?_⟩
    · rw [← Option.isNone_iff_eq_none, hnone]
      exact hreflects.all_kept
    · rintro xs' rfl k x hk
      obtain ⟨x', r, hx', hr, hx⟩ := htracks.exists_tracks hk
      -- the places of one of the handles are those below it among all
      have htree : (trees xs)[k]? = some x.tree := by
        rw [trees_eq_map, List.getElem?_map, hk]
        rfl
      obtain ⟨r', hr', hplaces⟩ := hreflects.at_child k x.tree htree
      obtain rfl : r = r' := Option.some.inj (hr.symm.trans hr')
      rw [Nat.zero_add] at hplaces
      exact ⟨x', hx', hx.address_eq_iff.1.trans (hplaces [] x.tree rfl).1⟩

-- In `f(x, y) = z` the answer for `f` is no name, and the one for `x` is the node `y`: the call and
-- the comparison are allocated anew, in this order.
example : [[], [0], [0, 0], [0, 1], [0, 2], [1]].map (fun p =>
      (((allocatedCall.rewrite answerFirstTwo).run (0, 7)).1.at? p).map address) =
    [some 8, some 7, some 0, some 2, some 2, some 3] := by
  decide

end Kept

end Handle

end WhereClause
