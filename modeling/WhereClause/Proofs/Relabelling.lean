import WhereClause.Proofs.Grammar
import WhereClause.Proofs.Rebuilding

/-!
# Leaves in the places of leaves

Most passes put leaves in the places of leaves. If such a pass keeps names names, so that none of
its answers for a callee is ignored, it does to the leaves of a tree, taken as a list, what it does
to each of them in turn, and leaves the rest of the tree as it is (`Expr.graft_leafwise`). The rest
is the `Expr.shape` of the tree, and a tree is determined by its shape and its leaves
(`Expr.eq_of_shape_eq`). So whatever such a pass does can be told from lists of leaves.

The grammar looks at shapes only: it derives every tree that has the shape of a derived one, if the
callees are still names (`Derives.of_shape_eq`).

* `Expr.mapLeaves` — a function on every leaf of a tree;
* `Expr.hasNamedCallees` — whether all functions that a tree calls are names;
* `leafwise` — a leaf in the place of a leaf, with effects.
-/

namespace WhereClause

variable {σ : Type}

/-! ### Shapes -/

namespace Expr

mutual

/-- **A function on every leaf**, the rest of the tree staying as it is. -/
def mapLeaves (f : Leaf → Leaf) : Expr → Expr
  | leaf l => leaf (f l)
  | unary op x => unary op (x.mapLeaves f)
  | binary l op r => binary (l.mapLeaves f) op (r.mapLeaves f)
  | grouping x => grouping (x.mapLeaves f)
  | call callee close args => call (callee.mapLeaves f) close (mapLeavesAll f args)
  | list items => list (mapLeavesAll f items)

/-- The same in several trees. -/
def mapLeavesAll (f : Leaf → Leaf) : List Expr → List Expr
  | [] => []
  | e :: es => e.mapLeaves f :: mapLeavesAll f es

end

/-- **The shape of a tree**: all of it but what its leaves are. -/
def shape : Expr → Expr :=
  mapLeaves fun _ => .literal .null

theorem mapLeavesAll_eq_map (f : Leaf → Leaf) (es : List Expr) :
    mapLeavesAll f es = es.map (mapLeaves f) := by
  induction es with
  | nil => rfl
  | cons e es ih => rw [mapLeavesAll, ih, List.map_cons]

theorem shape_binary (l : Expr) (op : Token) (r : Expr) :
    (binary l op r).shape = binary l.shape op r.shape :=
  rfl

theorem shape_call (callee : Expr) (close : Token) (args : List Expr) :
    (call callee close args).shape = call callee.shape close (args.map shape) :=
  congrArg (call callee.shape close) (mapLeavesAll_eq_map _ args)

theorem shape_list (items : List Expr) : (list items).shape = list (items.map shape) :=
  congrArg list (mapLeavesAll_eq_map _ items)

section MapLeaves

variable (f g : Leaf → Leaf)

mutual

/-- The leaves of the new tree, in their order. -/
theorem leaves_mapLeaves : ∀ e : Expr, (e.mapLeaves f).leaves = e.leaves.map f
  | leaf l => rfl
  | unary op x => leaves_mapLeaves x
  | binary l op r => by
    rw [mapLeaves, leaves, leaves, leaves_mapLeaves l, leaves_mapLeaves r, List.map_append]
  | grouping x => leaves_mapLeaves x
  | call callee close args => by
    rw [mapLeaves, leaves, leaves, leaves_mapLeaves callee, leavesOf_mapLeavesAll args,
      List.map_append]
  | list items => leavesOf_mapLeavesAll items

/-- The leaves of several new trees. -/
theorem leavesOf_mapLeavesAll : ∀ es : List Expr,
    leavesOf (mapLeavesAll f es) = (leavesOf es).map f
  | [] => rfl
  | e :: es => by
    rw [mapLeavesAll, leavesOf, leavesOf, leaves_mapLeaves e, leavesOf_mapLeavesAll es,
      List.map_append]

end

mutual

/-- Two functions after each other. -/
theorem mapLeaves_mapLeaves : ∀ e : Expr, (e.mapLeaves f).mapLeaves g = e.mapLeaves (g ∘ f)
  | leaf l => rfl
  | unary op x => by rw [mapLeaves, mapLeaves, mapLeaves, mapLeaves_mapLeaves x]
  | binary l op r => by
    rw [mapLeaves, mapLeaves, mapLeaves, mapLeaves_mapLeaves l, mapLeaves_mapLeaves r]
  | grouping x => by rw [mapLeaves, mapLeaves, mapLeaves, mapLeaves_mapLeaves x]
  | call callee close args => by
    rw [mapLeaves, mapLeaves, mapLeaves, mapLeaves_mapLeaves callee, mapLeavesAll_mapLeavesAll args]
  | list items => by rw [mapLeaves, mapLeaves, mapLeaves, mapLeavesAll_mapLeavesAll items]

/-- The same in several trees. -/
theorem mapLeavesAll_mapLeavesAll : ∀ es : List Expr,
    mapLeavesAll g (mapLeavesAll f es) = mapLeavesAll (g ∘ f) es
  | [] => rfl
  | e :: es => by
    rw [mapLeavesAll, mapLeavesAll, mapLeavesAll, mapLeaves_mapLeaves e,
      mapLeavesAll_mapLeavesAll es]

end

/-- Other leaves leave the shape as it is. -/
theorem shape_mapLeaves (e : Expr) : (e.mapLeaves f).shape = e.shape :=
  mapLeaves_mapLeaves f _ e

mutual

/-- Other leaves leave the nesting as it is. -/
theorem nesting_mapLeaves : ∀ e : Expr, (e.mapLeaves f).nesting = e.nesting
  | leaf l => rfl
  | unary op x => by rw [mapLeaves, nesting, nesting, nesting_mapLeaves x]
  | binary l op r => by
    rw [mapLeaves, nesting, nesting, nesting_mapLeaves l, nesting_mapLeaves r]
  | grouping x => by rw [mapLeaves, nesting, nesting, nesting_mapLeaves x]
  | call callee close args => by
    -- a call without arguments stays one
    have hempty : (mapLeavesAll f args).isEmpty = args.isEmpty := by cases args <;> rfl
    rw [mapLeaves, nesting, nesting, nestingOf_mapLeavesAll args, hempty]
  | list items => by rw [mapLeaves, nesting, nesting, nestingOf_mapLeavesAll items]

/-- The same for several trees. -/
theorem nestingOf_mapLeavesAll : ∀ es : List Expr, nestingOf (mapLeavesAll f es) = nestingOf es
  | [] => rfl
  | e :: es => by
    rw [mapLeavesAll, nestingOf, nestingOf, nesting_mapLeaves e, nestingOf_mapLeavesAll es]

end

end MapLeaves

/-- The shape determines the nesting. -/
theorem nesting_eq_of_shape_eq {e e' : Expr} (h : e'.shape = e.shape) : e'.nesting = e.nesting := by
  calc e'.nesting
      _ = e'.shape.nesting := (nesting_mapLeaves _ e').symm
      _ = e.shape.nesting := by rw [h]
      _ = e.nesting := nesting_mapLeaves _ e

/-- The shape determines how many leaves there are. -/
theorem length_leaves_of_shape_eq {e e' : Expr} (h : e.shape = e'.shape) :
    e.leaves.length = e'.leaves.length := by
  have hlength : ∀ e : Expr, e.shape.leaves.length = e.leaves.length := by
    intro e
    rw [shape, leaves_mapLeaves, List.length_map]
  rw [← hlength e, h, hlength e']

section OfShape

variable {e : Expr}

/-- Only a leaf has the shape of a leaf, and likewise for all other nodes. -/
theorem exists_of_shape_leaf {l : Leaf} (h : e.shape = (leaf l).shape) : ∃ l', e = leaf l' := by
  cases e with
  | leaf l' => exact ⟨l', rfl⟩
  | _ => cases h

theorem exists_of_shape_unary {op : Token} {x : Expr} (h : e.shape = (unary op x).shape) :
    ∃ x', e = unary op x' ∧ x'.shape = x.shape := by
  cases e with
  | unary op' x' =>
    obtain ⟨rfl, hx⟩ := unary.inj h
    exact ⟨x', rfl, hx⟩
  | _ => cases h

theorem exists_of_shape_binary {op : Token} {l r : Expr} (h : e.shape = (binary l op r).shape) :
    ∃ l' r', e = binary l' op r' ∧ l'.shape = l.shape ∧ r'.shape = r.shape := by
  cases e with
  | binary l' op' r' =>
    obtain ⟨hl, rfl, hr⟩ := binary.inj h
    exact ⟨l', r', rfl, hl, hr⟩
  | _ => cases h

theorem exists_of_shape_grouping {x : Expr} (h : e.shape = (grouping x).shape) :
    ∃ x', e = grouping x' ∧ x'.shape = x.shape := by
  cases e with
  | grouping x' => exact ⟨x', rfl, grouping.inj h⟩
  | _ => cases h

theorem exists_of_shape_call {close : Token} {callee : Expr} {args : List Expr}
    (h : e.shape = (call callee close args).shape) :
    ∃ callee' args', e = call callee' close args' ∧ callee'.shape = callee.shape ∧
      args'.map shape = args.map shape := by
  cases e with
  | call callee' close' args' =>
    rw [shape_call, shape_call] at h
    obtain ⟨hcallee, rfl, hargs⟩ := call.inj h
    exact ⟨callee', args', rfl, hcallee, hargs⟩
  | _ => cases h

theorem exists_of_shape_list {items : List Expr} (h : e.shape = (list items).shape) :
    ∃ items', e = list items' ∧ items'.map shape = items.map shape := by
  cases e with
  | list items' =>
    rw [shape_list, shape_list] at h
    exact ⟨items', rfl, list.inj h⟩
  | _ => cases h

theorem shape_list_eq {items items' : List Expr} (h : items'.map shape = items.map shape) :
    (list items').shape = (list items).shape := by
  rw [shape_list, shape_list, h]

end OfShape

mutual

/-- **A tree is its shape and its leaves.** -/
theorem eq_of_shape_eq : ∀ {e e' : Expr}, e'.shape = e.shape → e'.leaves = e.leaves → e' = e
  | leaf l, _, hshape, hleaves => by
    obtain ⟨l', rfl⟩ := exists_of_shape_leaf hshape
    rw [List.singleton_inj.mp hleaves]
  | unary op x, _, hshape, hleaves => by
    obtain ⟨x', rfl, hx⟩ := exists_of_shape_unary hshape
    rw [eq_of_shape_eq hx hleaves]
  | binary l op r, _, hshape, hleaves => by
    obtain ⟨l', r', rfl, hl, hr⟩ := exists_of_shape_binary hshape
    -- equal shapes have equally many leaves, so the leaves come apart where the operands do
    obtain ⟨hleft, hright⟩ := List.append_inj hleaves (length_leaves_of_shape_eq hl)
    rw [eq_of_shape_eq hl hleft, eq_of_shape_eq hr hright]
  | grouping x, _, hshape, hleaves => by
    obtain ⟨x', rfl, hx⟩ := exists_of_shape_grouping hshape
    rw [eq_of_shape_eq hx hleaves]
  | call callee close args, _, hshape, hleaves => by
    obtain ⟨callee', args', rfl, hcallee, hargs⟩ := exists_of_shape_call hshape
    obtain ⟨hname, hrest⟩ := List.append_inj hleaves (length_leaves_of_shape_eq hcallee)
    rw [eq_of_shape_eq hcallee hname, eq_of_map_shape_eq hargs hrest]
  | list items, _, hshape, hleaves => by
    obtain ⟨items', rfl, hitems⟩ := exists_of_shape_list hshape
    rw [eq_of_map_shape_eq hitems hleaves]

/-- Several trees are their shapes and their leaves. -/
theorem eq_of_map_shape_eq : ∀ {es es' : List Expr},
    es'.map shape = es.map shape → leavesOf es' = leavesOf es → es' = es
  | [], _, hshapes, _ => List.map_eq_nil_iff.mp hshapes
  | e :: es, _, hshapes, hleaves => by
    obtain ⟨e', es', rfl, he, hes⟩ := List.map_eq_cons_iff.mp hshapes
    obtain ⟨hfirst, hrest⟩ := List.append_inj hleaves (length_leaves_of_shape_eq he)
    rw [eq_of_shape_eq he hfirst, eq_of_map_shape_eq hes hrest]

end

/-! ### Named callees -/

/-- Whether a tree is a name. -/
def isName : Expr → Bool
  | identifier _ => true
  | _ => false

/-- What is a name. -/
theorem exists_of_isName {e : Expr} (h : e.isName) : ∃ name, e = identifier name := by
  unfold isName at h
  split at h
  · exact ⟨_, rfl⟩
  · cases h

mutual

/-- **Whether all functions that a tree calls are names.** -/
def hasNamedCallees : Expr → Bool
  | leaf _ => true
  | unary _ x => x.hasNamedCallees
  | binary l _ r => l.hasNamedCallees && r.hasNamedCallees
  | grouping x => x.hasNamedCallees
  | call callee _ args => callee.isName && haveNamedCallees args
  | list items => haveNamedCallees items

/-- The same for several trees. -/
def haveNamedCallees : List Expr → Bool
  | [] => true
  | e :: es => e.hasNamedCallees && haveNamedCallees es

end

end Expr

/-! ### Relabelling -/

/-- **A leaf in the place of a leaf.** -/
def leafwise (g : Leaf → StateM σ Leaf) (l : Leaf) : StateM σ Expr := do
  let l' ← g l
  pure (.leaf l')

/-- Whether names are answered with names. -/
def KeepsNames (g : Leaf → StateM σ Leaf) : Prop :=
  ∀ name s, ∃ name' s', (g (.identifier name)).run s = (.identifier name', s')

theorem run_leafwise {g : Leaf → StateM σ Leaf} {l l' : Leaf} {s s' : σ}
    (h : (g l).run s = (l', s')) : (leafwise g l).run s = (.leaf l', s') :=
  run_bind_of_run h

theorem run_mapM_singleton {α β : Type} {g : α → StateM σ β} {a : α} {b : β} {s s' : σ}
    (h : (g a).run s = (b, s')) : ([a].mapM g).run s = ([b], s') := by
  rw [List.mapM_cons, run_bind_of_run h, List.mapM_nil]
  rfl

/-- A run over a list goes through its parts in turn. -/
theorem run_mapM_append {α β : Type} {g : α → StateM σ β} {xs ys : List α} {xs' ys' : List β}
    {s s₁ s₂ : σ} (hx : (xs.mapM g).run s = (xs', s₁)) (hy : (ys.mapM g).run s₁ = (ys', s₂)) :
    ((xs ++ ys).mapM g).run s = (xs' ++ ys', s₂) := by
  rw [List.mapM_append, run_bind_of_run hx, run_bind_of_run hy]
  rfl

namespace Expr

variable {g : Leaf → StateM σ Leaf}

mutual

/-- **Relabelling a tree is relabelling its leaves**, one after the other; the shape of the tree
stays, and its callees stay names. -/
theorem graft_leafwise (hg : KeepsNames g) : ∀ (e : Expr) (s : σ), e.hasNamedCallees →
    ∃ e' s', (e.graft (leafwise g)).run s = (e', s') ∧
      (e.leaves.mapM g).run s = (e'.leaves, s') ∧ e'.shape = e.shape ∧ e'.hasNamedCallees
  | leaf l, s, _ => by
    rcases hl : (g l).run s with ⟨l', s'⟩
    exact ⟨leaf l', s', run_leafwise hl, run_mapM_singleton hl, rfl, rfl⟩
  | unary op x, s, h => by
    obtain ⟨x', s₁, hx, hleaves, hshape, hnamed⟩ := graft_leafwise hg x s h
    refine ⟨unary op x', s₁, ?_, hleaves, congrArg (unary op) hshape, hnamed⟩
    rw [graft, run_bind_of_run hx]
    rfl
  | binary l op r, s, h => by
    obtain ⟨hl, hr⟩ := Bool.and_eq_true_iff.mp h
    obtain ⟨l', s₁, hlrun, hlleaves, hlshape, hlnamed⟩ := graft_leafwise hg l s hl
    -- the right operand is relabelled in the state that the left one has left
    obtain ⟨r', s₂, hrrun, hrleaves, hrshape, hrnamed⟩ := graft_leafwise hg r s₁ hr
    refine ⟨binary l' op r', s₂, ?_, run_mapM_append hlleaves hrleaves, ?_,
      Bool.and_eq_true_iff.mpr ⟨hlnamed, hrnamed⟩⟩
    · rw [graft, run_bind_of_run hlrun, run_bind_of_run hrrun]
      rfl
    · rw [shape_binary, shape_binary, hlshape, hrshape]
  | grouping x, s, h => by
    obtain ⟨x', s₁, hx, hleaves, hshape, hnamed⟩ := graft_leafwise hg x s h
    refine ⟨grouping x', s₁, ?_, hleaves, congrArg grouping hshape, hnamed⟩
    rw [graft, run_bind_of_run hx]
    rfl
  | call callee close args, s, h => by
    obtain ⟨hcallee, hargs⟩ := Bool.and_eq_true_iff.mp h
    obtain ⟨name, rfl⟩ := exists_of_isName hcallee
    -- the answer for the callee is a name, so it is taken
    obtain ⟨name', s₁, hname⟩ := hg name s
    obtain ⟨args', s₂, hrun, hleaves, hshapes, hnamed⟩ := graftAll_leafwise hg args s₁ hargs
    refine ⟨call (identifier name') close args', s₂, ?_,
      run_mapM_append (run_mapM_singleton hname) hleaves, ?_, hnamed⟩
    · rw [graft, graft, run_bind_of_run (run_leafwise hname), run_bind_of_run hrun]
      rfl
    · rw [shape_call, shape_call, hshapes]
      rfl
  | list items, s, h => by
    obtain ⟨items', s₁, hrun, hleaves, hshapes, hnamed⟩ := graftAll_leafwise hg items s h
    refine ⟨list items', s₁, ?_, hleaves, shape_list_eq hshapes, hnamed⟩
    rw [graft, run_bind_of_run hrun]
    rfl

/-- Relabelling several trees in turn. -/
theorem graftAll_leafwise (hg : KeepsNames g) : ∀ (es : List Expr) (s : σ), haveNamedCallees es →
    ∃ es' s', (graftAll (leafwise g) es).run s = (es', s') ∧
      ((leavesOf es).mapM g).run s = (leavesOf es', s') ∧
      es'.map shape = es.map shape ∧ haveNamedCallees es'
  | [], s, _ => ⟨[], s, rfl, rfl, rfl, rfl⟩
  | e :: es, s, h => by
    obtain ⟨he, hes⟩ := Bool.and_eq_true_iff.mp h
    obtain ⟨e', s₁, hrun, hleaves, hshape, hnamed⟩ := graft_leafwise hg e s he
    obtain ⟨es', s₂, hruns, hsleaves, hshapes, hsnamed⟩ := graftAll_leafwise hg es s₁ hes
    refine ⟨e' :: es', s₂, run_graftAll_cons hrun hruns, run_mapM_append hleaves hsleaves, ?_,
      Bool.and_eq_true_iff.mpr ⟨hnamed, hsnamed⟩⟩
    rw [List.map_cons, List.map_cons, hshape, hshapes]

end

/-! A pass that answers leaves with leaves, but not always names with names, still leaves the shape
of a tree as it is: its answer for a callee is ignored where it is no name. -/

section Property

variable {P : Leaf → Prop} {f : Leaf → StateM σ Expr}

mutual

/-- **Leaves with a property in the places of leaves with it.** The shape of the tree stays, its
callees stay names, and all its leaves have the property again. -/
theorem graft_of_leaves (hf : ∀ l s, P l → ∃ l' s', (f l).run s = (leaf l', s') ∧ P l') :
    ∀ (e : Expr) (s : σ), e.hasNamedCallees → (∀ l ∈ e.leaves, P l) →
      ∃ e' s', (e.graft f).run s = (e', s') ∧ e'.shape = e.shape ∧ e'.hasNamedCallees ∧
        ∀ l ∈ e'.leaves, P l
  | leaf l, s, _, hleaves => by
    obtain ⟨l', s', hrun, hl'⟩ := hf l s (hleaves l (List.mem_singleton.mpr rfl))
    exact ⟨leaf l', s', hrun, rfl, rfl, List.forall_mem_singleton.mpr hl'⟩
  | unary op x, s, h, hleaves => by
    obtain ⟨x', s₁, hx, hshape, hnamed, hleaves'⟩ := graft_of_leaves hf x s h hleaves
    refine ⟨unary op x', s₁, ?_, congrArg (unary op) hshape, hnamed, hleaves'⟩
    rw [graft, run_bind_of_run hx]
    rfl
  | binary l op r, s, h, hleaves => by
    obtain ⟨hl, hr⟩ := Bool.and_eq_true_iff.mp h
    obtain ⟨hlleaves, hrleaves⟩ := List.forall_mem_append.mp hleaves
    obtain ⟨l', s₁, hlrun, hlshape, hlnamed, hlleaves'⟩ := graft_of_leaves hf l s hl hlleaves
    obtain ⟨r', s₂, hrrun, hrshape, hrnamed, hrleaves'⟩ := graft_of_leaves hf r s₁ hr hrleaves
    refine ⟨binary l' op r', s₂, ?_, ?_, Bool.and_eq_true_iff.mpr ⟨hlnamed, hrnamed⟩,
      List.forall_mem_append.mpr ⟨hlleaves', hrleaves'⟩⟩
    · rw [graft, run_bind_of_run hlrun, run_bind_of_run hrrun]
      rfl
    · rw [shape_binary, shape_binary, hlshape, hrshape]
  | grouping x, s, h, hleaves => by
    obtain ⟨x', s₁, hx, hshape, hnamed, hleaves'⟩ := graft_of_leaves hf x s h hleaves
    refine ⟨grouping x', s₁, ?_, congrArg grouping hshape, hnamed, hleaves'⟩
    rw [graft, run_bind_of_run hx]
    rfl
  | call callee close args, s, h, hleaves => by
    obtain ⟨hcallee, hargs⟩ := Bool.and_eq_true_iff.mp h
    obtain ⟨name, rfl⟩ := exists_of_isName hcallee
    obtain ⟨hname, hargsLeaves⟩ := List.forall_mem_cons.mp hleaves
    obtain ⟨l', s₁, hrun, hl'⟩ := hf (.identifier name) s hname
    obtain ⟨args', s₂, hargsRun, hshapes, hnamed, hargsLeaves'⟩ :=
      graftAll_of_leaves hf args s₁ hargs hargsLeaves
    -- whether the answer is taken or ignored, a name with the property stands there
    obtain ⟨name', hname', hP⟩ : ∃ name', (identifier name).calleeOr (leaf l') = identifier name' ∧
        P (.identifier name') := by
      cases l' with
      | identifier name' => exact ⟨name', rfl, hl'⟩
      | literal _ | parameter _ => exact ⟨name, rfl, hname⟩
    refine ⟨call (identifier name') close args', s₂, ?_, ?_, hnamed,
      List.forall_mem_cons.mpr ⟨hP, hargsLeaves'⟩⟩
    · rw [graft, graft, run_bind_of_run hrun, run_bind_of_run hargsRun, hname']
      rfl
    · rw [shape_call, shape_call, hshapes]
      rfl
  | list items, s, h, hleaves => by
    obtain ⟨items', s₁, hrun, hshapes, hnamed, hleaves'⟩ := graftAll_of_leaves hf items s h hleaves
    refine ⟨list items', s₁, ?_, shape_list_eq hshapes, hnamed, hleaves'⟩
    rw [graft, run_bind_of_run hrun]
    rfl

/-- The same for several trees in turn. -/
theorem graftAll_of_leaves (hf : ∀ l s, P l → ∃ l' s', (f l).run s = (leaf l', s') ∧ P l') :
    ∀ (es : List Expr) (s : σ), haveNamedCallees es → (∀ l ∈ leavesOf es, P l) →
      ∃ es' s', (graftAll f es).run s = (es', s') ∧ es'.map shape = es.map shape ∧
        haveNamedCallees es' ∧ ∀ l ∈ leavesOf es', P l
  | [], s, _, _ => ⟨[], s, rfl, rfl, rfl, List.forall_mem_nil _⟩
  | e :: es, s, h, hleaves => by
    obtain ⟨he, hes⟩ := Bool.and_eq_true_iff.mp h
    obtain ⟨hleaves, hsleaves⟩ := List.forall_mem_append.mp hleaves
    obtain ⟨e', s₁, hrun, hshape, hnamed, hleaves'⟩ := graft_of_leaves hf e s he hleaves
    obtain ⟨es', s₂, hruns, hshapes, hsnamed, hsleaves'⟩ := graftAll_of_leaves hf es s₁ hes hsleaves
    refine ⟨e' :: es', s₂, run_graftAll_cons hrun hruns, ?_,
      Bool.and_eq_true_iff.mpr ⟨hnamed, hsnamed⟩,
      List.forall_mem_append.mpr ⟨hleaves', hsleaves'⟩⟩
    rw [List.map_cons, List.map_cons, hshape, hshapes]

end

end Property

end Expr

/-- **What a pass makes of a tree if it puts leaves in the places of leaves.** -/
theorem Pass.apply_of_leafwise {f : Leaf → StateM σ Answer} {g : Leaf → StateM σ Leaf}
    (hfg : ∀ l, onLeaf f l = leafwise g l) (hg : KeepsNames g) (e : Expr) (s : σ)
    (he : e.hasNamedCallees) :
    ∃ r s', ((ofLeaf f).apply e).run s = (r, s') ∧
      (e.leaves.mapM g).run s = (r.tree.leaves, s') ∧ r.tree.shape = e.shape ∧
      r.tree.hasNamedCallees := by
  obtain ⟨r, e', s', happly, hgraft, hof⟩ := apply_ofLeaf f e s
  rw [funext hfg] at hgraft
  obtain ⟨e'', s'', hgraft', hleaves, hshape, hnamed⟩ := Expr.graft_leafwise hg e s he
  -- both describe the one run of the graft
  obtain ⟨rfl, rfl⟩ : e' = e'' ∧ s' = s'' := Prod.mk.inj (hgraft.symm.trans hgraft')
  obtain rfl := hof.tree_eq
  exact ⟨r, s', happly, hleaves, hshape, hnamed⟩

/-- **Answers that keep a property of leaves**: what they put in the place of a leaf with the
property is another such leaf, whatever the state. -/
def Pass.AnswersKeep (P : Leaf → Prop) (f : Leaf → StateM σ Answer) : Prop :=
  ∀ l s e, P l → ((f l).run s).1 = .replace e → ∃ l', e = .leaf l' ∧ P l'

namespace Pass.AnswersKeep

variable {P : Leaf → Prop} {f : Leaf → StateM σ Answer}

/-- What comes for a leaf with the property is a leaf with it. -/
theorem run_onLeaf (hf : AnswersKeep P f) (l : Leaf) (s : σ) (hl : P l) :
    ∃ l' s', (onLeaf f l).run s = (.leaf l', s') ∧ P l' := by
  rcases hrun : (f l).run s with ⟨a, s'⟩
  cases a with
  | keep => exact ⟨l, s', run_bind_of_run hrun, hl⟩
  | replace e =>
    obtain ⟨l', rfl, hl'⟩ := hf l s e hl (by rw [hrun])
    exact ⟨l', s', run_bind_of_run hrun, hl'⟩

/-- **What a pass makes of a tree if its answers keep a property of leaves.** -/
theorem apply (hf : AnswersKeep P f) (e : Expr) (s : σ) (he : e.hasNamedCallees)
    (hleaves : ∀ l ∈ e.leaves, P l) :
    ∃ r s', ((ofLeaf f).apply e).run s = (r, s') ∧ r.tree.shape = e.shape ∧
      r.tree.hasNamedCallees ∧ ∀ l ∈ r.tree.leaves, P l := by
  obtain ⟨r, e', s', happly, hgraft, hof⟩ := apply_ofLeaf f e s
  obtain ⟨e'', s'', hgraft', hkept⟩ := Expr.graft_of_leaves hf.run_onLeaf e s he hleaves
  -- both describe the one run of the graft
  obtain ⟨rfl, rfl⟩ : e' = e'' ∧ s' = s'' := Prod.mk.inj (hgraft.symm.trans hgraft')
  obtain rfl := hof.tree_eq
  exact ⟨r, s', happly, hkept⟩

end Pass.AnswersKeep

namespace Expr

/-! ### Shapes that the grammar derives -/

theorem haveNamedCallees_eq_all (es : List Expr) :
    haveNamedCallees es = es.all hasNamedCallees := by
  induction es with
  | nil => rfl
  | cons e es ih => rw [haveNamedCallees, ih, List.all_cons]

/-- Whether a tree is an expression in parentheses. -/
def isGrouping : Expr → Bool
  | grouping _ => true
  | _ => false

theorem isGrouping_shape (e : Expr) : e.shape.isGrouping = e.isGrouping := by
  cases e <;> rfl

end Expr

/-- The grammar calls nothing but names. -/
theorem Derives.hasNamedCallees {r : Rule} {ts : List Token} {e : Expr} (h : Derives r ts e) :
    e.hasNamedCallees := by
  induction h with
  | lift _ ih | plain _ ih | members _ _ _ ih | grouping _ _ _ ih | signed _ _ ih => exact ih
  | chain _ _ _ ihl ihr => exact Bool.and_eq_true_iff.mpr ⟨ihl, ihr⟩
  | range _ _ _ _ ihl ihr => exact Bool.and_eq_true_iff.mpr ⟨ihl, ihr⟩
  | parameter | literal | name | callEmpty => rfl
  | call _ _ _ _ ih => exact ih
  | argument _ ih => exact Bool.and_eq_true_iff.mpr ⟨ih, rfl⟩
  | arguments _ _ _ ihs ih =>
    -- the last argument is at the end of the list, so it is seen as a list
    rw [Expr.hasNamedCallees, Expr.haveNamedCallees_eq_all] at ihs ⊢
    rw [List.all_append, ihs, List.all_cons, ih]
    rfl

/-- A tree without infix operators starts with a parenthesis only where it is in parentheses. -/
theorem Derives.head_ne_leftParen_iff {ts : List Token} {e : Expr} (h : Derives .unary ts e) :
    (∀ t ∈ ts.head?, t.kind ≠ .leftParen) ↔ e.isGrouping = false := by
  -- all that does not start with a parenthesis starts with a token of some other kind
  have hstart : ∀ {t : Token} {us : List Token}, t.kind ≠ .leftParen →
      ∀ t' ∈ (t :: us).head?, t'.kind ≠ .leftParen := by
    rintro t us ht _ ⟨⟩
    exact ht
  cases h with
  | @signed op _ _ hop _ =>
    refine iff_of_true (hstart fun hkind => ?_) rfl
    rw [hkind] at hop
    exact absurd hop (by decide)
  | plain h =>
    cases h with
    | parameter ht => exact iff_of_true (hstart (by simp [ht])) rfl
    | literal hv =>
      refine iff_of_true (hstart fun hkind => ?_) rfl
      simp [Token.value?, hkind] at hv
    | name hname =>
      obtain ⟨t, us, rfl, ht⟩ := hname.starts
      exact iff_of_true (hstart (by simp [ht])) rfl
    | callEmpty hname =>
      obtain ⟨t, us, rfl, ht⟩ := hname.starts
      exact iff_of_true (hstart (by simp [ht])) rfl
    | call hname =>
      obtain ⟨t, us, rfl, ht⟩ := hname.starts
      exact iff_of_true (hstart (by simp [ht])) rfl
    -- this one starts with a parenthesis
    | grouping ho => exact iff_of_false (fun hhead => hhead _ rfl ho) (by simp [Expr.isGrouping])

/-- Every leaf is derived from a token. -/
theorem Derives.exists_leaf (l : Leaf) : ∃ t : Token, Derives .operand [t] (.leaf l) := by
  cases l with
  | literal v => exact ⟨(Token.ofKind .string "").withLiteral v, .literal rfl⟩
  | identifier name => exact ⟨.ofKind .identifier name, .name (.one rfl)⟩
  | parameter name => exact ⟨.ofKind .parameter name, .parameter rfl⟩

/-- **Derivable from tokens of a certain sort.** -/
def DerivableFrom (P : Token → Prop) (r : Rule) (e : Expr) : Prop :=
  ∃ ts, Derives r ts e ∧ ∀ t ∈ ts, P t

/-- A name that is derivable is made of identifiers and dots of that sort. -/
theorem DerivableFrom.exists_named {P : Token → Prop} {name : String}
    (h : DerivableFrom P .operand (.identifier name)) : ∃ ts, Named ts name ∧ ∀ t ∈ ts, P t := by
  obtain ⟨ts, hderives, hts⟩ := h
  cases hderives with
  | name hname => exact ⟨ts, hname, hts⟩

section ForallMem

variable {P : Token → Prop} {ts us : List Token}

/-- What holds of all tokens with a pair of parentheses around them. -/
theorem forall_mem_enclosed {opening close : Token} :
    (∀ t ∈ opening :: ts ++ [close], P t) ↔ P opening ∧ (∀ t ∈ ts, P t) ∧ P close := by
  rw [List.cons_append, List.forall_mem_cons, List.forall_mem_append, List.forall_mem_singleton]

/-- What holds of all tokens with one between them. -/
theorem forall_mem_infix {op : Token} :
    (∀ t ∈ ts ++ op :: us, P t) ↔ (∀ t ∈ ts, P t) ∧ P op ∧ ∀ t ∈ us, P t := by
  rw [List.forall_mem_append, List.forall_mem_cons]

end ForallMem

/-- **The grammar looks at shapes only.** A tree of the shape of a derived one is derivable too if
its callees are names, and from tokens of the same sort if its leaves are. -/
theorem Derives.of_shape_eq {P : Token → Prop} {r : Rule} {ts : List Token} {e : Expr}
    (h : Derives r ts e) (hts : ∀ t ∈ ts, P t) :
    ∀ {e' : Expr}, e'.shape = e.shape → e'.hasNamedCallees →
      (∀ l ∈ e'.leaves, DerivableFrom P .operand (.leaf l)) → DerivableFrom P r e' := by
  -- The operators and parentheses of the old derivation serve in the new one too, and each leaf
  -- brings tokens of its own.
  induction h with
  | lift _ ih =>
    intro e' hshape hnamed hleaves
    obtain ⟨ts', h', hts'⟩ := ih hts hshape hnamed hleaves
    exact ⟨ts', .lift h', hts'⟩
  | plain _ ih =>
    intro e' hshape hnamed hleaves
    obtain ⟨ts', h', hts'⟩ := ih hts hshape hnamed hleaves
    exact ⟨ts', .plain h', hts'⟩
  | chain _ hop _ ihl ihr =>
    intro e' hshape hnamed hleaves
    obtain ⟨l', r', rfl, hl, hr⟩ := Expr.exists_of_shape_binary hshape
    obtain ⟨hlnamed, hrnamed⟩ := Bool.and_eq_true_iff.mp hnamed
    obtain ⟨hlleaves, hrleaves⟩ := List.forall_mem_append.mp hleaves
    obtain ⟨htsl, htop, htsr⟩ := forall_mem_infix.mp hts
    obtain ⟨ts', hl', hts'⟩ := ihl htsl hl hlnamed hlleaves
    obtain ⟨us', hr', hus'⟩ := ihr htsr hr hrnamed hrleaves
    exact ⟨_, .chain hl' hop hr', forall_mem_infix.mpr ⟨hts', htop, hus'⟩⟩
  | range hfirst hhead hop _ ihl ihr =>
    intro e' hshape hnamed hleaves
    obtain ⟨first', last', rfl, hl, hr⟩ := Expr.exists_of_shape_binary hshape
    obtain ⟨hlnamed, hrnamed⟩ := Bool.and_eq_true_iff.mp hnamed
    obtain ⟨hlleaves, hrleaves⟩ := List.forall_mem_append.mp hleaves
    obtain ⟨htsl, htop, htsr⟩ := forall_mem_infix.mp hts
    obtain ⟨ts', hl', hts'⟩ := ihl htsl hl hlnamed hlleaves
    obtain ⟨us', hr', hus'⟩ := ihr htsr hr hrnamed hrleaves
    -- whether the first bound is in parentheses is a matter of shape
    have hgrouping : first'.isGrouping = false := by
      rw [← Expr.isGrouping_shape, hl, Expr.isGrouping_shape]
      exact hfirst.head_ne_leftParen_iff.mp hhead
    exact ⟨_, .range hl' (hl'.head_ne_leftParen_iff.mpr hgrouping) hop hr',
      forall_mem_infix.mpr ⟨hts', htop, hus'⟩⟩
  | signed hop _ ih =>
    intro e' hshape hnamed hleaves
    obtain ⟨x', rfl, hx⟩ := Expr.exists_of_shape_unary hshape
    obtain ⟨htop, hts⟩ := List.forall_mem_cons.mp hts
    obtain ⟨ts', hx', hts'⟩ := ih hts hx hnamed hleaves
    exact ⟨_, .signed hop hx', List.forall_mem_cons.mpr ⟨htop, hts'⟩⟩
  | members ho _ hc ih =>
    intro e' hshape hnamed hleaves
    obtain ⟨items', rfl, -⟩ := Expr.exists_of_shape_list hshape
    obtain ⟨hopening, hts, hclose⟩ := forall_mem_enclosed.mp hts
    obtain ⟨ts', h', hts'⟩ := ih hts hshape hnamed hleaves
    exact ⟨_, .members ho h' hc, forall_mem_enclosed.mpr ⟨hopening, hts', hclose⟩⟩
  | grouping ho _ hc ih =>
    intro e' hshape hnamed hleaves
    obtain ⟨x', rfl, hx⟩ := Expr.exists_of_shape_grouping hshape
    obtain ⟨hopening, hts, hclose⟩ := forall_mem_enclosed.mp hts
    obtain ⟨ts', hx', hts'⟩ := ih hts hx hnamed hleaves
    exact ⟨_, .grouping ho hx' hc, forall_mem_enclosed.mpr ⟨hopening, hts', hclose⟩⟩
  | parameter _ | literal _ | name _ =>
    intro e' hshape _ hleaves
    obtain ⟨l', rfl⟩ := Expr.exists_of_shape_leaf hshape
    exact hleaves l' (List.mem_singleton.mpr rfl)
  | callEmpty _ ho hc =>
    intro e' hshape hnamed hleaves
    obtain ⟨callee', args', rfl, -, hargs⟩ := Expr.exists_of_shape_call hshape
    -- the tree of this shape has no arguments either
    obtain rfl := List.map_eq_nil_iff.mp hargs
    obtain ⟨name', rfl⟩ := Expr.exists_of_isName (Bool.and_eq_true_iff.mp hnamed).1
    obtain ⟨us', hname', hus'⟩ := (hleaves _ (List.mem_cons_self ..)).exists_named
    obtain ⟨-, hparens⟩ := List.forall_mem_append.mp hts
    exact ⟨_, .callEmpty hname' ho hc, List.forall_mem_append.mpr ⟨hus', hparens⟩⟩
  | call _ ho _ hc ih =>
    intro e' hshape hnamed hleaves
    obtain ⟨callee', args', rfl, -, hargs⟩ := Expr.exists_of_shape_call hshape
    obtain ⟨hcallee, hargsNamed⟩ := Bool.and_eq_true_iff.mp hnamed
    obtain ⟨name', rfl⟩ := Expr.exists_of_isName hcallee
    obtain ⟨hname, hargsLeaves⟩ := List.forall_mem_cons.mp hleaves
    -- the new name may have other segments than the old one
    obtain ⟨us', hname', hus'⟩ := hname.exists_named
    rw [List.append_assoc] at hts
    obtain ⟨-, hrest⟩ := List.forall_mem_append.mp hts
    obtain ⟨hopening, hts, hclose⟩ := forall_mem_enclosed.mp hrest
    obtain ⟨ts', hargs', hts'⟩ := ih hts (Expr.shape_list_eq hargs) hargsNamed hargsLeaves
    refine ⟨_, .call hname' ho hargs' hc, ?_⟩
    rw [List.append_assoc]
    exact List.forall_mem_append.mpr ⟨hus', forall_mem_enclosed.mpr ⟨hopening, hts', hclose⟩⟩
  | argument _ ih =>
    intro e' hshape hnamed hleaves
    obtain ⟨items', rfl, hitems⟩ := Expr.exists_of_shape_list hshape
    obtain ⟨x', rest', rfl, hx, hrest⟩ := List.map_eq_cons_iff.mp hitems
    obtain rfl := List.map_eq_nil_iff.mp hrest
    obtain ⟨hleaves, -⟩ := List.forall_mem_append.mp hleaves
    obtain ⟨ts', hx', hts'⟩ := ih hts hx (Bool.and_eq_true_iff.mp hnamed).1 hleaves
    exact ⟨_, .argument hx', hts'⟩
  | arguments _ hcomma _ ihs ih =>
    intro e' hshape hnamed hleaves
    obtain ⟨items', rfl, hitems⟩ := Expr.exists_of_shape_list hshape
    rw [List.map_append] at hitems
    -- the last argument comes off on both sides
    obtain ⟨before', last', rfl, hbefore, hlast⟩ := List.map_eq_append_iff.mp hitems
    obtain ⟨x', rest', rfl, hx, hrest⟩ := List.map_eq_cons_iff.mp hlast
    obtain rfl := List.map_eq_nil_iff.mp hrest
    rw [Expr.hasNamedCallees, Expr.haveNamedCallees_eq_all, List.all_append,
      Bool.and_eq_true_iff, ← Expr.haveNamedCallees_eq_all] at hnamed
    rw [Expr.leaves, Expr.leavesOf_append] at hleaves
    obtain ⟨hbeforeLeaves, hlastLeaves⟩ := List.forall_mem_append.mp hleaves
    obtain ⟨hxLeaves, -⟩ := List.forall_mem_append.mp hlastLeaves
    obtain ⟨htsl, htcomma, htsr⟩ := forall_mem_infix.mp hts
    obtain ⟨ts', hbefore', hts'⟩ := ihs htsl (Expr.shape_list_eq hbefore) hnamed.1 hbeforeLeaves
    obtain ⟨us', hx', hus'⟩ := ih htsr hx (Bool.and_eq_true_iff.mp hnamed.2).1 hxLeaves
    exact ⟨_, .arguments hbefore' hcomma hx', forall_mem_infix.mpr ⟨hts', htcomma, hus'⟩⟩

end WhereClause
