import WhereClause.Expr

/-!
# Passes over a tree

A pass is offered every leaf of a tree once, in source order, and answers for each whether it is
kept or replaced. A composite node is built anew only where something below it was replaced; all
else of the old tree is used again as it is. A pass may then also replace composite nodes, from
the inside outwards. Passes can carry state, in whatever monad they run.

Which nodes of the new tree are nodes of the old one is part of the result: a `Sharing` says for
every place of the new tree whether the old node was kept there or a new one was built.

The callee of a call has to stay a name: an answer that makes anything else of it is ignored.

Trees may also be changed in other ways, by whatever looks at a node before its children, leaves
some of them out or goes through them in another order. Such a change is a `Rewriting`: nothing is
known of it but the tree that it gives. Every pass makes one.

* `Pass.apply` — applies a pass to a tree;
* `Pass.applyAll?` — applies a pass to several trees, with no answer where all were kept;
* `Pass.rewriting` — a pass as a change of trees like any other.
-/

namespace WhereClause

/-- **What a pass answers for a node.** -/
inductive Answer where
  /-- The node stays. -/
  | keep
  /-- Another node takes its place. -/
  | replace (e : Expr)

/-- **A pass.** -/
structure Pass (m : Type → Type) where
  /-- The answer for a leaf. -/
  leaf : Leaf → m Answer
  /-- The answer for a composite node, shown with the children that the pass gave it. -/
  composite : Expr → m Answer

/-- **A change of trees of any kind.** It may go through a tree as it likes. -/
abbrev Rewriting (m : Type → Type) : Type :=
  Expr → m Expr

/-! ### Sharing -/

/-- **Which nodes of a new tree are nodes of the old one**, place by place. -/
inductive Sharing where
  /-- The old node stands here, with all that is below it. -/
  | kept
  /-- A new node stands here. -/
  | rebuilt (children : List Sharing)

namespace Sharing

/-- Whether the old node stands at the root. -/
def isKept : Sharing → Bool
  | kept => true
  | rebuilt _ => false

mutual

/-- The sharing of a tree that has nowhere the node which the old tree has at the same place. -/
def fresh : Expr → Sharing
  | .leaf _ => rebuilt []
  | .unary _ x => rebuilt [fresh x]
  | .binary l _ r => rebuilt [fresh l, fresh r]
  | .grouping x => rebuilt [fresh x]
  | .call callee _ args => rebuilt (fresh callee :: freshAll args)
  | .list items => rebuilt (freshAll items)

/-- The sharing of several such trees. -/
def freshAll : List Expr → List Sharing
  | [] => []
  | e :: es => fresh e :: freshAll es

end

end Sharing

/-- **What a pass makes of a tree**, and what that shares with the tree before. -/
structure Revision where
  tree : Expr
  sharing : Sharing

namespace Revision

/-- A tree that was left as it is. -/
def kept (e : Expr) : Revision :=
  ⟨e, .kept⟩

/-- A tree put in place of another. -/
def fresh (e : Expr) : Revision :=
  ⟨e, .fresh e⟩

/-- The result of an answer for the node `r.tree`. -/
def answer (r : Revision) : Answer → Revision
  | .keep => r
  | .replace e => fresh e

/-- The node `before` if all its children were kept, and otherwise the node `after` that was built
from the new children. -/
def rebuild (before after : Expr) (children : List Sharing) : Revision :=
  if children.all Sharing.isKept then kept before else ⟨after, .rebuilt children⟩

/-- What becomes of a callee: only another name takes its place. -/
def asCallee (before : Expr) (r : Revision) : Revision :=
  match r.tree with
  | .identifier _ => r
  | _ => kept before

end Revision

/-! ### Application -/

namespace Pass

variable {m : Type → Type} [Monad m]

/-- The pass that keeps everything. -/
def identity : Pass m where
  leaf := fun _ => pure .keep
  composite := fun _ => pure .keep

/-- A pass that looks at leaves only. -/
def ofLeaf (f : Leaf → m Answer) : Pass m where
  leaf := f
  composite := fun _ => pure .keep

/-- Asks the pass about a composite node after its children. -/
def settle (p : Pass m) (r : Revision) : m Revision := do
  let a ← p.composite r.tree
  pure (r.answer a)

mutual

/-- **Applies a pass to a tree.** -/
def apply (p : Pass m) : Expr → m Revision
  | .leaf l => do
    let a ← p.leaf l
    pure ((Revision.kept (.leaf l)).answer a)
  | .unary op x => do
    let x' ← p.apply x
    p.settle (.rebuild (.unary op x) (.unary op x'.tree) [x'.sharing])
  | .binary l op r => do
    let l' ← p.apply l
    let r' ← p.apply r
    p.settle (.rebuild (.binary l op r) (.binary l'.tree op r'.tree) [l'.sharing, r'.sharing])
  | .grouping x => do
    let x' ← p.apply x
    p.settle (.rebuild (.grouping x) (.grouping x'.tree) [x'.sharing])
  | .call callee close args => do
    -- The callee is offered like any other node; its answer may still be ignored.
    let answered ← p.apply callee
    let callee' := answered.asCallee callee
    let args' ← p.applyEach args
    p.settle (.rebuild (.call callee close args)
      (.call callee'.tree close (args'.map (·.tree))) (callee'.sharing :: args'.map (·.sharing)))
  | .list items => do
    let items' ← p.applyEach items
    p.settle (.rebuild (.list items) (.list (items'.map (·.tree))) (items'.map (·.sharing)))

/-- Applies a pass to several trees in turn. -/
def applyEach (p : Pass m) : List Expr → m (List Revision)
  | [] => pure []
  | e :: es => do
    let e' ← p.apply e
    let es' ← p.applyEach es
    pure (e' :: es')

end

/-- **Applies a pass to several trees**, with no answer where every one of them was kept. -/
def applyAll? (p : Pass m) (es : List Expr) : m (Option (List Revision)) := do
  let es' ← p.applyEach es
  pure (if es'.all (·.sharing.isKept) then none else some es')

/-- **The change that a pass makes**, with no account of what was kept. -/
def rewriting (p : Pass m) : Rewriting m := fun e => do
  let r ← p.apply e
  pure r.tree

/-- A pass whose state is a part of a larger one. -/
def focus {σ τ : Type} (get : τ → σ) (set : σ → τ → τ) (p : Pass (StateM σ)) :
    Pass (StateM τ) where
  leaf := fun l t => let (a, s) := p.leaf l (get t); (a, set s t)
  composite := fun e t => let (a, s) := p.composite e (get t); (a, set s t)

end Pass

end WhereClause
