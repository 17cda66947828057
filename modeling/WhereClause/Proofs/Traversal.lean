import WhereClause.Expr.Visit

/-!
# Visits as actions in turn

A visitor goes through a tree by calling itself. What it does can be said without the tree: it acts
on the nodes of a list, one after the other, and the list is the one in which every node stands in
front of its children and these from left to right. That a failure ends the visit, however deep it
happens, is then the same as that it ends the actions in turn.

Nothing but the laws of a monad is needed for this (`Visitor.visit_eq_forM`), so it holds whatever
the actions do. It is put to use for actions with a state that may fail, where `inTurn` says in
plain terms what it means to stop at a failure, with the state that the failure has left.

* `Expr.preorder` — all nodes, each in front of its children;
* `inTurn` — actions in turn up to the first failure;
* `Visitor.visit_eq_forM` — a visit is an action on every node of that list;
* `Visitor.failingNotes` — a visitor that takes notes of composite nodes, and fails at one of them.
-/

namespace WhereClause

/-! ### The nodes of a tree -/

namespace Expr

mutual

/-- **The nodes of a tree**: each one stands in front of its children, and these stand from left to
right, a callee in front of the arguments. -/
def preorder : Expr → List Expr
  | leaf l => [leaf l]
  | unary op x => unary op x :: x.preorder
  | binary l op r => binary l op r :: (l.preorder ++ r.preorder)
  | grouping x => grouping x :: x.preorder
  | call callee close args => call callee close args :: (callee.preorder ++ preorderOf args)
  | list items => list items :: preorderOf items

/-- The nodes of several trees. -/
def preorderOf : List Expr → List Expr
  | [] => []
  | e :: es => e.preorder ++ preorderOf es

end

/-- What is at a leaf. -/
def leaf? : Expr → Option Leaf
  | leaf l => some l
  | _ => none

/-- Whether a node has others below it, or could have. -/
def isComposite : Expr → Bool
  | leaf _ => false
  | _ => true

/-- **The composite nodes of a tree**, each one in front of those below it. -/
def composites (e : Expr) : List Expr :=
  e.preorder.filter isComposite

mutual

/-- The leaves stand in source order among the nodes. -/
theorem leaves_eq_filterMap : ∀ e : Expr, e.leaves = e.preorder.filterMap leaf?
  | leaf _ => rfl
  | unary _ x => leaves_eq_filterMap x
  | binary l _ r => by
    rw [leaves, leaves_eq_filterMap l, leaves_eq_filterMap r, ← List.filterMap_append]
    rfl
  | grouping x => leaves_eq_filterMap x
  | call callee _ args => by
    rw [leaves, leaves_eq_filterMap callee, leavesOf_eq_filterMap args, ← List.filterMap_append]
    rfl
  | list items => leavesOf_eq_filterMap items

/-- The same for several trees. -/
theorem leavesOf_eq_filterMap : ∀ es : List Expr, leavesOf es = (preorderOf es).filterMap leaf?
  | [] => rfl
  | e :: es => by
    rw [leavesOf, preorderOf, leaves_eq_filterMap e, leavesOf_eq_filterMap es,
      List.filterMap_append]

end

end Expr

/-! ### Visits in any monad -/

section Lawful

variable {m : Type → Type} [Monad m] [LawfulMonad m] {α β : Type}

/-- Actions that do nothing can be left out. -/
theorem forM_filterMap {f : α → m Unit} {g : β → m Unit} {p : α → Option β} (xs : List α)
    (h : ∀ x, f x = (p x).elim (pure ()) g) : forM xs f = forM (xs.filterMap p) g := by
  induction xs with
  | nil => rfl
  | cons x xs ih =>
    cases hx : p x with
    | none =>
      -- without an action here, both sides go on with the rest
      have hskip : f x = pure () := by rw [h, hx, Option.elim_none]
      rw [List.filterMap_cons_none hx, List.forM_cons, hskip, pure_bind]
      exact ih
    | some y =>
      have hact : f x = g y := by rw [h, hx, Option.elim_some]
      rw [List.filterMap_cons_some hx, List.forM_cons, List.forM_cons, hact]
      exact bind_congr fun _ => ih

namespace Visitor

/-- What a visitor does at a node, children left aside. -/
def act (v : Visitor m) : Expr → m Unit
  | .leaf l => v.leaf l
  | e => v.composite e

mutual

/-- **A visit is an action on every node**, in the order of `Expr.preorder`. -/
theorem visit_eq_forM (v : Visitor m) : ∀ e : Expr, v.visit e = forM e.preorder v.act
  | .leaf l => (bind_pure_unit).symm
  | .unary op x => by
    rw [visit, Expr.preorder, List.forM_cons, visit_eq_forM v x]
    rfl
  | .binary l op r => by
    -- the actions on the left operand come in front of those on the right one
    rw [visit, Expr.preorder, List.forM_cons, List.forM_append, visit_eq_forM v l,
      visit_eq_forM v r]
    rfl
  | .grouping x => by
    rw [visit, Expr.preorder, List.forM_cons, visit_eq_forM v x]
    rfl
  | .call callee close args => by
    rw [visit, Expr.preorder, List.forM_cons, List.forM_append, visit_eq_forM v callee,
      visitAll_eq_forM v args]
    rfl
  | .list items => by
    rw [visit, Expr.preorder, List.forM_cons, visitAll_eq_forM v items]
    rfl

/-- The same for several trees, one after the other. -/
theorem visitAll_eq_forM (v : Visitor m) : ∀ es : List Expr,
    v.visitAll es = forM (Expr.preorderOf es) v.act
  | [] => rfl
  | e :: es => by
    rw [visitAll, Expr.preorderOf, List.forM_append, visit_eq_forM v e, visitAll_eq_forM v es]

end

/-- A visitor of leaves acts on the leaves in source order. -/
theorem visit_ofLeaf (f : Leaf → m Unit) (e : Expr) : (ofLeaf f).visit e = forM e.leaves f := by
  rw [visit_eq_forM, Expr.leaves_eq_filterMap]
  refine forM_filterMap _ fun x => ?_
  cases x <;> rfl

/-- A visitor of composite nodes acts on each of them before it acts on those below. -/
theorem visit_ofComposite (f : Expr → m Unit) (e : Expr) :
    (ofComposite f).visit e = forM e.composites f := by
  rw [visit_eq_forM, Expr.composites, ← List.filterMap_eq_filter]
  refine forM_filterMap _ fun x => ?_
  cases x <;> rfl

end Visitor

end Lawful

/-! ### Actions that may fail -/

section Failing

variable {α σ ε : Type}

/-- **Actions in turn** on a state that is handed on. Where one fails, the others are not taken, and
the state is the one that the failure has left. -/
def inTurn (f : α → σ → Except ε Unit × σ) : List α → σ → Except ε Unit × σ
  | [], s => (.ok (), s)
  | a :: as, s =>
    match f a s with
    | (.ok (), s') => inTurn f as s'
    | (.error e, s') => (.error e, s')

/-- After a success the next action is taken. -/
theorem inTurn_cons_ok {f : α → σ → Except ε Unit × σ} {a : α} {s s' : σ} (as : List α)
    (h : f a s = (.ok (), s')) : inTurn f (a :: as) s = inTurn f as s' := by
  rw [inTurn, h]

/-- A failure is the last action. -/
theorem inTurn_cons_error {f : α → σ → Except ε Unit × σ} {a : α} {s s' : σ} {e : ε} (as : List α)
    (h : f a s = (.error e, s')) : inTurn f (a :: as) s = (.error e, s') := by
  rw [inTurn, h]

/-- Actions with a state that may fail, on every member of a list, are actions in turn. -/
theorem run_forM (f : α → ExceptT ε (StateM σ) Unit) (as : List α) (s : σ) :
    (forM as f).run.run s = inTurn (fun a s => (f a).run.run s) as s := by
  induction as generalizing s with
  | nil => rfl
  | cons a as ih =>
    rw [List.forM_cons, ExceptT.run_bind, StateT.run_bind]
    rcases hfirst : (f a).run.run s with ⟨answer, s'⟩
    -- the rest of the list is gone through only after a success
    cases answer with
    | ok u => exact (ih s').trans (inTurn_cons_ok (f := fun a s => (f a).run.run s) as hfirst).symm
    | error e => exact (inTurn_cons_error (f := fun a s => (f a).run.run s) as hfirst).symm

end Failing

/-! ### Notes -/

section Notes

variable {α : Type}

/-- Takes a note, unless there are `k` notes already: then the note is the failure. -/
def noteUntil (k : Nat) (note : α) (notes : List α) : Except α Unit × List α :=
  if notes.length = k then (.error note, notes) else (.ok (), notes ++ [note])

/-- **A visitor that takes notes** of the composite nodes, and fails when it is to take the one
behind the first `k`. -/
def Visitor.failingNotes (note : Expr → α) (k : Nat) : Visitor (ExceptT α (StateM (List α))) :=
  .ofComposite fun e => (fun notes => noteUntil k (note e) notes : StateM (List α) (Except α Unit))

/-- The notes that are taken of a list, behind those that are there. -/
theorem inTurn_noteUntil {β : Type} (note : β → α) (xs : List β) {k : Nat} {notes : List α}
    (h : notes.length ≤ k) :
    inTurn (fun x => noteUntil k (note x)) xs notes =
      (xs[k - notes.length]?).elim (.ok (), notes ++ xs.map note)
        fun x => (.error (note x), notes ++ (xs.take (k - notes.length)).map note) := by
  induction xs generalizing notes with
  | nil =>
    rw [List.getElem?_nil, Option.elim_none, List.map_nil, List.append_nil]
    rfl
  | cons x xs ih =>
    by_cases hk : notes.length = k
    · -- the note that is not taken is the first of the list
      have hfail : noteUntil k (note x) notes = (.error (note x), notes) := if_pos hk
      rw [inTurn_cons_error xs hfail, hk, Nat.sub_self, List.getElem?_cons_zero, Option.elim_some,
        List.take_zero, List.map_nil, List.append_nil]
    · have hnote : noteUntil k (note x) notes = (.ok (), notes ++ [note x]) := if_neg hk
      have hlength : (notes ++ [note x]).length ≤ k := by
        rw [List.length_append, List.length_singleton]
        omega
      -- one note more is there, so one fewer is to be counted in the rest
      have hcount : k - notes.length = k - (notes ++ [note x]).length + 1 := by
        rw [List.length_append, List.length_singleton] at hlength ⊢
        omega
      rw [inTurn_cons_ok xs hnote, ih hlength, hcount, List.getElem?_cons_succ, List.take_succ_cons,
        List.map_cons, List.map_cons, List.append_assoc, List.append_assoc]
      rfl

end Notes

/-- **A visit is actions in turn up to the first failure.** Actions on leaves are taken on the
leaves in source order, with one result and one state at the end. Notes of composite nodes are taken
in front of those of the nodes below. A visitor that fails at note `k + 1` has taken the first `k`
of all notes, and does not fail where there are no more than `k`. -/
theorem visit_stops_at_failure (e : Expr) :
    (∀ {σ ε : Type} (f : Leaf → ExceptT ε (StateM σ) Unit) (s : σ),
      ((Visitor.ofLeaf f).visit e).run.run s = inTurn (fun l s => (f l).run.run s) e.leaves s) ∧
    ∀ {α : Type} (note : Expr → α) (k : Nat),
      ((Visitor.failingNotes note k).visit e).run.run [] =
        (e.composites[k]?).elim (.ok (), e.composites.map note)
          fun x => (.error (note x), (e.composites.take k).map note) := by
  constructor
  · intro σ ε f s
    rw [Visitor.visit_ofLeaf, run_forM]
  · intro α note k
    rw [Visitor.failingNotes, Visitor.visit_ofComposite, run_forM]
    exact inTurn_noteUntil note e.composites (Nat.zero_le k)

end WhereClause
