import WhereClause.Expr

/-!
# Visiting a tree

A visitor acts on the nodes of a tree in source order: on a composite node before its children,
on the left operand before the right one, on the callee before the arguments. Its actions may
carry state and may fail, both being a matter of the monad they run in.
-/

namespace WhereClause

/-- **A visitor**: what is done at a leaf, and what is done at a composite node before its
children. -/
structure Visitor (m : Type → Type) where
  leaf : Leaf → m Unit
  composite : Expr → m Unit

namespace Visitor

variable {m : Type → Type} [Monad m]

/-- A visitor that acts on leaves only. -/
def ofLeaf (f : Leaf → m Unit) : Visitor m where
  leaf := f
  composite := fun _ => pure ()

/-- A visitor that acts on composite nodes only. -/
def ofComposite (f : Expr → m Unit) : Visitor m where
  leaf := fun _ => pure ()
  composite := f

mutual

/-- **Visits a tree.** -/
def visit (v : Visitor m) : Expr → m Unit
  | .leaf l => v.leaf l
  | .unary op x => do
    v.composite (.unary op x)
    v.visit x
  | .binary l op r => do
    v.composite (.binary l op r)
    v.visit l
    v.visit r
  | .grouping x => do
    v.composite (.grouping x)
    v.visit x
  | .call callee close args => do
    v.composite (.call callee close args)
    v.visit callee
    v.visitAll args
  | .list items => do
    v.composite (.list items)
    v.visitAll items

/-- Visits several trees in turn. -/
def visitAll (v : Visitor m) : List Expr → m Unit
  | [] => pure ()
  | e :: es => do
    v.visit e
    v.visitAll es

end

end Visitor

end WhereClause
