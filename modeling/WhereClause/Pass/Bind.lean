import WhereClause.Pass

/-!
# Literals as parameters

A pass that takes every literal out of a tree and leaves a parameter in its place. The values are
collected in the order in which they were found; the name of a parameter is chosen from the place
of its value in that order, counted from one over all trees that the pass has seen.
-/

namespace WhereClause

/-- **The values taken out so far**, and what the choice of names keeps for itself. -/
structure Bindings (ν : Type) where
  values : List Value
  naming : ν

/-- **How a parameter is named**: from the place of its value, counted from one, and the value. -/
def Namer (ν : Type) : Type :=
  Nat → Value → StateM ν String

/-- The names `_1`, `_2`, and so on. -/
def Namer.numbered {ν : Type} : Namer ν :=
  fun i _ => pure ("_" ++ i.repr)

namespace Bindings

/-- No values yet. -/
def empty : Bindings Unit :=
  ⟨[], ()⟩

/-- Takes in one more value, and answers the parameter that stands for it. -/
def bind {ν : Type} (namer : Namer ν) (v : Value) : StateM (Bindings ν) Answer :=
  fun b =>
    let values := b.values ++ [v]
    let (name, naming) := namer values.length v b.naming
    (.replace (.parameter name), ⟨values, naming⟩)

end Bindings

/-- **Replaces every literal by a parameter.** -/
def Pass.bindLiterals {ν : Type} (namer : Namer ν) : Pass (StateM (Bindings ν)) :=
  ofLeaf fun
    | .literal v => Bindings.bind namer v
    | _ => pure .keep

end WhereClause
