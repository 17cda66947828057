import WhereClause.Expr

/-!
# Referenced names

The columns and parameters that an expression refers to. They are collected on one way through the
tree, and a name that was found before is not taken again. The name of a called function is not a
column, and nothing inside a callee counts, but the arguments do.

* `References` — the names that have been found so far;
* `Expr.identifiers`, `Expr.parameters` — the names in a tree.
-/

namespace WhereClause

/-- **The names that have been found**, each once, in the order in which they were. -/
structure References where
  identifiers : List String
  parameters : List String

namespace References

/-- No names yet. -/
def empty : References :=
  ⟨[], []⟩

/-- A list of names with one more, unless it is among them already. -/
def noteName (names : List String) (name : String) : List String :=
  if names.contains name then names else names ++ [name]

/-- Takes note of a leaf. -/
def note (r : References) : Leaf → References
  | .identifier name => { r with identifiers := noteName r.identifiers name }
  | .parameter name => { r with parameters := noteName r.parameters name }
  | .literal _ => r

end References

namespace Expr

mutual

/-- **Takes note of the leaves of a tree**, from left to right. Callees are passed over. -/
def refer : Expr → References → References
  | leaf l, found => found.note l
  | unary _ x, found => x.refer found
  | binary l _ r, found => r.refer (l.refer found)
  | grouping x, found => x.refer found
  | call _ _ args, found => referAll args found
  | list items, found => referAll items found

/-- Takes note of the leaves of several trees in turn. -/
def referAll : List Expr → References → References
  | [], found => found
  | e :: es, found => referAll es (e.refer found)

end

/-- **The identifiers referred to**, each once, in the order of their first occurrence. -/
def identifiers (e : Expr) : List String :=
  (e.refer .empty).identifiers

/-- **The parameters referred to**, each once, in the order of their first occurrence. -/
def parameters (e : Expr) : List String :=
  (e.refer .empty).parameters

end Expr

end WhereClause
