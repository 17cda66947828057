import WhereClause.Proofs.Occurrences
import WhereClause.Proofs.Parameters
import WhereClause.Proofs.Places

/-!
# What a tree refers to

The names that are collected from a tree are those of the leaves outside callees, in the order of
their first occurrence. Where a leaf stands is a `Place`, and it lies in a callee if a callee stands
somewhere on the way to it. Two places are compared where their ways part: the way that goes to the
earlier child leads to the place further left.

The collector goes through the tree once and keeps what it has found. What it finds is first shown
to be a list of leaves (`Expr.outerLeaves`), and those to be the occurrences in their order.

* `Place.Precedes` — the order of places from left to right;
* `Expr.RefersAt` — a leaf at a place that lies in no callee;
* `Expr.inOrder_outerLeaves` — the leaves outside callees are the occurrences, in order;
* `Expr.refer_eq` — the collector takes note of these leaves, one after the other.
-/

namespace WhereClause

/-- **The order of places**: one comes before the other if it goes to an earlier child where the two
ways part. A place on the way to another one is neither before it nor behind it. -/
inductive Place.Precedes : Place → Place → Prop
  | apart {i j : Nat} {p q : Place} : i < j → Precedes (i :: p) (j :: q)
  | within {i : Nat} {p q : Place} : Precedes p q → Precedes (i :: p) (i :: q)

/-- The name of an identifier. -/
def Leaf.identifier? : Leaf → Option String
  | identifier name => some name
  | _ => none

theorem Leaf.identifier?_eq_some_iff {l : Leaf} {name : String} :
    l.identifier? = some name ↔ l = .identifier name := by
  cases l <;> simp [identifier?]

theorem Leaf.parameter?_eq_some_iff {l : Leaf} {name : String} :
    l.parameter? = some name ↔ l = .parameter name := by
  cases l <;> simp [parameter?]

namespace Expr

/-! ### Places outside callees -/

/-- **A leaf that a tree refers to**: it stands at the place, and no callee stands there or on the
way there. -/
def RefersAt (e : Expr) (p : Place) (l : Leaf) : Prop :=
  e.at? p = some (leaf l) ∧ ∀ q, q <+: p → e.isCalleeAt q = false

/-- The children of a node that are no callees. -/
def operands : Expr → List Expr
  | call _ _ args => args
  | e => e.children

/-- Where these start among all children. -/
def firstOperand (e : Expr) : Nat :=
  if e.isCall then 1 else 0

/-- The operands are the children from the first operand on. -/
theorem getElem?_children (e : Expr) (k : Nat) :
    e.children[e.firstOperand + k]? = e.operands[k]? := by
  cases e with
  | call callee close args =>
    show (callee :: args)[1 + k]? = args[k]?
    rw [Nat.add_comm, List.getElem?_cons_succ]
  | _ =>
    show _[0 + k]? = _
    rw [Nat.zero_add]
    rfl

/-- A child is a callee if it stands in front of the operands. -/
theorem isCalleeAt_singleton (e : Expr) (i : Nat) (x : Expr) (h : e.children[i]? = some x) :
    e.isCalleeAt [i] = decide (i < e.firstOperand) := by
  have hroot : x.isCalleeAt [] = false := by cases x <;> rfl
  rw [isCalleeAt, h, Option.any_some, hroot, firstOperand]
  cases e.isCall <;> cases i <;> simp

section RefersAt

variable {e : Expr} {l : Leaf} {p : Place}

/-- At its root, a tree refers to a leaf if it is one. -/
theorem refersAt_nil_iff : e.RefersAt [] l ↔ e = leaf l := by
  constructor
  · rintro ⟨hat, -⟩
    exact Option.some.inj hat
  · rintro rfl
    refine ⟨rfl, fun q hq => ?_⟩
    rw [List.prefix_nil.mp hq]
    rfl

/-- Below a node, a tree refers to what the operands of the node refer to. -/
theorem refersAt_cons_iff {i : Nat} : e.RefersAt (i :: p) l ↔
    ∃ k x, i = e.firstOperand + k ∧ e.operands[k]? = some x ∧ x.RefersAt p l := by
  constructor
  · rintro ⟨hat, hcallee⟩
    obtain ⟨x, hx, hleaf⟩ := Option.bind_eq_some_iff.mp hat
    -- the child is no callee, so it is one of the operands
    have hchild := hcallee [i] ⟨p, rfl⟩
    rw [isCalleeAt_singleton e i x hx, decide_eq_false_iff_not] at hchild
    obtain ⟨k, rfl⟩ := Nat.exists_eq_add_of_le (Nat.le_of_not_lt hchild)
    refine ⟨k, x, rfl, ?_, hleaf, fun q hq => ?_⟩
    · rw [← getElem?_children, hx]
    · have hbelow := hcallee (_ :: q) ((List.cons_prefix_cons).mpr ⟨rfl, hq⟩)
      rw [isCalleeAt, hx] at hbelow
      exact (Bool.or_eq_false_iff.mp hbelow).2
  · rintro ⟨k, x, rfl, hx, hat, hcallee⟩
    rw [← getElem?_children] at hx
    refine ⟨?_, fun q hq => ?_⟩
    · rw [at?, hx]
      exact hat
    · cases q with
      | nil => cases e <;> rfl
      | cons j q =>
        obtain ⟨rfl, hbelow⟩ := List.cons_prefix_cons.mp hq
        -- an operand is no callee, and below it nothing is either
        have hoperand : (e.isCall && (e.firstOperand + k == 0)) = false := by
          rw [firstOperand]
          cases e.isCall <;> simp
        rw [isCalleeAt, hx, Option.any_some, hcallee q hbelow, hoperand, Bool.false_and,
          Bool.or_false]

end RefersAt

/-! ### Leaves outside callees -/

mutual

/-- **The leaves outside callees**, from left to right. -/
def outerLeaves : Expr → List Leaf
  | leaf l => [l]
  | unary _ x => x.outerLeaves
  | binary l _ r => l.outerLeaves ++ r.outerLeaves
  | grouping x => x.outerLeaves
  | call _ _ args => outerLeavesOf args
  | list items => outerLeavesOf items

/-- The leaves outside callees of several trees. -/
def outerLeavesOf : List Expr → List Leaf
  | [] => []
  | e :: es => e.outerLeaves ++ outerLeavesOf es

end

/-- The leaves of a composite node are those of its operands. -/
theorem outerLeaves_eq {e : Expr} (h : ∀ l, e ≠ leaf l) :
    e.outerLeaves = outerLeavesOf e.operands := by
  cases e with
  | leaf l => exact absurd rfl (h l)
  | _ => simp [outerLeaves, outerLeavesOf, operands, children]

/-- The leaves of two lists of trees. -/
theorem outerLeavesOf_append (es fs : List Expr) :
    outerLeavesOf (es ++ fs) = outerLeavesOf es ++ outerLeavesOf fs := by
  induction es with
  | nil => simp [outerLeavesOf]
  | cons e es ih => simp [outerLeavesOf, ih]

/-- What several trees refer to, which are children from the given one on. -/
def RefersFrom (i : Nat) (es : List Expr) (p : Place) (l : Leaf) : Prop :=
  ∃ k x q, p = (i + k) :: q ∧ es[k]? = some x ∧ x.RefersAt q l

/-- A composite node refers to what its operands refer to. -/
theorem refersAt_iff_refersFrom {e : Expr} (h : ∀ l, e ≠ leaf l) (p : Place) (l : Leaf) :
    e.RefersAt p l ↔ RefersFrom e.firstOperand e.operands p l := by
  cases p with
  | nil =>
    rw [refersAt_nil_iff]
    -- nothing refers at the root, where no leaf is
    refine iff_of_false (h l) ?_
    rintro ⟨k, x, q, hp, -⟩
    cases hp
  | cons i p =>
    rw [refersAt_cons_iff]
    constructor
    · rintro ⟨k, x, rfl, hx, hrefers⟩
      exact ⟨k, x, p, rfl, hx, hrefers⟩
    · rintro ⟨k, x, q, hp, hx, hrefers⟩
      obtain ⟨rfl, rfl⟩ := List.cons.inj hp
      exact ⟨k, x, rfl, hx, hrefers⟩

/-- The first tree, and those behind it. -/
theorem refersFrom_cons_iff {i : Nat} {x : Expr} {es : List Expr} (p : Place) (l : Leaf) :
    RefersFrom i (x :: es) p l ↔
      (∃ q, p = i :: q ∧ x.RefersAt q l) ∨ RefersFrom (i + 1) es p l := by
  constructor
  · rintro ⟨k, y, q, rfl, hy, hrefers⟩
    cases k with
    | zero =>
      obtain rfl := Option.some.inj hy
      exact .inl ⟨q, rfl, hrefers⟩
    | succ k =>
      refine .inr ⟨k, y, q, ?_, hy, hrefers⟩
      rw [Nat.add_right_comm, Nat.add_assoc]
  · rintro (⟨q, rfl, hrefers⟩ | ⟨k, y, q, rfl, hy, hrefers⟩)
    · exact ⟨0, x, q, rfl, rfl, hrefers⟩
    · refine ⟨k + 1, y, q, ?_, hy, hrefers⟩
      rw [Nat.add_right_comm, Nat.add_assoc]

/-- The occurrences in several trees in turn, each of which comes before the next. -/
theorem inOrder_outerLeavesOf {es : List Expr}
    (h : ∀ x ∈ es, InOrder Place.Precedes x.RefersAt x.outerLeaves) (i : Nat) :
    InOrder Place.Precedes (RefersFrom i es) (outerLeavesOf es) := by
  induction es generalizing i with
  | nil => exact .nil fun p l ⟨k, x, q, _, hx, _⟩ => by cases hx
  | cons x es ih =>
    obtain ⟨hx, hes⟩ := List.forall_mem_cons.mp h
    have hfirst : InOrder Place.Precedes (fun p l => ∃ q, p = i :: q ∧ x.RefersAt q l)
        x.outerLeaves := hx.place (i :: ·) (fun _ _ => .within) fun _ _ => Iff.rfl
    refine hfirst.append (ih hes (i + 1)) refersFrom_cons_iff ?_
    -- the ways part at this node
    rintro p p' l l' ⟨q, rfl, -⟩ ⟨k, y, q', rfl, -⟩
    exact .apart (by omega)

/-- A node has the occurrences of its operands. -/
theorem inOrder_of_operands {e : Expr} (hleaf : ∀ l, e ≠ leaf l)
    (h : ∀ x ∈ e.operands, InOrder Place.Precedes x.RefersAt x.outerLeaves) :
    InOrder Place.Precedes e.RefersAt e.outerLeaves := by
  have hAt : e.RefersAt = RefersFrom e.firstOperand e.operands :=
    funext fun p => funext fun l => propext (refersAt_iff_refersFrom hleaf p l)
  rw [hAt, outerLeaves_eq hleaf]
  exact inOrder_outerLeavesOf h _

mutual

/-- **The leaves outside callees are the occurrences of what the tree refers to**, in their
order. -/
theorem inOrder_outerLeaves : ∀ e : Expr, InOrder Place.Precedes e.RefersAt e.outerLeaves
  | leaf l => by
    refine .singleton (i := []) fun p l' => ?_
    cases p with
    | nil => rw [refersAt_nil_iff, leaf.injEq, eq_comm]; simp
    | cons i p =>
      -- there is nothing below a leaf
      rw [refersAt_cons_iff]
      refine iff_of_false ?_ ?_
      · rintro ⟨k, x, -, hx, -⟩
        cases hx
      · rintro ⟨hp, -⟩
        cases hp
  | unary op x => inOrder_of_operands nofun (List.forall_mem_singleton.mpr (inOrder_outerLeaves x))
  | binary l op r => inOrder_of_operands nofun (List.forall_mem_cons.mpr
      ⟨inOrder_outerLeaves l, List.forall_mem_singleton.mpr (inOrder_outerLeaves r)⟩)
  | grouping x => inOrder_of_operands nofun (List.forall_mem_singleton.mpr (inOrder_outerLeaves x))
  | call callee close args => inOrder_of_operands nofun (forall_inOrder_outerLeaves args)
  | list items => inOrder_of_operands nofun (forall_inOrder_outerLeaves items)

/-- The same for each of several trees. -/
theorem forall_inOrder_outerLeaves : ∀ es : List Expr, ∀ x ∈ es,
    InOrder Place.Precedes x.RefersAt x.outerLeaves
  | [] => List.forall_mem_nil _
  | e :: es => List.forall_mem_cons.mpr ⟨inOrder_outerLeaves e, forall_inOrder_outerLeaves es⟩

end

/-! ### The collector -/

mutual

/-- **The collector takes note of the leaves outside callees**, one after the other. -/
theorem refer_eq : ∀ (e : Expr) (found : References),
    e.refer found = e.outerLeaves.foldl References.note found
  | leaf _, _ => rfl
  | unary _ x, found => refer_eq x found
  | binary l _ r, found => by
    rw [refer, refer_eq l, refer_eq r, outerLeaves, List.foldl_append]
  | grouping x, found => refer_eq x found
  | call _ _ args, found => referAll_eq args found
  | list items, found => referAll_eq items found

/-- The collector in several trees, one after the other. -/
theorem referAll_eq : ∀ (es : List Expr) (found : References),
    referAll es found = (outerLeavesOf es).foldl References.note found
  | [], _ => rfl
  | e :: es, found => by
    rw [referAll, refer_eq e, referAll_eq es, outerLeavesOf, List.foldl_append]

end

end Expr

/-- Identifiers and parameters are noted apart from each other. -/
theorem References.foldl_note (ls : List Leaf) (found : References) :
    ls.foldl note found =
      ⟨(ls.filterMap Leaf.identifier?).foldl noteName found.identifiers,
        (ls.filterMap Leaf.parameter?).foldl noteName found.parameters⟩ := by
  induction ls generalizing found with
  | nil => rfl
  | cons l ls ih =>
    rw [List.foldl_cons, ih]
    cases l <;> rfl

namespace Expr

/-- The identifiers are noted one after the other. -/
theorem identifiers_eq (e : Expr) :
    e.identifiers = (e.outerLeaves.filterMap Leaf.identifier?).foldl References.noteName [] := by
  rw [identifiers, refer_eq, References.foldl_note]
  rfl

/-- The parameters are noted one after the other. -/
theorem parameters_eq (e : Expr) :
    e.parameters = (e.outerLeaves.filterMap Leaf.parameter?).foldl References.noteName [] := by
  rw [parameters, refer_eq, References.foldl_note]
  rfl

/-- **The identifiers of a tree** are the names of its identifiers outside callees. -/
theorem firstOccurrences_identifiers (e : Expr) :
    FirstOccurrences Place.Precedes (fun p name => e.RefersAt p (.identifier name))
      e.identifiers := by
  rw [identifiers_eq]
  refine (e.inOrder_outerLeaves.filterMap Leaf.identifier?).firstOccurrences.congr fun p name => ?_
  simp only [Leaf.identifier?_eq_some_iff, exists_eq_right]

/-- **The parameters of a tree** are the names of its parameters outside callees. -/
theorem firstOccurrences_parameters (e : Expr) :
    FirstOccurrences Place.Precedes (fun p name => e.RefersAt p (.parameter name))
      e.parameters := by
  rw [parameters_eq]
  refine (e.inOrder_outerLeaves.filterMap Leaf.parameter?).firstOccurrences.congr fun p name => ?_
  simp only [Leaf.parameter?_eq_some_iff, exists_eq_right]

/-! ### Trees whose callees are names -/

mutual

/-- Callees that are names hide nothing but names. -/
theorem filter_isUnnamed_outerLeaves : ∀ e : Expr, e.hasNamedCallees →
    e.outerLeaves.filter Leaf.isUnnamed = e.leaves.filter Leaf.isUnnamed
  | leaf _, _ => rfl
  | unary _ x, h => filter_isUnnamed_outerLeaves x h
  | binary l _ r, h => by
    obtain ⟨hl, hr⟩ := Bool.and_eq_true_iff.mp h
    rw [outerLeaves, leaves, List.filter_append, List.filter_append,
      filter_isUnnamed_outerLeaves l hl, filter_isUnnamed_outerLeaves r hr]
  | grouping x, h => filter_isUnnamed_outerLeaves x h
  | call callee _ args, h => by
    obtain ⟨hcallee, hargs⟩ := Bool.and_eq_true_iff.mp h
    -- the callee is one name, and the filter drops it
    obtain ⟨name, rfl⟩ := exists_of_isName hcallee
    exact filter_isUnnamed_outerLeavesOf args hargs
  | list items, h => filter_isUnnamed_outerLeavesOf items h

/-- The same in several trees. -/
theorem filter_isUnnamed_outerLeavesOf : ∀ es : List Expr, haveNamedCallees es →
    (outerLeavesOf es).filter Leaf.isUnnamed = (leavesOf es).filter Leaf.isUnnamed
  | [], _ => rfl
  | e :: es, h => by
    obtain ⟨he, hes⟩ := Bool.and_eq_true_iff.mp h
    rw [outerLeavesOf, leavesOf, List.filter_append, List.filter_append,
      filter_isUnnamed_outerLeaves e he, filter_isUnnamed_outerLeavesOf es hes]

end

end Expr

end WhereClause
