import WhereClause.Proofs.Relabelling

/-!
# Places in a tree

A `Place` is the way to a node from the root, child by child. The leaves below a node are those
whose places go on from the place of the node, so what happens to some leaves of a tree can be told
apart for every node of it.

`Expr.sites` gives the places of all leaves in source order. It marks the leaves that stand as
callees, since a callee is not free to become anything.

* `Expr.at?` — the node at a place;
* `Sharing.keptAt` — whether the old node stands at a place of a new tree;
* `Expr.mem_sites_iff` — the sites are the places of the leaves, with the right marks;
* `Expr.map_at?_sites` — they stand in the order of the leaves.
-/

namespace WhereClause

/-! ### Places -/

/-- **A place in a tree**: which child to go to, from the root on. -/
abbrev Place : Type :=
  List Nat

namespace Expr

/-- The children of a node, a callee being the first of them. -/
def children : Expr → List Expr
  | leaf _ => []
  | unary _ x => [x]
  | binary l _ r => [l, r]
  | grouping x => [x]
  | call callee _ args => callee :: args
  | list items => items

/-- **The node at a place**, if there is one. -/
def at? : Expr → Place → Option Expr
  | e, [] => some e
  | e, i :: p => e.children[i]?.bind (·.at? p)

/-- Whether a node is a call. -/
def isCall : Expr → Bool
  | call _ _ _ => true
  | _ => false

/-- Whether the callee of a call stands at a place. -/
def isCalleeAt : Expr → Place → Bool
  | _, [] => false
  | e, i :: p => (e.isCall && i == 0 && p.isEmpty) || e.children[i]?.any (·.isCalleeAt p)

end Expr

/-- **Whether the old node stands at a place of the new tree.** -/
def Sharing.keptAt : Sharing → Place → Bool
  | sharing, [] => sharing.isKept
  | kept, _ :: _ => true
  | rebuilt children, i :: p => children[i]?.any (·.keptAt p)

/-- Below a node that was kept, everything was. -/
theorem Sharing.keptAt_kept (p : Place) : kept.keptAt p = true := by
  cases p <;> rfl

/-! ### Sites -/

/-- **Where a leaf stands**, and whether it is a callee. -/
structure Site where
  place : Place
  isCallee : Bool

namespace Site

/-- The same site, seen from the parent of the root. -/
def below (i : Nat) (s : Site) : Site :=
  { s with place := i :: s.place }

/-- The root becomes a callee. -/
def called (s : Site) : Site :=
  { s with isCallee := s.place.isEmpty || s.isCallee }

end Site

namespace Expr

mutual

/-- **The sites of the leaves in source order.** -/
def sites : Expr → List Site
  | leaf _ => [⟨[], false⟩]
  | unary _ x => x.sites.map (.below 0)
  | binary l _ r => l.sites.map (.below 0) ++ r.sites.map (.below 1)
  | grouping x => x.sites.map (.below 0)
  | call callee _ args => callee.sites.map (fun s => s.called.below 0) ++ sitesFrom 1 args
  | list items => sitesFrom 0 items

/-- The sites in several trees, which are children from the given one on. -/
def sitesFrom (i : Nat) : List Expr → List Site
  | [] => []
  | e :: es => e.sites.map (.below i) ++ sitesFrom (i + 1) es

end

/-- A leaf stands at the site, and the mark says whether it is a callee. -/
def IsSite (e : Expr) (site : Site) : Prop :=
  (∃ l, e.at? site.place = some (leaf l)) ∧ site.isCallee = e.isCalleeAt site.place

section Sites

variable {e : Expr} {site : Site}

/-- Only a leaf is a site at its root. -/
theorem not_isSite_root {b : Bool} (hleaf : ∀ l, e ≠ leaf l) : ¬ e.IsSite ⟨[], b⟩ := by
  rintro ⟨⟨l, hl⟩, -⟩
  exact hleaf l (Option.some.inj hl)

/-- Below a node that is no call, the sites are those of its children. -/
theorem isSite_cons_iff {k : Nat} {p : Place} {b : Bool} (hcall : e.isCall = false) :
    e.IsSite ⟨k :: p, b⟩ ↔ ∃ x, e.children[k]? = some x ∧ x.IsSite ⟨p, b⟩ := by
  unfold IsSite
  -- a mark says that the parent is a call, so the child decides alone unless the node is one
  cases hchild : e.children[k]? with
  | none => simp [at?, hchild]
  | some x => simp [at?, isCalleeAt, hcall, hchild]

/-- The root of a callee is marked, and all else below a call is as in its children. -/
theorem isSite_call_cons_iff {callee : Expr} {close : Token} {args : List Expr} {k : Nat}
    {p : Place} {b : Bool} : (call callee close args).IsSite ⟨k :: p, b⟩ ↔
      (k = 0 ∧ ∃ site, callee.IsSite site ∧ site.called = ⟨p, b⟩) ∨
        ∃ j x, k = j + 1 ∧ args[j]? = some x ∧ x.IsSite ⟨p, b⟩ := by
  -- the callee is the first child; the arguments are the others, one number further on
  cases k with
  | zero =>
    constructor
    · rintro ⟨hleaf, hb⟩
      exact .inl ⟨rfl, ⟨p, callee.isCalleeAt p⟩, ⟨hleaf, rfl⟩, congrArg (Site.mk p) hb.symm⟩
    · rintro (⟨-, ⟨p', b'⟩, ⟨hleaf, hb⟩, hsite⟩ | ⟨j, x, hj, -⟩)
      · obtain ⟨rfl, rfl⟩ := Site.mk.inj hsite
        exact ⟨hleaf, congrArg (p'.isEmpty || ·) hb⟩
      · cases hj
  | succ j =>
    unfold IsSite
    cases hchild : args[j]? with
    | none => simp [at?, children, hchild]
    | some x => simp [at?, isCalleeAt, children, hchild]

/-- The sites below a child start with the number of the child. -/
theorem mem_map_below_iff {sites : List Site} {i : Nat} :
    site ∈ sites.map (.below i) ↔ ∃ p b, site = ⟨i :: p, b⟩ ∧ ⟨p, b⟩ ∈ sites := by
  rw [List.mem_map]
  constructor
  · rintro ⟨⟨p, b⟩, hmem, rfl⟩
    exact ⟨p, b, rfl, hmem⟩
  · rintro ⟨p, b, rfl, hmem⟩
    exact ⟨⟨p, b⟩, hmem, rfl⟩

/-- The sites in several trees are those in each of them, below its number. -/
theorem mem_sitesFrom_iff {es : List Expr} {i : Nat} : site ∈ sitesFrom i es ↔
    ∃ j x p b, es[j]? = some x ∧ site = ⟨(i + j) :: p, b⟩ ∧ ⟨p, b⟩ ∈ x.sites := by
  induction es generalizing i with
  | nil => simp [sitesFrom]
  | cons e es ih =>
    -- the first tree is the child `i`, and the numbers of the others go on from there
    rw [sitesFrom, List.mem_append, mem_map_below_iff, ih]
    constructor
    · rintro (⟨p, b, rfl, hmem⟩ | ⟨j, x, p, b, hx, rfl, hmem⟩)
      · exact ⟨0, e, p, b, rfl, rfl, hmem⟩
      · refine ⟨j + 1, x, p, b, hx, ?_, hmem⟩
        rw [Nat.add_right_comm, Nat.add_assoc]
    · rintro ⟨j, x, p, b, hx, rfl, hmem⟩
      cases j with
      | zero =>
        obtain rfl : e = x := Option.some.inj hx
        exact .inl ⟨p, b, rfl, hmem⟩
      | succ j =>
        refine .inr ⟨j, x, p, b, hx, ?_, hmem⟩
        rw [Nat.add_right_comm, Nat.add_assoc]

/-- The sites of a node are right if those of its children are. -/
theorem mem_sites_iff_of_children (hcall : e.isCall = false) (hleaf : ∀ l, e ≠ leaf l)
    (hsites : e.sites = sitesFrom 0 e.children)
    (h : ∀ x ∈ e.children, ∀ site, site ∈ x.sites ↔ x.IsSite site) :
    site ∈ e.sites ↔ e.IsSite site := by
  rw [hsites, mem_sitesFrom_iff]
  constructor
  · rintro ⟨j, x, p, b, hx, rfl, hmem⟩
    rw [Nat.zero_add, isSite_cons_iff hcall]
    exact ⟨x, hx, (h x (List.mem_of_getElem? hx) _).mp hmem⟩
  · intro hsite
    obtain ⟨place, b⟩ := site
    cases place with
    | nil =>
      -- the node is no leaf, so there is no site at its root
      exact absurd hsite (not_isSite_root hleaf)
    | cons j p =>
      obtain ⟨x, hx, hmem⟩ := (isSite_cons_iff hcall).mp hsite
      exact ⟨j, x, p, b, hx, by rw [Nat.zero_add], (h x (List.mem_of_getElem? hx) _).mpr hmem⟩

mutual

/-- **The sites are the places of the leaves**, with the right marks. -/
theorem mem_sites_iff : ∀ (e : Expr) (site : Site), site ∈ e.sites ↔ e.IsSite site
  | leaf l, ⟨place, b⟩ => by
    rw [sites, List.mem_singleton, Site.mk.injEq]
    cases place with
    | nil => exact ⟨fun h => ⟨⟨l, rfl⟩, h.2⟩, fun h => ⟨rfl, h.2⟩⟩
    | cons k p =>
      refine iff_of_false (fun h => ?_) fun h => ?_
      · cases h.1
      · obtain ⟨⟨l', hl'⟩, -⟩ := h
        cases hl'
  | unary op x, site => by
    refine mem_sites_iff_of_children rfl (fun l h => by cases h) ?_ ?_
    · exact (List.append_nil _).symm
    · exact List.forall_mem_singleton.mpr (mem_sites_iff x)
  | binary l op r, site => by
    refine mem_sites_iff_of_children rfl (fun l h => by cases h) ?_ ?_
    · exact congrArg _ (List.append_nil _).symm
    · exact List.forall_mem_cons.mpr
        ⟨mem_sites_iff l, List.forall_mem_singleton.mpr (mem_sites_iff r)⟩
  | grouping x, site => by
    refine mem_sites_iff_of_children rfl (fun l h => by cases h) ?_ ?_
    · exact (List.append_nil _).symm
    · exact List.forall_mem_singleton.mpr (mem_sites_iff x)
  | call callee close args, ⟨place, b⟩ => by
    have hargs := forall_mem_sites_iff args
    rw [sites, List.mem_append, List.mem_map, mem_sitesFrom_iff]
    cases place with
    | nil =>
      refine iff_of_false ?_ (not_isSite_root fun l h => by cases h)
      rintro (⟨site, -, h⟩ | ⟨j, x, p, b', -, h, -⟩)
      · cases (Site.mk.inj h).1
      · cases h
    | cons k p =>
      rw [isSite_call_cons_iff]
      -- the callee, whose root is marked, and the arguments, which are children from the second on
      refine or_congr ⟨?_, ?_⟩ ⟨?_, ?_⟩
      · rintro ⟨site, hmem, h⟩
        obtain ⟨hplace, rfl⟩ := Site.mk.inj h
        obtain ⟨rfl, rfl⟩ := List.cons.inj hplace
        exact ⟨rfl, site, (mem_sites_iff callee site).mp hmem, rfl⟩
      · rintro ⟨rfl, site, hsite, h⟩
        exact ⟨site, (mem_sites_iff callee site).mpr hsite, congrArg (Site.below 0) h⟩
      · rintro ⟨j, x, p', b', hx, h, hmem⟩
        cases h
        exact ⟨j, x, Nat.add_comm 1 j, hx, (hargs x (List.mem_of_getElem? hx) _).mp hmem⟩
      · rintro ⟨j, x, rfl, hx, hsite⟩
        refine ⟨j, x, p, b, hx, ?_, (hargs x (List.mem_of_getElem? hx) _).mpr hsite⟩
        rw [Nat.add_comm]
  | list items, site => mem_sites_iff_of_children rfl (fun l h => by cases h) rfl
      (forall_mem_sites_iff items)

theorem forall_mem_sites_iff : ∀ (es : List Expr), ∀ x ∈ es, ∀ site : Site,
    site ∈ x.sites ↔ x.IsSite site
  | [] => List.forall_mem_nil _
  | e :: es => List.forall_mem_cons.mpr ⟨mem_sites_iff e, forall_mem_sites_iff es⟩

end

end Sites

/-! The sites stand in the order of the leaves, so that answers for the leaves are answers for the
sites. -/

/-- The leaves of several trees are at their sites, if each tree stands at its number. -/
theorem map_at?_sitesFrom {e : Expr} {i : Nat} {es : List Expr}
    (hes : ∀ x ∈ es, x.sites.map (fun site => x.at? site.place) = x.leaves.map (some ∘ leaf))
    (hat : ∀ k x p, es[k]? = some x → e.at? ((i + k) :: p) = x.at? p) :
    (sitesFrom i es).map (fun site => e.at? site.place) = (leavesOf es).map (some ∘ leaf) := by
  induction es generalizing i with
  | nil => rfl
  | cons x es ih =>
    -- the first tree is the child `i`, and the others are counted on from there
    have hfirst : (x.sites.map (Site.below i)).map (fun site => e.at? site.place) =
        x.leaves.map (some ∘ leaf) := by
      rw [← hes x List.mem_cons_self, List.map_map]
      exact List.map_congr_left fun site _ => hat 0 x site.place rfl
    have hrest := ih (i := i + 1) (fun x hx => hes x (List.mem_cons_of_mem _ hx)) fun k x p hx => by
      rw [Nat.add_right_comm, Nat.add_assoc]
      exact hat (k + 1) x p hx
    rw [sitesFrom, leavesOf, List.map_append, List.map_append, hfirst, hrest]

mutual

/-- **At the sites are the leaves**, in source order. -/
theorem map_at?_sites : ∀ e : Expr,
    e.sites.map (fun site => e.at? site.place) = e.leaves.map (some ∘ leaf)
  | leaf l => rfl
  | unary op x => by
    rw [leaves, ← map_at?_sites x, sites, List.map_map]
    rfl
  | binary l op r => by
    rw [leaves, List.map_append, ← map_at?_sites l, ← map_at?_sites r, sites, List.map_append,
      List.map_map, List.map_map]
    rfl
  | grouping x => by
    rw [leaves, ← map_at?_sites x, sites, List.map_map]
    rfl
  | call callee close args => by
    -- the callee is the first child, so the arguments are one place further on
    rw [leaves, List.map_append, ← map_at?_sites callee, sites, List.map_append, List.map_map,
      map_at?_sitesFrom (forall_map_at?_sites args) fun k x p hx => ?_]
    · rfl
    · rw [Nat.add_comm, at?, children, List.getElem?_cons_succ, hx]
      rfl
  | list items => by
    refine map_at?_sitesFrom (forall_map_at?_sites items) fun k x p hx => ?_
    rw [Nat.zero_add, at?, children, hx]
    rfl

theorem forall_map_at?_sites : ∀ es : List Expr, ∀ x ∈ es,
    x.sites.map (fun site => x.at? site.place) = x.leaves.map (some ∘ leaf)
  | [] => List.forall_mem_nil _
  | e :: es => List.forall_mem_cons.mpr ⟨map_at?_sites e, forall_map_at?_sites es⟩

end

end Expr

end WhereClause
