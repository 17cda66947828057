import WhereClause.Proofs.Places

/-!
# Which nodes a pass keeps

A pass over leaves keeps as much of a tree as it can: a node is the old one exactly where no leaf at
or below it was changed. So what is built anew are the changed leaves and the nodes above them, and
a pass that changes nothing gives back the very tree.

A leaf is changed by an answer that replaces it, but the answer for a callee counts only if it is a
name. Whether a node was kept is a matter of its children: a `Revision` is built anew where one of
them was, and changes under different children have nothing to do with each other. So the account
of changes that `Pass.Reflects` gives for a node is put together from those of its children.

* `Expr.changed` — the places of the leaves that answers change;
* `Pass.Reflects` — a revision that keeps what is not changed, and nothing else;
* `Pass.reflects_rebuild` — a node reflects the changes below it if its children do;
* `keptAt_iff_unchanged` — passes over leaves, for single trees and for several in turn.
-/

namespace WhereClause

variable {σ : Type}

/-! ### Changes -/

/-- **Whether an answer changes a leaf.** For a callee, only another name does. -/
def Answer.changes (isCallee : Bool) : Answer → Bool
  | keep => false
  | replace e => !isCallee || e.isName

/-- The places of the sites that the answers change, one answer for each site. -/
def changedAmong (sites : List Site) (answers : List Answer) : List Place :=
  ((sites.zip answers).filter fun o => o.2.changes o.1.isCallee).map (·.1.place)

/-- **The places of the leaves that the answers change**, one answer for each leaf. -/
def Expr.changed (e : Expr) (answers : List Answer) : List Place :=
  changedAmong e.sites answers

/-- The changes in two parts of a tree come one after the other. -/
theorem changedAmong_append {sites sites' : List Site} {answers answers' : List Answer}
    (h : answers.length = sites.length) :
    changedAmong (sites ++ sites') (answers ++ answers') =
      changedAmong sites answers ++ changedAmong sites' answers' := by
  unfold changedAmong
  -- there is one answer for each site, so both lists come apart at the same point
  rw [List.zip_append h.symm, List.filter_append, List.map_append]

/-- Seen from the parent, changes stand one step further down. -/
theorem changedAmong_below (i : Nat) (sites : List Site) (answers : List Answer) :
    changedAmong (sites.map (.below i)) answers = (changedAmong sites answers).map (i :: ·) := by
  unfold changedAmong
  rw [List.zip_map_left, List.filter_map, List.map_map, List.map_map]
  rfl

/-- A single leaf is not changed if its answer is no change. -/
theorem changedAmong_singleton (site : Site) (a : Answer) :
    changedAmong [site] [a] = [] ↔ a.changes site.isCallee = false := by
  unfold changedAmong
  rw [List.map_eq_nil_iff, List.filter_eq_nil_iff, List.zip_cons_cons, List.zip_nil_right,
    List.forall_mem_singleton, Bool.not_eq_true]

/-- No place from `p` on was changed. -/
def Untouched (changed : List Place) (p : Place) : Prop :=
  ∀ q ∈ changed, ¬ p <+: q

/-- The root is untouched only if nothing was changed. -/
theorem untouched_root_iff {changed : List Place} : Untouched changed [] ↔ changed = [] := by
  rw [List.eq_nil_iff_forall_not_mem]
  exact forall_congr' fun q => ⟨fun h hq => h hq List.nil_prefix, fun h hq => absurd hq h⟩

theorem untouched_append {changed changed' : List Place} {p : Place} :
    Untouched (changed ++ changed') p ↔ Untouched changed p ∧ Untouched changed' p :=
  List.forall_mem_append

/-- Below a child, changes under that child count from the child on. -/
theorem untouched_map_cons {changed : List Place} {i : Nat} {p : Place} :
    Untouched (changed.map (i :: ·)) (i :: p) ↔ Untouched changed p := by
  unfold Untouched
  rw [List.forall_mem_map]
  exact forall_congr' fun q => imp_congr_right fun _ => not_congr (List.cons_prefix_cons.trans
    (and_iff_right rfl))

/-- A change under another child does not matter. -/
theorem untouched_of_ne {changed : List Place} {k : Nat} {p : Place}
    (h : ∀ q ∈ changed, ∃ j q', q = j :: q' ∧ k ≠ j) : Untouched changed (k :: p) := by
  intro q hq hprefix
  -- all places under the child `k` start with `k`
  obtain ⟨j, q', rfl, hne⟩ := h q hq
  exact hne (List.cons_prefix_cons.mp hprefix).1

namespace Pass

/-! ### Revisions that reflect changes -/

/-- **A revision that keeps what is not changed, and nothing else.** At every place of the tree
before there is a node afterwards. It is the old one exactly if no place from there on was
changed. -/
def Reflects (e : Expr) (r : Revision) (changed : List Place) : Prop :=
  ∀ p x, e.at? p = some x →
    (r.sharing.keptAt p ↔ Untouched changed p) ∧
      ∃ y, r.tree.at? p = some y ∧ (r.sharing.keptAt p → y = x)

/-- The same for several trees, which are children from the given one on. -/
structure ReflectsFrom (i : Nat) (es : List Expr) (rs : List Revision) (changed : List Place) :
    Prop where
  all_kept : (rs.map (·.sharing)).all Sharing.isKept ↔ changed = []
  at_child : ∀ k e, es[k]? = some e → ∃ r, rs[k]? = some r ∧ ∀ p x, e.at? p = some x →
    (r.sharing.keptAt p ↔ Untouched changed ((i + k) :: p)) ∧
      ∃ y, r.tree.at? p = some y ∧ (r.sharing.keptAt p → y = x)
  le_index : ∀ q ∈ changed, ∃ j q', q = j :: q' ∧ i ≤ j

section Reflects

variable {e after : Expr} {r : Revision} {changed : List Place} {i : Nat} {es : List Expr}
  {rs : List Revision}

/-- The root is kept if nothing at all was changed. -/
theorem Reflects.isKept_iff (h : Reflects e r changed) : r.sharing.isKept ↔ changed = [] :=
  (h [] e rfl).1.trans untouched_root_iff

/-- Where nothing was changed, the very tree comes back. -/
theorem Reflects.eq_kept (h : Reflects e r []) : r = Revision.kept e := by
  have hkept := h.isKept_iff.mpr rfl
  obtain ⟨y, hy, heq⟩ := (h [] e rfl).2
  obtain rfl : r.tree = e := (Option.some.inj hy).trans (heq hkept)
  -- the tree is the old one, and a root that was kept leaves nothing open about its sharing
  obtain ⟨tree, sharing⟩ := r
  cases sharing with
  | kept => rfl
  | rebuilt _ => cases hkept

theorem ReflectsFrom.nil (i : Nat) : ReflectsFrom i [] [] [] where
  all_kept := iff_of_true rfl rfl
  at_child := by
    intro k e he
    cases he
  le_index := List.forall_mem_nil _

/-- One tree in front of several. Places under different children have nothing in common. -/
theorem ReflectsFrom.cons {own : List Place} (h : Reflects e r own)
    (hs : ReflectsFrom (i + 1) es rs changed) :
    ReflectsFrom i (e :: es) (r :: rs) (own.map (i :: ·) ++ changed) where
  all_kept := by
    rw [List.map_cons, List.all_cons, Bool.and_eq_true, h.isKept_iff, hs.all_kept,
      List.append_eq_nil_iff, List.map_eq_nil_iff]
  at_child := by
    intro k e' he'
    cases k with
    | zero =>
      obtain rfl : e = e' := Option.some.inj he'
      -- changes under later children do not matter to the first one
      have hother : ∀ p, Untouched changed (i :: p) := by
        intro p
        refine untouched_of_ne fun q hq => ?_
        obtain ⟨j, q', rfl, hj⟩ := hs.le_index q hq
        exact ⟨j, q', rfl, Nat.ne_of_lt hj⟩
      refine ⟨r, rfl, fun p x hx => ⟨?_, (h p x hx).2⟩⟩
      rw [Nat.add_zero, untouched_append, untouched_map_cons, (h p x hx).1]
      exact (and_iff_left (hother p)).symm
    | succ k =>
      obtain ⟨r', hr', hreflects⟩ := hs.at_child k e' he'
      -- nor do changes under the first one to the later ones
      have hother : ∀ p, Untouched (own.map (i :: ·)) ((i + (k + 1)) :: p) := by
        intro p
        refine untouched_of_ne fun q hq => ?_
        obtain ⟨q', -, rfl⟩ := List.mem_map.mp hq
        exact ⟨i, q', rfl, by omega⟩
      refine ⟨r', hr', fun p x hx => ⟨?_, (hreflects p x hx).2⟩⟩
      rw [untouched_append, (hreflects p x hx).1, Nat.add_right_comm i 1 k, Nat.add_assoc]
      exact (and_iff_right (hother p)).symm
  le_index := by
    intro q hq
    rcases List.mem_append.mp hq with hq | hq
    · obtain ⟨q', -, rfl⟩ := List.mem_map.mp hq
      exact ⟨i, q', rfl, Nat.le_refl i⟩
    · obtain ⟨j, q', rfl, hj⟩ := hs.le_index q hq
      exact ⟨j, q', rfl, Nat.le_of_succ_le hj⟩

/-- **A node reflects the changes below it if its children do.** -/
theorem reflects_rebuild (h : ReflectsFrom 0 es rs changed) (hbefore : e.children = es)
    (hafter : after.children = rs.map (·.tree)) :
    Reflects e (.rebuild e after (rs.map (·.sharing))) changed := by
  subst hbefore
  intro p x hx
  unfold Revision.rebuild
  by_cases hall : (rs.map (·.sharing)).all Sharing.isKept
  · rw [if_pos hall]
    -- the old node stands with all that is below it
    have hnone : Untouched changed p := by
      rw [h.all_kept.mp hall]
      exact List.forall_mem_nil _
    exact ⟨iff_of_true (Sharing.keptAt_kept p) hnone, x, hx, fun _ => rfl⟩
  · rw [if_neg hall]
    cases p with
    | nil =>
      refine ⟨iff_of_false Bool.false_ne_true fun hnone => hall ?_, after, rfl, ?_⟩
      · exact h.all_kept.mpr (untouched_root_iff.mp hnone)
      · exact fun hkept => absurd hkept Bool.false_ne_true
    | cons k p =>
      -- the node is new, but what is below it is what became of its children
      obtain ⟨child, hchild, hx⟩ := Option.bind_eq_some_iff.mp hx
      obtain ⟨r, hr, hreflects⟩ := h.at_child k child hchild
      have hkept : (Sharing.rebuilt (rs.map (·.sharing))).keptAt (k :: p) = r.sharing.keptAt p := by
        rw [Sharing.keptAt, List.getElem?_map, hr]
        rfl
      have hat : after.at? (k :: p) = r.tree.at? p := by
        rw [Expr.at?, hafter, List.getElem?_map, hr]
        rfl
      rw [Nat.zero_add] at hreflects
      rw [hkept, hat]
      exact hreflects p x hx

/-- A leaf has one place only. -/
theorem reflects_leaf {l : Leaf} (hkept : r.sharing.isKept ↔ changed = [])
    (hof : r.Of (.leaf l) after) : Reflects (.leaf l) r changed := by
  intro p x hx
  cases p with
  | nil =>
    obtain rfl : Expr.leaf l = x := Option.some.inj hx
    refine ⟨hkept.trans untouched_root_iff.symm, r.tree, rfl, fun h => ?_⟩
    rw [hof.tree_eq, hof.eq_of_isKept h]
  | cons k p => cases hx

end Reflects

/-! ### Passes over leaves -/

/-- A leaf is kept if its answer is no change. -/
theorem isKept_answer_iff (l : Leaf) (a : Answer) :
    ((Revision.kept (.leaf l)).answer a).sharing.isKept ↔ a.changes false = false := by
  cases a with
  | keep => exact iff_of_true rfl rfl
  | replace e => exact iff_of_false (by simp [Revision.answer, Revision.fresh,
      Revision.isKept_fresh]) (by simp [Answer.changes])

/-- The answer for a callee is ignored if it is no name, and then the callee is kept. -/
theorem isKept_asCallee_iff (name : String) (a : Answer) :
    (((Revision.kept (.identifier name)).answer a).asCallee (.identifier name)).sharing.isKept ↔
      a.changes true = false := by
  cases a with
  | keep => exact iff_of_true rfl rfl
  | replace e =>
    -- the only answer that is not ignored is another name
    cases e with
    | leaf l =>
      cases l with
      | identifier _ =>
        exact iff_of_false Bool.false_ne_true (by simp [Answer.changes, Expr.isName])
      | _ => exact iff_of_true rfl rfl
    | _ => exact iff_of_true rfl rfl

section Leaves

variable (f : Leaf → StateM σ Answer)

mutual

/-- **A pass over leaves reflects the changes that its answers make**, and asks about the leaves in
source order. -/
theorem apply_reflects : ∀ (e : Expr) (s : σ), e.hasNamedCallees →
    ∃ r answers s', ((ofLeaf f).apply e).run s = (r, s') ∧
      (e.leaves.mapM f).run s = (answers, s') ∧ answers.length = e.sites.length ∧
      Reflects e r (e.changed answers)
  | .leaf l, s, _ => by
    rcases hl : (f l).run s with ⟨a, s'⟩
    refine ⟨(Revision.kept (.leaf l)).answer a, [a], s', ?_, run_mapM_singleton hl, rfl, ?_⟩
    · exact run_bind_of_run hl
    · refine reflects_leaf ?_ (Revision.of_answer l a)
      exact (isKept_answer_iff l a).trans (changedAmong_singleton ⟨[], false⟩ a).symm
  -- For a composite node, the changes under its children are put together in the order of the
  -- sites. There is one answer for each site, so the answers come apart where the children do.
  | .unary op x, s, h => by
    obtain ⟨r, answers, s₁, happly, hleaves, hlength, hx⟩ := apply_reflects x s h
    refine ⟨.rebuild (.unary op x) (.unary op r.tree) [r.sharing], answers, s₁, ?_, hleaves, ?_, ?_⟩
    · rw [apply, run_bind_of_run happly]
      rfl
    · rw [Expr.sites, List.length_map, hlength]
    · have hchildren := ReflectsFrom.cons hx (.nil 1)
      rw [List.append_nil, Expr.changed, ← changedAmong_below] at hchildren
      exact reflects_rebuild hchildren rfl rfl
  | .binary l op r, s, h => by
    obtain ⟨hl, hr⟩ := Bool.and_eq_true_iff.mp h
    obtain ⟨rl, as, s₁, hlapply, hlleaves, hllength, hl⟩ := apply_reflects l s hl
    obtain ⟨rr, bs, s₂, hrapply, hrleaves, hrlength, hr⟩ := apply_reflects r s₁ hr
    refine ⟨.rebuild (.binary l op r) (.binary rl.tree op rr.tree) [rl.sharing, rr.sharing],
      as ++ bs, s₂, ?_, run_mapM_append hlleaves hrleaves, ?_, ?_⟩
    · rw [apply, run_bind_of_run hlapply, run_bind_of_run hrapply]
      rfl
    · rw [Expr.sites, List.length_append, List.length_append, List.length_map, List.length_map,
        hllength, hrlength]
    · have hchildren := ReflectsFrom.cons hl (.cons hr (.nil 2))
      rw [List.append_nil, Expr.changed, Expr.changed, ← changedAmong_below, ← changedAmong_below,
        ← changedAmong_append (by rw [hllength, List.length_map])] at hchildren
      exact reflects_rebuild hchildren rfl rfl
  | .grouping x, s, h => by
    obtain ⟨r, answers, s₁, happly, hleaves, hlength, hx⟩ := apply_reflects x s h
    refine ⟨.rebuild (.grouping x) (.grouping r.tree) [r.sharing], answers, s₁, ?_, hleaves, ?_, ?_⟩
    · rw [apply, run_bind_of_run happly]
      rfl
    · rw [Expr.sites, List.length_map, hlength]
    · have hchildren := ReflectsFrom.cons hx (.nil 1)
      rw [List.append_nil, Expr.changed, ← changedAmong_below] at hchildren
      exact reflects_rebuild hchildren rfl rfl
  | .call callee close args, s, h => by
    obtain ⟨hcallee, hargs⟩ := Bool.and_eq_true_iff.mp h
    obtain ⟨name, rfl⟩ := Expr.exists_of_isName hcallee
    -- the callee is a leaf whose answer may be ignored, and then it is not changed
    rcases hname : (f (.identifier name)).run s with ⟨a, s₁⟩
    obtain ⟨rs, answers, s₂, happly, hleaves, hlength, hs⟩ := applyEach_reflects 1 args s₁ hargs
    have hanswered : ((ofLeaf f).apply (.identifier name)).run s =
        ((Revision.kept (.identifier name)).answer a, s₁) := run_bind_of_run hname
    obtain ⟨rc, hrc⟩ : ∃ rc : Revision,
        ((Revision.kept (.identifier name)).answer a).asCallee (.identifier name) = rc := ⟨_, rfl⟩
    have hcallee : Reflects (.identifier name) rc (changedAmong [⟨[], true⟩] [a]) := by
      have hkept := isKept_asCallee_iff name a
      have hof := (Revision.of_answer (.identifier name) a).asCallee
      rw [hrc] at hkept hof
      exact reflects_leaf (hkept.trans (changedAmong_singleton ⟨[], true⟩ a).symm) hof
    refine ⟨.rebuild (.call (.identifier name) close args) (.call rc.tree close (rs.map (·.tree)))
      (rc.sharing :: rs.map (·.sharing)), a :: answers, s₂, ?_,
      run_mapM_append (run_mapM_singleton hname) hleaves, ?_, ?_⟩
    · rw [apply, run_bind_of_run hanswered, run_bind_of_run happly, hrc]
      rfl
    · rw [List.length_cons, hlength]
      rfl
    · have hchildren := ReflectsFrom.cons hcallee hs
      rw [← changedAmong_below, ← changedAmong_append rfl] at hchildren
      exact reflects_rebuild hchildren rfl rfl
  | .list items, s, h => by
    obtain ⟨rs, answers, s₁, happly, hleaves, hlength, hs⟩ := applyEach_reflects 0 items s h
    refine ⟨.rebuild (.list items) (.list (rs.map (·.tree))) (rs.map (·.sharing)), answers, s₁, ?_,
      hleaves, hlength, reflects_rebuild hs rfl rfl⟩
    rw [apply, run_bind_of_run happly]
    rfl

/-- The same for several trees, which are children from the given one on. -/
theorem applyEach_reflects : ∀ (i : Nat) (es : List Expr) (s : σ), Expr.haveNamedCallees es →
    ∃ rs answers s', ((ofLeaf f).applyEach es).run s = (rs, s') ∧
      ((Expr.leavesOf es).mapM f).run s = (answers, s') ∧
      answers.length = (Expr.sitesFrom i es).length ∧
      ReflectsFrom i es rs (changedAmong (Expr.sitesFrom i es) answers)
  | i, [], s, _ => ⟨[], [], s, rfl, rfl, rfl, .nil i⟩
  | i, e :: es, s, h => by
    obtain ⟨he, hes⟩ := Bool.and_eq_true_iff.mp h
    obtain ⟨r, as, s₁, happly, hleaves, hlength, he⟩ := apply_reflects e s he
    obtain ⟨rs, bs, s₂, hsapply, hsleaves, hslength, hs⟩ := applyEach_reflects (i + 1) es s₁ hes
    refine ⟨r :: rs, as ++ bs, s₂, run_applyEach_cons happly hsapply,
      run_mapM_append hleaves hsleaves, ?_, ?_⟩
    · rw [Expr.sitesFrom, List.length_append, List.length_append, List.length_map, hlength,
        hslength]
    · have hchildren := ReflectsFrom.cons he hs
      rw [Expr.changed, ← changedAmong_below,
        ← changedAmong_append (by rw [hlength, List.length_map])] at hchildren
      exact hchildren

end

end Leaves

end Pass

/-- **A pass over leaves builds anew as little as it can.** A tree whose callees are names has an
answer for each of its leaves, which stand at its sites in source order. After the pass, the old
node is at a place exactly if none of the answers for the leaves from there on is a change. If none
at all is one, the very tree comes back. Of several trees in turn, each is kept under the same
condition, and there is no answer exactly if all of them are. -/
theorem keptAt_iff_unchanged (f : Leaf → StateM σ Answer) (s : σ) :
    (∀ t : Expr, t.hasNamedCallees → ∃ r answers s',
      ((Pass.ofLeaf f).apply t).run s = (r, s') ∧ (t.leaves.mapM f).run s = (answers, s') ∧
      t.sites.map (fun site => t.at? site.place) = t.leaves.map (some ∘ .leaf) ∧
      (∀ site, site ∈ t.sites ↔ t.IsSite site) ∧
      (∀ p x, t.at? p = some x →
        (r.sharing.keptAt p ↔ ∀ q ∈ t.changed answers, ¬ p <+: q) ∧
          ∃ y, r.tree.at? p = some y ∧ (r.sharing.keptAt p → y = x)) ∧
      (t.changed answers = [] → r = Revision.kept t)) ∧
    ∀ ts : List Expr, Expr.haveNamedCallees ts → ∃ answer answers s',
      ((Pass.ofLeaf f).applyAll? ts).run s = (answer, s') ∧
      ((Expr.leavesOf ts).mapM f).run s = (answers, s') ∧
      (answer = none ↔ changedAmong (Expr.sitesFrom 0 ts) answers = []) ∧
      ∀ rs, answer = some rs → ∀ k t, ts[k]? = some t → ∃ r, rs[k]? = some r ∧
        (r.sharing.isKept ↔ ∀ q ∈ changedAmong (Expr.sitesFrom 0 ts) answers, ¬ [k] <+: q) := by
  constructor
  · intro t ht
    obtain ⟨r, answers, s', happly, hleaves, -, hreflects⟩ := Pass.apply_reflects f t s ht
    refine ⟨r, answers, s', happly, hleaves, t.map_at?_sites, t.mem_sites_iff, hreflects, ?_⟩
    intro hchanged
    rw [hchanged] at hreflects
    exact hreflects.eq_kept
  · intro ts hts
    obtain ⟨rs, answers, s', happly, hleaves, -, hs⟩ := Pass.applyEach_reflects f 0 ts s hts
    -- whether there is an answer is asked of the sharings of the elements
    have hrun : ((Pass.ofLeaf f).applyAll? ts).run s =
        (if (rs.map (·.sharing)).all Sharing.isKept then none else some rs, s') := by
      rw [Pass.applyAll?, run_bind_of_run happly, List.all_map]
      rfl
    refine ⟨_, answers, s', hrun, hleaves, ?_, ?_⟩
    · rw [← hs.all_kept]
      split
      · next hall => exact iff_of_true rfl hall
      · next hnot => exact iff_of_false (Option.some_ne_none rs) hnot
    · intro rs' hrs' k t ht
      obtain rfl : rs = rs' := by
        split at hrs'
        · cases hrs'
        · exact Option.some.inj hrs'
      obtain ⟨r, hr, hreflects⟩ := hs.at_child k t ht
      rw [Nat.zero_add] at hreflects
      exact ⟨r, hr, (hreflects [] t rfl).1⟩

/-- Counts the leaves, and has something new for the first two of them. -/
def renameFirstTwo (_ : Leaf) : StateM Nat Answer :=
  fun n => (if n = 0 then .replace (.literal .null) else if n = 1 then .replace (.identifier "z")
    else .keep, n + 1)

/-- `f(x, y) = z`, whose first leaf is a callee. -/
def comparedCall : Expr :=
  .binary (.callNamed "f" [.identifier "x", .identifier "y"]) (.ofKind .equal "=") (.identifier "z")

/-- The answer for the callee is ignored, so it is only `x` that makes the nodes above it new. -/
theorem keptAt_comparedCall : comparedCall.hasNamedCallees ∧ ∃ r s',
    ((Pass.ofLeaf renameFirstTwo).apply comparedCall).run 0 = (r, s') ∧
      ¬ r.sharing.keptAt [0] ∧ ¬ r.sharing.keptAt [0, 1] ∧ r.sharing.keptAt [0, 0] ∧
      r.sharing.keptAt [1] := by
  have hanswers : (comparedCall.leaves.mapM renameFirstTwo).run 0 =
      ([.replace (.literal .null), .replace (.identifier "z"), .keep, .keep], 4) := rfl
  obtain ⟨r, answers, s', happly, hleaves, -, -, hkept, -⟩ :=
    (keptAt_iff_unchanged renameFirstTwo 0).1 comparedCall rfl
  obtain ⟨rfl, rfl⟩ := Prod.mk.inj (hleaves.symm.trans hanswers)
  have hchanged : comparedCall.changed
      [.replace (.literal .null), .replace (.identifier "z"), .keep, .keep] = [[0, 1]] := rfl
  rw [hchanged] at hkept
  exact ⟨rfl, r, 4, happly, mt (hkept [0] _ rfl).1.mp (by decide),
    mt (hkept [0, 1] _ rfl).1.mp (by decide), (hkept [0, 0] _ rfl).1.mpr (by decide),
    (hkept [1] _ rfl).1.mpr (by decide)⟩

end WhereClause
