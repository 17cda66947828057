import WhereClause.Expr.Names

/-!
# Occurrences and first occurrences

Names occur at places, such as the leaves of a tree or the tokens of a text, and the places have an
order. What a tree refers to is a list without duplicates, in the order of first occurrences. This
is said here without a traversal: `FirstOccurrences` is about an arbitrary relation between places
and names.

A list with one entry for each occurrence comes before that (`InOrder`). Such lists are put together
from those of parts, and taking note of their entries one after the other leaves the first
occurrences.

* `FirstOccurrences` — every name that occurs, once, ordered by where it occurs first;
* `InOrder` — every name that occurs, once for each occurrence, from left to right;
* `FirstOccurrences.note` — one more occurrence, behind all others;
* `InOrder.firstOccurrences` — all occurrences in turn.
-/

namespace WhereClause

variable {ι κ α β : Type}

/-! ### First occurrences -/

/-- **Every name that occurs, once, in the order of first occurrences.** A name stands in the list
in front of another one if it occurs somewhere before all occurrences of that. -/
structure FirstOccurrences (before : ι → ι → Prop) (At : ι → α → Prop) (xs : List α) : Prop where
  nodup : xs.Nodup
  mem_iff : ∀ a, a ∈ xs ↔ ∃ i, At i a
  pairwise : xs.Pairwise fun a b => ∃ i, At i a ∧ ∀ j, At j b → before i j

namespace FirstOccurrences

variable {before : ι → ι → Prop} {At At' : ι → α → Prop} {xs : List α}

/-- What occurs where may be said in another way. -/
theorem congr (h : FirstOccurrences before At xs) (hAt : ∀ i a, At' i a ↔ At i a) :
    FirstOccurrences before At' xs := by
  obtain rfl : At' = At := funext fun i => funext fun a => propext (hAt i a)
  exact h

/-- Nothing occurs anywhere. -/
theorem nil (h : ∀ i a, ¬ At i a) : FirstOccurrences before At [] where
  nodup := List.nodup_nil
  mem_iff a := by
    refine iff_of_false List.not_mem_nil ?_
    rintro ⟨i, hi⟩
    exact h i a hi
  pairwise := .nil

end FirstOccurrences

section Note

variable {before : ι → ι → Prop} {At : ι → String → Prop} {names : List String}

/-- **One more occurrence**, behind all others. It makes a difference only for a name that has not
occurred yet. -/
theorem FirstOccurrences.note (h : FirstOccurrences before At names) {i : ι}
    (hlast : ∀ j n, At j n → before j i) (name : String) :
    FirstOccurrences before (fun j n => At j n ∨ j = i ∧ n = name)
      (References.noteName names name) := by
  -- the new occurrence is behind the first one of any other name
  have hbehind : ∀ m n, (∃ j, At j m ∧ ∀ k, At k n → before j k) →
      ∃ j, (At j m ∨ j = i ∧ m = name) ∧ ∀ k, At k n ∨ k = i ∧ n = name → before j k := by
    rintro m n ⟨j, hj, hfirst⟩
    refine ⟨j, .inl hj, ?_⟩
    rintro k (hk | ⟨rfl, -⟩)
    · exact hfirst k hk
    · exact hlast j m hj
  unfold References.noteName
  split
  · next hmem =>
    -- the name has occurred before, so its first occurrence stays
    rw [List.contains_iff_mem] at hmem
    refine ⟨h.nodup, fun n => ?_, h.pairwise.imp (hbehind _ _)⟩
    rw [h.mem_iff]
    constructor
    · rintro ⟨j, hj⟩
      exact ⟨j, .inl hj⟩
    · rintro ⟨j, hj | ⟨rfl, rfl⟩⟩
      · exact ⟨j, hj⟩
      · exact (h.mem_iff n).mp hmem
  · next hmem =>
    rw [List.contains_iff_mem] at hmem
    refine ⟨?_, fun n => ?_, ?_⟩
    · rw [List.nodup_append]
      refine ⟨h.nodup, List.pairwise_singleton _ _, ?_⟩
      rintro m hm n hn rfl
      exact hmem (List.mem_singleton.mp hn ▸ hm)
    · rw [List.mem_append, List.mem_singleton, h.mem_iff]
      constructor
      · rintro (⟨j, hj⟩ | rfl)
        · exact ⟨j, .inl hj⟩
        · exact ⟨i, .inr ⟨rfl, rfl⟩⟩
      · rintro ⟨j, hj | ⟨rfl, rfl⟩⟩
        · exact .inl ⟨j, hj⟩
        · exact .inr rfl
    · rw [List.pairwise_append]
      refine ⟨h.pairwise.imp (hbehind _ _), List.pairwise_singleton _ _, ?_⟩
      intro m hm n hn
      obtain rfl := List.mem_singleton.mp hn
      -- up to now the name has not occurred at all
      obtain ⟨j, hj⟩ := (h.mem_iff m).mp hm
      exact hbehind m n ⟨j, hj, fun k hk => absurd ((h.mem_iff n).mpr ⟨k, hk⟩) hmem⟩

/-- **All occurrences in turn**, behind those that were found before. -/
theorem FirstOccurrences.foldl_noteName {occurrences : List (ι × String)}
    (h : FirstOccurrences before At names)
    (hbefore : ∀ i n, At i n → ∀ o ∈ occurrences, before i o.1)
    (hsorted : occurrences.Pairwise fun o o' => before o.1 o'.1) :
    FirstOccurrences before (fun i n => At i n ∨ (i, n) ∈ occurrences)
      ((occurrences.map Prod.snd).foldl References.noteName names) := by
  induction occurrences generalizing At names with
  | nil => exact h.congr fun i n => or_iff_left List.not_mem_nil
  | cons o occurrences ih =>
    obtain ⟨i, name⟩ := o
    obtain ⟨hfirst, hrest⟩ := List.pairwise_cons.mp hsorted
    have hnote := h.note (fun j n hj => hbefore j n hj _ List.mem_cons_self) name
    refine (ih hnote ?_ hrest).congr fun j n => ?_
    · -- the occurrence that note was taken of is in front of the others
      rintro j n (hj | ⟨rfl, -⟩) o ho
      · exact hbefore j n hj o (List.mem_cons_of_mem _ ho)
      · exact hfirst o ho
    · rw [List.mem_cons, Prod.mk.injEq, or_assoc]

end Note

/-! ### All occurrences -/

/-- **Every name that occurs, once for each occurrence, from left to right.** -/
def InOrder (before : ι → ι → Prop) (At : ι → α → Prop) (xs : List α) : Prop :=
  ∃ occurrences : List (ι × α), occurrences.map Prod.snd = xs ∧
    (occurrences.Pairwise fun o o' => before o.1 o'.1) ∧ ∀ i a, At i a ↔ (i, a) ∈ occurrences

/-- **The first ones of all occurrences** are left when note is taken of one after the other. -/
theorem InOrder.firstOccurrences {before : ι → ι → Prop} {At : ι → String → Prop}
    {names : List String} (h : InOrder before At names) :
    FirstOccurrences before At (names.foldl References.noteName []) := by
  obtain ⟨occurrences, rfl, hsorted, hAt⟩ := h
  have hnone : FirstOccurrences before (fun (_ : ι) (_ : String) => False) [] :=
    .nil fun _ _ => id
  refine (hnone.foldl_noteName (fun _ _ => False.elim) hsorted).congr fun i n => ?_
  rw [false_or, hAt]

namespace InOrder

variable {before : ι → ι → Prop} {At At' : ι → α → Prop} {xs ys : List α}

theorem nil (h : ∀ i a, ¬ At i a) : InOrder before At [] :=
  ⟨[], rfl, .nil, fun i a => iff_of_false (h i a) List.not_mem_nil⟩

/-- One occurrence. -/
theorem singleton {i : ι} {a : α} (h : ∀ j b, At j b ↔ j = i ∧ b = a) :
    InOrder before At [a] := by
  refine ⟨[(i, a)], rfl, List.pairwise_singleton _ _, fun j b => ?_⟩
  rw [h, List.mem_singleton, Prod.mk.injEq]

/-- Occurrences in two parts, of which one comes before the other. -/
theorem append {At₁ At₂ : ι → α → Prop} (hx : InOrder before At₁ xs) (hy : InOrder before At₂ ys)
    (hAt : ∀ i a, At i a ↔ At₁ i a ∨ At₂ i a)
    (hbefore : ∀ i j a b, At₁ i a → At₂ j b → before i j) : InOrder before At (xs ++ ys) := by
  obtain ⟨occurrences, rfl, hsorted, hAt₁⟩ := hx
  obtain ⟨occurrences', rfl, hsorted', hAt₂⟩ := hy
  refine ⟨occurrences ++ occurrences', List.map_append, ?_, fun i a => ?_⟩
  · refine List.pairwise_append.mpr ⟨hsorted, hsorted', ?_⟩
    rintro ⟨i, a⟩ ho ⟨j, b⟩ ho'
    exact hbefore i j a b ((hAt₁ i a).mpr ho) ((hAt₂ j b).mpr ho')
  · rw [hAt, hAt₁, hAt₂, List.mem_append]

/-- The same occurrences at other places, in the same order. -/
theorem place {before' : κ → κ → Prop} {At' : κ → α → Prop} (h : InOrder before At xs) (f : ι → κ)
    (hf : ∀ i j, before i j → before' (f i) (f j))
    (hAt : ∀ k a, At' k a ↔ ∃ i, k = f i ∧ At i a) : InOrder before' At' xs := by
  obtain ⟨occurrences, rfl, hsorted, hmem⟩ := h
  refine ⟨occurrences.map fun o => (f o.1, o.2), ?_, ?_, fun k a => ?_⟩
  · rw [List.map_map]
    rfl
  · exact List.pairwise_map.mpr (hsorted.imp fun h => hf _ _ h)
  · rw [hAt, List.mem_map]
    -- an occurrence and its new place determine each other as far as names go
    constructor
    · rintro ⟨i, rfl, hi⟩
      exact ⟨(i, a), (hmem i a).mp hi, rfl⟩
    · rintro ⟨⟨i, b⟩, ho, hk⟩
      obtain ⟨rfl, rfl⟩ := Prod.mk.inj hk
      exact ⟨i, rfl, (hmem i b).mpr ho⟩

/-- What a function finds in that which occurs. -/
theorem filterMap (h : InOrder before At xs) (f : α → Option β) :
    InOrder before (fun i b => ∃ a, At i a ∧ f a = some b) (xs.filterMap f) := by
  obtain ⟨occurrences, rfl, hsorted, hmem⟩ := h
  refine ⟨occurrences.filterMap fun o => (f o.2).map (o.1, ·), ?_, ?_, fun i b => ?_⟩
  · rw [List.map_filterMap, List.filterMap_map]
    refine congrArg (List.filterMap · occurrences) (funext fun o => ?_)
    cases hb : f o.2 <;> simp [hb]
  · -- places stay as they were, so the order is that of the places before
    refine List.pairwise_filterMap.mpr (hsorted.imp ?_)
    rintro ⟨i, a⟩ ⟨j, a'⟩ hij b hb b' hb'
    obtain ⟨c, -, rfl⟩ := Option.map_eq_some_iff.mp hb
    obtain ⟨c', -, rfl⟩ := Option.map_eq_some_iff.mp hb'
    exact hij
  · rw [List.mem_filterMap]
    constructor
    · rintro ⟨a, ha, hb⟩
      refine ⟨(i, a), (hmem i a).mp ha, ?_⟩
      rw [hb]
      rfl
    · rintro ⟨⟨j, a⟩, ho, hb⟩
      obtain ⟨c, hc, hpair⟩ := Option.map_eq_some_iff.mp hb
      obtain ⟨rfl, rfl⟩ := Prod.mk.inj hpair
      exact ⟨a, (hmem j a).mpr ho, hc⟩

end InOrder

/-- The members of a list occur at their indices. -/
theorem inOrder_getElem? (xs : List α) :
    InOrder (· < ·) (fun (i : Nat) a => xs[i]? = some a) xs := by
  induction xs with
  | nil => exact .nil fun i a => nofun
  | cons x xs ih =>
    have hfirst : InOrder (· < ·) (fun (i : Nat) a => i = 0 ∧ a = x) [x] :=
      .singleton fun _ _ => Iff.rfl
    -- all others have moved by one place
    have hrest : InOrder (· < ·) (fun (i : Nat) a => ∃ j, i = j + 1 ∧ xs[j]? = some a) xs :=
      ih.place (· + 1) (fun i j => Nat.succ_lt_succ) fun _ _ => Iff.rfl
    refine hfirst.append hrest (fun i a => ?_) ?_
    · cases i with
      | zero => simp [eq_comm]
      | succ i => simp
    · rintro i j a b ⟨rfl, -⟩ ⟨k, rfl, -⟩
      exact Nat.succ_pos k

end WhereClause
