import Mathlib
import WhereClause.Proofs.NumberReading

/-!
# Ties between shortest decimals

Two rules choose between the neighbours of a binary fraction where both are equally near: one takes
the greater neighbour, the other one the even neighbour. All else in the search for a shortest
decimal is the same for both, so the two decimals differ only where the fraction lies exactly midway
between two neighbours that both round to it, and the lower one is even.

The search finds its answer on the same grid then, and the decimals are one unit of this grid apart.
The grid is one of fractions. On a grid of whole numbers, a fraction midway between two neighbours
would be an odd number of half units, and so have a bit below its last one, which is as wide as a
unit of the grid if both neighbours round to it.

* `Binary.neighbour?_eq` — the choice on one grid, in terms of what rounds to the fraction;
* `Binary.Midway` — a tie that the two rules settle differently;
* `Binary.Midway.value_eq`, `Binary.Midway.neg` — where a tie lies;
* `Binary.shortest_trimmed` — no zeros at the end of a shortest decimal;
* `Binary.shortest_even` — the decimals of the two rules.
-/

namespace WhereClause

/-! ### Zeros at the end -/

namespace Scientific

/-- Without a zero at the end there is nothing to trim. -/
theorem trim_of_mod_ne {g : Nat} (h : g % 10 ≠ 0) (t : ℤ) : trim g t = ⟨g, t⟩ := by
  rw [trim, dif_neg fun hg => h hg.2]

/-- Trimming keeps the value. -/
theorem value_trim (g : Nat) (t : ℤ) : (trim g t).value = g * 10 ^ t := by
  fun_induction trim g t with
  | case1 g t h ih =>
    have hg : ((g / 10 : Nat) : ℚ) * 10 = g := by
      exact_mod_cast Nat.div_mul_cancel (Nat.dvd_of_mod_eq_zero h.2)
    rw [ih, zpow_add₀ (by norm_num), zpow_one, ← hg]
    ring
  | case2 g t h => rfl

/-- Trimming leaves no zero at the end. -/
theorem digits_trim_mod_ne {g : Nat} (hg : g ≠ 0) (t : ℤ) : (trim g t).digits % 10 ≠ 0 := by
  fun_induction trim g t with
  | case1 g t h ih => exact ih (by omega)
  | case2 g t h => exact fun hmod => h ⟨hg, hmod⟩

end Scientific

namespace Binary

/-! ### Neighbours on a grid -/

/-- The distance of two points of the grid of multiples of ten to the power `t`. All distances are
whole numbers in a unit that depends on `x` and `t` only. -/
def point (x : Binary) (t : ℤ) : Nat :=
  Nat.pow 10 t.toNat * Nat.pow 2 (-(x.exponent - 2)).toNat

/-- A quarter of the last bit of `x`, in the same unit. -/
def quarter (x : Binary) (t : ℤ) : Nat :=
  Nat.pow 2 (x.exponent - 2).toNat * Nat.pow 10 (-t).toNat

/-- Whether a point of the grid rounds to `x`. -/
def inside (x : Binary) (t : ℤ) (g : Nat) : Bool :=
  let low := (4 * x.significand - (if x.significand = leastSignificand then 1 else 2)) * x.quarter t
  let high := (4 * x.significand + 2) * x.quarter t
  if x.significand % 2 = 0 then low ≤ g * x.point t && g * x.point t ≤ high
  else low < g * x.point t && g * x.point t < high

/-- The last point of the grid that is not above `x`. -/
def below (x : Binary) (t : ℤ) : Nat :=
  4 * x.significand * x.quarter t / x.point t

/-- **The choice on one grid.** Where both neighbours round to the fraction, the nearer one is
taken, and at equal distances the rule decides. -/
theorem neighbour?_eq (tie : Tie) (x : Binary) (t : ℤ) :
    x.neighbour? tie t =
      match x.inside t (x.below t), x.inside t (x.below t + 1) with
      | false, false => none
      | true, false => some (x.below t)
      | false, true => some (x.below t + 1)
      | true, true =>
        let down := 4 * x.significand * x.quarter t - x.below t * x.point t
        let up := (x.below t + 1) * x.point t - 4 * x.significand * x.quarter t
        if down < up then some (x.below t)
        else if up < down then some (x.below t + 1)
        else match tie with
          | .up => some (x.below t + 1)
          | .even => some (if x.below t % 2 = 0 then x.below t else x.below t + 1) :=
  rfl

variable {x : Binary} {t : ℤ} {g : Nat}

theorem point_pos : 0 < x.point t :=
  Nat.mul_pos (Nat.pow_pos (by decide)) (Nat.pow_pos (by decide))

theorem quarter_pos : 0 < x.quarter t :=
  Nat.mul_pos (Nat.pow_pos (by decide)) (Nat.pow_pos (by decide))

/-- What is inside is at most half a bit away from `x`. -/
theorem bounds_of_inside (h : x.inside t g) :
    (4 * x.significand - 2) * x.quarter t ≤ g * x.point t ∧
      g * x.point t ≤ (4 * x.significand + 2) * x.quarter t := by
  -- below a power of two the bits are half as wide, which makes the bound narrower
  have hlow : (4 * x.significand - 2) * x.quarter t ≤
      (4 * x.significand - (if x.significand = leastSignificand then 1 else 2)) * x.quarter t := by
    refine Nat.mul_le_mul_right _ ?_
    split <;> omega
  unfold inside at h
  dsimp only at h
  split at h <;> simp only [Bool.and_eq_true, decide_eq_true_eq] at h
  · exact ⟨hlow.trans h.1, h.2⟩
  · exact ⟨hlow.trans h.1.le, h.2.le⟩

/-- **A neighbour rounds to the fraction.** -/
theorem inside_of_neighbour? {tie : Tie} (h : x.neighbour? tie t = some g) : x.inside t g := by
  rw [neighbour?_eq] at h
  split at h
  · cases h
  · cases h
    assumption
  · cases h
    assumption
  · -- both are inside, so it does not matter which of them is taken
    next hbelow habove =>
    dsimp only at h
    split at h
    · cases h
      exact hbelow
    split at h
    · cases h
      exact habove
    cases tie with
    | up =>
      cases h
      exact habove
    | even =>
      obtain rfl := Option.some.inj h
      split
      · exact hbelow
      · exact habove

/-- Zero is no neighbour of a fraction that is not zero. -/
theorem neighbour?_ne_zero {tie : Tie} (hx : x.significand ≠ 0) (h : x.neighbour? tie t = some g) :
    g ≠ 0 := by
  rintro rfl
  -- the lower bound is above zero
  have hle := (bounds_of_inside (inside_of_neighbour? h)).1
  rw [Nat.zero_mul, Nat.le_zero, Nat.mul_eq_zero] at hle
  have hpos := quarter_pos (x := x) (t := t)
  omega

/-! ### Ties on a grid -/

/-- **A tie that the two rules settle differently**: `x` is exactly midway between `b` and `b + 1`,
both of which round to it, and `b` is even. -/
structure Midway (x : Binary) (b : Nat) (t : ℤ) : Prop where
  up : x.neighbour? .up t = some (b + 1)
  even : x.neighbour? .even t = some b
  isEven : b % 2 = 0
  midway : 2 * (4 * x.significand * x.quarter t) = (2 * b + 1) * x.point t
  narrow : x.point t ≤ 4 * x.quarter t

/-- Two neighbours that round to `x` are not further apart than its last bits. -/
theorem point_le (hbelow : x.inside t g) (habove : x.inside t (g + 1)) :
    x.point t ≤ 4 * x.quarter t := by
  have hlow := (bounds_of_inside hbelow).1
  have hhigh := (bounds_of_inside habove).2
  -- the bounds are four quarters of a bit apart, or less at zero
  have hwidth : (4 * x.significand + 2) * x.quarter t ≤
      (4 * x.significand - 2) * x.quarter t + 4 * x.quarter t := by
    rw [← Nat.add_mul]
    exact Nat.mul_le_mul_right _ (by omega)
  rw [Nat.succ_mul] at hhigh
  omega

/-- **The two rules differ at a tie only.** -/
theorem neighbour?_even (x : Binary) (t : ℤ) :
    x.neighbour? .even t = x.neighbour? .up t ∨ ∃ b, Midway x b t := by
  have hup := neighbour?_eq .up x t
  have heven := neighbour?_eq .even x t
  by_cases hboth : x.inside t (x.below t) ∧ x.inside t (x.below t + 1)
  · rw [hboth.1, hboth.2] at hup heven
    dsimp only at hup heven
    split at hup
    · next hdown =>
      rw [if_pos hdown] at heven
      exact .inl (heven.trans hup.symm)
    next hdown =>
    rw [if_neg hdown] at heven
    split at hup
    · next hover =>
      rw [if_pos hover] at heven
      exact .inl (heven.trans hup.symm)
    next hover =>
    rw [if_neg hover] at heven
    -- both are equally far away
    split at heven
    · next hparity =>
      refine .inr ⟨x.below t, hup, heven, hparity, ?_, point_le hboth.1 hboth.2⟩
      -- `x` is not below the one and below the other, so the distances add up to a unit
      have hle : x.below t * x.point t ≤ 4 * x.significand * x.quarter t := Nat.div_mul_le_self _ _
      have hlt : 4 * x.significand * x.quarter t < (x.below t + 1) * x.point t :=
        Nat.lt_mul_of_div_lt (Nat.lt_succ_self _) point_pos
      have hnext : (x.below t + 1) * x.point t = x.below t * x.point t + x.point t :=
        Nat.succ_mul _ _
      rw [hnext] at hdown hover hlt
      rw [Nat.add_mul, Nat.mul_assoc 2 (x.below t), Nat.one_mul]
      omega
    · exact .inl (heven.trans hup.symm)
  · -- at most one neighbour rounds to the fraction, and no rule is asked
    left
    rw [heven, hup]
    split
    · rfl
    · rfl
    · rfl
    · next hbelow habove => exact absurd ⟨hbelow, habove⟩ hboth

/-- The units of a grid. -/
theorem quarter_mul (x : Binary) (t : ℤ) :
    (x.quarter t : ℚ) * 10 ^ t = 2 ^ (x.exponent - 2) * x.point t := by
  rw [zpow_eq_div (by norm_num), zpow_eq_div (by norm_num), quarter, point]
  simp only [Nat.pow_eq]
  push_cast
  field_simp

/-- **A tie is exactly midway.** -/
theorem Midway.value_eq {b : Nat} (h : Midway x b t) : x.value = (b + 1 / 2) * 10 ^ t := by
  have hpoint : (x.point t : ℚ) ≠ 0 := by exact_mod_cast point_pos.ne'
  have hmidway : 2 * (4 * x.significand * x.quarter t) = (2 * b + 1) * (x.point t : ℚ) := by
    exact_mod_cast h.midway
  have hvalue : x.value = 4 * x.significand * 2 ^ (x.exponent - 2) := by
    rw [value, zpow_sub₀ (by norm_num)]
    norm_num
    ring
  refine mul_right_cancel₀ hpoint ?_
  calc x.value * x.point t
      _ = 4 * x.significand * (2 ^ (x.exponent - 2) * x.point t) := by rw [hvalue]; ring
      _ = 4 * x.significand * x.quarter t * 10 ^ t := by rw [← quarter_mul]; ring
      _ = (b + 1 / 2) * 10 ^ t * x.point t := by linear_combination 10 ^ t / 2 * hmidway

/-- Odd factors add nothing to the powers of two in a number. -/
theorem lt_of_midway {s b a c k : Nat}
    (h : 2 * (4 * s * 2 ^ a) = (2 * b + 1) * (5 ^ k * 2 ^ c)) : 4 * 2 ^ a < 5 ^ k * 2 ^ c := by
  have hdvd : 2 ^ (a + 3) ∣ (2 * b + 1) * 5 ^ k * 2 ^ c := by
    refine ⟨s, ?_⟩
    rw [Nat.mul_assoc, ← h]
    ring
  -- all the twos are in the power of two
  have hcoprime : Nat.Coprime (2 ^ (a + 3)) ((2 * b + 1) * 5 ^ k) := by
    refine Nat.Coprime.pow_left _ (Nat.coprime_two_left.mpr ?_)
    exact (odd_two_mul_add_one b).mul (Odd.pow (by decide))
  calc 4 * 2 ^ a
      _ < 2 ^ a * 8 := by have := Nat.two_pow_pos a; omega
      _ = 2 ^ (a + 3) := (Nat.pow_add 2 a 3).symm
      _ ≤ 2 ^ c := Nat.le_of_dvd (Nat.two_pow_pos c) (hcoprime.dvd_of_dvd_mul_left hdvd)
      _ ≤ 5 ^ k * 2 ^ c := Nat.le_mul_of_pos_left _ (Nat.pow_pos (by decide))

/-- **A tie is behind the point.** On a grid of whole numbers, the fraction would need a bit below
its last one to be midway. -/
theorem Midway.neg {b : Nat} (h : Midway x b t) : t < 0 := by
  by_contra hneg
  have hscale : (-t).toNat = 0 := by omega
  have hquarter : x.quarter t = 2 ^ (x.exponent - 2).toNat := by
    rw [quarter, hscale]
    exact Nat.mul_one _
  have hpoint : x.point t = 5 ^ t.toNat * 2 ^ (t.toNat + (-(x.exponent - 2)).toNat) := by
    rw [point, Nat.pow_eq, Nat.pow_eq, show 10 = 5 * 2 from rfl, Nat.mul_pow, Nat.mul_assoc,
      ← Nat.pow_add]
  have hmidway := h.midway
  have hnarrow := h.narrow
  rw [hquarter, hpoint] at hmidway hnarrow
  exact absurd hnarrow (Nat.not_le_of_lt (lt_of_midway hmidway))

/-! ### Shortest decimals -/

/-- Two searches that succeed at the same places find their answers at the same place. -/
theorem findSome?_pair {α β : Type} {f f' : α → Option β} (h : ∀ a, (f a).isSome = (f' a).isSome)
    (as : List α) :
    (as.findSome? (fun a => (f a).map (·, a)) = none ∧
        as.findSome? (fun a => (f' a).map (·, a)) = none) ∨
      ∃ a b b', f a = some b ∧ f' a = some b' ∧
        as.findSome? (fun a => (f a).map (·, a)) = some (b, a) ∧
        as.findSome? (fun a => (f' a).map (·, a)) = some (b', a) := by
  induction as with
  | nil => exact .inl ⟨rfl, rfl⟩
  | cons a as ih =>
    have ha := h a
    rw [List.findSome?_cons, List.findSome?_cons]
    -- both fail here, or both succeed
    rcases hf : f a with _ | b <;> rcases hf' : f' a with _ | b' <;> rw [hf, hf'] at ha
    · exact ih
    · cases ha
    · cases ha
    · exact .inr ⟨a, b, b', hf, hf', rfl, rfl⟩

/-- **The grids of the search for a shortest decimal.** -/
def grids (x : Binary) : List ℤ :=
  (List.range 18).map fun i => x.magnitude - Int.ofNat i

/-- **A shortest decimal** is a neighbour on the first grid that has one, without its zeros. -/
theorem shortest_eq (tie : Tie) (hx : x.significand ≠ 0) :
    x.shortest tie =
      ((x.grids.findSome? fun t => (x.neighbour? tie t).map (·, t)).elim ⟨x.num / x.den, 0⟩
        fun (g, t) => Scientific.trim g t) := by
  rw [shortest, if_neg hx]
  dsimp only
  split <;> next h => rw [grids, h]; rfl

/-- **A shortest decimal has no zero at the end** behind the point. -/
theorem shortest_trimmed (tie : Tie) (x : Binary) :
    0 ≤ (x.shortest tie).exponent ∨ (x.shortest tie).digits % 10 ≠ 0 := by
  by_cases hx : x.significand = 0
  · rw [shortest, if_pos hx]
    exact .inl (Int.le_refl 0)
  rw [shortest_eq tie hx]
  rcases hfind : x.grids.findSome? fun t => (x.neighbour? tie t).map (·, t) with _ | ⟨g, t⟩
  · exact .inl (Int.le_refl 0)
  · -- what is found is a neighbour on some grid, and no neighbour is zero
    obtain ⟨t', -, ht'⟩ := List.exists_of_findSome?_eq_some hfind
    obtain ⟨g', hg', heq⟩ := Option.map_eq_some_iff.mp ht'
    cases heq
    exact .inr (Scientific.digits_trim_mod_ne (neighbour?_ne_zero hx hg') t)

/-- **The two rules lead to the same decimal, or to two that are a unit apart.** -/
theorem shortest_even (x : Binary) :
    x.shortest .even = x.shortest .up ∨
      ∃ b t, Midway x b t ∧ x.shortest .up = ⟨b + 1, t⟩ ∧
        (x.shortest .even).value = b * 10 ^ t := by
  by_cases hx : x.significand = 0
  · left
    rw [shortest, shortest, if_pos hx, if_pos hx]
  have hsome (t : ℤ) : (x.neighbour? .even t).isSome = (x.neighbour? .up t).isSome := by
    rcases x.neighbour?_even t with heq | ⟨b, h⟩
    · rw [heq]
    · rw [h.even, h.up]
      rfl
  -- a grid has neighbours by the one rule iff it has them by the other
  rw [shortest_eq .even hx, shortest_eq .up hx]
  rcases findSome?_pair hsome x.grids with ⟨heven, hup⟩ | ⟨t, g, g', hg, hg', heven, hup⟩
  · rw [heven, hup]
    exact .inl rfl
  · rw [heven, hup]
    rcases x.neighbour?_even t with heq | ⟨b, h⟩
    · left
      rw [hg, hg'] at heq
      rw [Option.some.inj heq]
    · right
      obtain rfl := Option.some.inj (hg.symm.trans h.even)
      obtain rfl := Option.some.inj (hg'.symm.trans h.up)
      -- the greater neighbour is odd, so there are no zeros to trim
      have hodd : (g + 1) % 10 ≠ 0 := by
        have := h.isEven
        omega
      exact ⟨g, t, h, Scientific.trim_of_mod_ne hodd t, Scientific.value_trim g t⟩

/-- Decimals of the two rules that are not the same have different values. -/
theorem value_shortest_even_eq_iff (x : Binary) :
    (x.shortest .even).value = (x.shortest .up).value ↔ x.shortest .even = x.shortest .up := by
  refine ⟨fun hvalue => ?_, congrArg Scientific.value⟩
  rcases x.shortest_even with heq | ⟨b, t, -, hup, heven⟩
  · exact heq
  · rw [hup, heven, Scientific.value] at hvalue
    -- a number would be its own successor
    have hb := mul_right_cancel₀ (by positivity) hvalue
    norm_num at hb

end Binary

end WhereClause
