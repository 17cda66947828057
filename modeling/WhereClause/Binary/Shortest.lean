import WhereClause.Binary
import WhereClause.Text.Digits

/-!
# The shortest decimal of a binary fraction

Of all decimals that round to a given binary fraction, the shortest is the one with the fewest
digits, and among those of equal length the one nearest to the fraction. Two may be equally near;
which of them is taken is left to a `Tie` rule, because writers of numbers differ there.

The search goes from coarse to fine grids of powers of ten. On each grid only the two neighbours
of the fraction have to be tried: if any grid point lies in the interval of numbers that round to
the fraction, one of the neighbours does. All comparisons are between whole numbers.
-/

namespace WhereClause

/-- **A decimal in scientific form**: `digits` times ten to the power `exponent`. -/
structure Scientific where
  digits : Nat
  exponent : Int
deriving DecidableEq

/-- Which of two equally near neighbours is taken. -/
inductive Tie where
  /-- The greater one. -/
  | up
  /-- The one whose last digit is even. -/
  | even

/-- Moves the zeros at the end of the digits into the exponent. -/
def Scientific.trim (digits : Nat) (exponent : Int) : Scientific :=
  if h : digits ≠ 0 ∧ digits % 10 = 0 then trim (digits / 10) (exponent + 1)
  else ⟨digits, exponent⟩
termination_by digits
decreasing_by omega

namespace Binary

/-- The exponent of the greatest power of ten that is at most `x`, for positive `x`. -/
def magnitude (x : Binary) : Int :=
  if x.den ≤ x.num then Int.ofNat (Digits.ofNat (x.num / x.den)).length - 1
  else -Int.ofNat (Digits.ofNat ((x.den - 1) / x.num)).length

/-- The neighbour of `x` on the grid of multiples of ten to the power `t` that rounds to `x`, the
nearer one where both do. Bounds are counted in quarters of the last bit of `x`: half a bit
upwards, and half a bit downwards unless `x` is a power of two, below which the fractions lie
twice as close. The bounds themselves round to `x` when its significand is even. -/
def neighbour? (tie : Tie) (x : Binary) (t : Int) : Option Nat :=
  let quarter := x.exponent - 2
  let point := Nat.pow 10 t.toNat * Nat.pow 2 (-quarter).toNat
  let unit := Nat.pow 2 quarter.toNat * Nat.pow 10 (-t).toNat
  let value := 4 * x.significand * unit
  let low := (4 * x.significand - (if x.significand = leastSignificand then 1 else 2)) * unit
  let high := (4 * x.significand + 2) * unit
  let inside := fun g : Nat =>
    if x.significand % 2 = 0 then low ≤ g * point && g * point ≤ high
    else low < g * point && g * point < high
  let below := value / point
  let above := below + 1
  match inside below, inside above with
  | false, false => none
  | true, false => some below
  | false, true => some above
  | true, true =>
    let down := value - below * point
    let up := above * point - value
    if down < up then some below
    else if up < down then some above
    else match tie with
      | .up => some above
      | .even => some (if below % 2 = 0 then below else above)

/-- **The shortest decimal that rounds to `x`.** Seventeen digits always suffice, so the last
resort, the whole part of `x`, is never needed. -/
def shortest (tie : Tie) (x : Binary) : Scientific :=
  if x.significand = 0 then ⟨0, 0⟩
  else
    let top := x.magnitude
    let grids := (List.range 18).map fun i => top - Int.ofNat i
    match grids.findSome? fun t => (x.neighbour? tie t).map fun g => (g, t) with
    | some (g, t) => Scientific.trim g t
    | none => ⟨x.num / x.den, 0⟩

end Binary

/-- Positional notation without an exponent and without a superfluous point. -/
def Scientific.positional (s : Scientific) : List Char :=
  Digits.pointed (s.digits * Nat.pow 10 s.exponent.toNat) (-s.exponent).toNat

end WhereClause
