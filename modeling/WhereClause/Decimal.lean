import WhereClause.Text.Digits

/-!
# Decimals

A decimal is a whole coefficient divided by a power of ten. The coefficient has at most 96 bits
and the power is at most the 28th, and both bounds are part of the type. The power, called the
scale, is kept as it was written: `1.5` and `1.50` are different decimals with equal values.

* `Decimal.ofDigits?` — the decimal written with given digits before and after the point;
* `Decimal.ofString?` — the decimal of a text, digits without room being rounded away;
* `Decimal.text` — the decimal with exactly as many fractional digits as its scale says;
* `Decimal.equals` — equality of values;
* `Decimal.normalized` — the decimal of equal value with the least scale.
-/

namespace WhereClause

/-- Coefficients lie below this bound, which is two to the power 96. -/
def Decimal.coefficientBound : Nat := 79228162514264337593543950336

/-- The greatest scale. -/
def Decimal.maxScale : Nat := 28

/-- **A decimal**: `coefficient` divided by ten to the power `scale`. -/
structure Decimal where
  coefficient : Int
  scale : Nat
  coefficient_lt : coefficient.natAbs < Decimal.coefficientBound
  scale_le : scale ≤ Decimal.maxScale
deriving DecidableEq

namespace Decimal

/-- The decimal with a given coefficient and scale, where both are in range. -/
def make? (coefficient : Int) (scale : Nat) : Option Decimal :=
  if h : coefficient.natAbs < coefficientBound ∧ scale ≤ maxScale then
    some ⟨coefficient, scale, h.1, h.2⟩
  else
    none

/-- The decimal with the digits `whole` before the point and `fraction` after it. No digit is
ever rounded away: where they do not all fit there is no such decimal. -/
def ofDigits? (whole fraction : List Char) : Option Decimal :=
  make? (Int.ofNat (Digits.value (whole ++ fraction))) fraction.length

/-- Rounds a coefficient by the first digit `d` that found no room: from five on it goes up, and
where that takes it out of range its own last digit is given up too. -/
def roundBy? (n scale d : Nat) : Option (Nat × Nat) :=
  if d < 5 then some (n, scale)
  else if n + 1 < coefficientBound then some (n + 1, scale)
  else if scale = 0 then none
  else some ((n + 5) / 10, scale - 1)

/-- Appends digits after the point to the coefficient `n` as long as there is room for them. -/
def absorb? (n scale : Nat) : List Char → Option (Nat × Nat)
  | [] => some (n, scale)
  | c :: cs =>
    let d := c.toNat - '0'.toNat
    if 10 * n + d < coefficientBound && scale < maxScale then absorb? (10 * n + d) (scale + 1) cs
    else roundBy? n scale d

/-- **Reads a decimal**: an optional minus sign, digits, and optionally a point with further
digits. Digits after the point that find no room are rounded away. -/
def ofString? (s : String) : Option Decimal :=
  let (negative, cs) := match s.toList with
    | '-' :: cs => (true, cs)
    | cs => (false, cs)
  let whole := cs.takeWhile Char.isDigit
  let fraction? := match cs.dropWhile Char.isDigit with
    | [] => some []
    | '.' :: fraction => if fraction.all Char.isDigit then some fraction else none
    | _ => none
  if whole.isEmpty then none
  else
    match fraction?.bind (absorb? (Digits.value whole) 0) with
    | some (n, scale) => make? (if negative then -Int.ofNat n else Int.ofNat n) scale
    | none => none

/-- The text of a decimal shows its scale: `1.50`, `0.00`, `-3`. -/
def text (d : Decimal) : String :=
  let sign := if d.coefficient < 0 then ['-'] else []
  String.ofList (sign ++ Digits.pointed d.coefficient.natAbs d.scale)

/-- **Equality of values**: the fractions agree after cross multiplication. -/
def equals (a b : Decimal) : Bool :=
  a.coefficient * Int.ofNat (Nat.pow 10 b.scale) == b.coefficient * Int.ofNat (Nat.pow 10 a.scale)

/-- Takes zeros off the end of a coefficient as long as the scale allows it. -/
def trim (n : Int) : Nat → Int × Nat
  | 0 => (n, 0)
  | scale + 1 => if n % 10 = 0 then trim (n / 10) scale else (n, scale + 1)

theorem natAbs_trim_le (n : Int) (scale : Nat) : (trim n scale).1.natAbs ≤ n.natAbs := by
  induction scale generalizing n with
  | zero => simp [trim]
  | succ scale ih =>
    simp only [trim]
    split
    · exact Nat.le_trans (ih _) (by omega)
    · exact Nat.le_refl _

theorem trim_scale_le (n : Int) (scale : Nat) : (trim n scale).2 ≤ scale := by
  induction scale generalizing n with
  | zero => simp [trim]
  | succ scale ih =>
    simp only [trim]
    split
    · exact Nat.le_succ_of_le (ih _)
    · exact Nat.le_refl _

/-- **The decimal of equal value with the least scale.** -/
def normalized (d : Decimal) : Decimal where
  coefficient := (trim d.coefficient d.scale).1
  scale := (trim d.coefficient d.scale).2
  coefficient_lt := Nat.lt_of_le_of_lt (natAbs_trim_le _ _) d.coefficient_lt
  scale_le := Nat.le_trans (trim_scale_le _ _) d.scale_le

end Decimal

end WhereClause
