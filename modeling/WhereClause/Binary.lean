/-!
# Binary fractions of 53 bits

The values of double-precision arithmetic between its extremes: a significand of at most 53 bits
times a power of two. Every operation forms the exact result as a ratio of whole numbers and
rounds it once, to the nearest fraction and, halfway between two, to the one with an even
significand. The exponent is unbounded, so there is neither overflow nor loss of bits near zero;
the numbers of this library stay far from both. Signs are kept by those who use these magnitudes.
-/

namespace WhereClause

/-- **A binary fraction**: `significand` times two to the power `exponent`. Except for zero the
significand has exactly 53 bits. -/
structure Binary where
  significand : Nat
  exponent : Int
deriving DecidableEq

namespace Binary

/-- The least significand of 53 bits. -/
def leastSignificand : Nat := Nat.pow 2 52

/-- The quotient of two numbers as a whole number, the nearest one, and the even one of two that
are equally near. -/
def divToEven (n d : Nat) : Nat :=
  let q := n / d
  let r := n % d
  if 2 * r < d || (2 * r == d && q % 2 == 0) then q else q + 1

/-- The ratio `n / d` divided by two to the power `k`, as a ratio again. -/
def scaleDown (n d : Nat) (k : Int) : Nat × Nat :=
  (n * Nat.pow 2 (-k).toNat, d * Nat.pow 2 k.toNat)

/-- **Rounding**: the binary fraction nearest to `n / d`, for positive `d`. -/
def ofRatio (n d : Nat) : Binary :=
  if n = 0 then ⟨0, 0⟩
  else
    -- `n / d` has 52 or 53 bits before the point when scaled down by `guess`.
    let guess : Int := Int.ofNat n.log2 - Int.ofNat d.log2 - 52
    let (n₀, d₀) := scaleDown n d guess
    let k := if n₀ / d₀ < leastSignificand then guess - 1 else guess
    let (n₁, d₁) := scaleDown n d k
    let q := divToEven n₁ d₁
    if q = 2 * leastSignificand then ⟨leastSignificand, k + 1⟩ else ⟨q, k⟩

/-- The whole number `n`, rounded. -/
def ofNat (n : Nat) : Binary :=
  ofRatio n 1

/-- The numerator of the fraction's value over `den`. -/
def num (x : Binary) : Nat :=
  x.significand * Nat.pow 2 x.exponent.toNat

/-- The power of two under the fraction's value. -/
def den (x : Binary) : Nat :=
  Nat.pow 2 (-x.exponent).toNat

def add (x y : Binary) : Binary :=
  ofRatio (x.num * y.den + y.num * x.den) (x.den * y.den)

def mul (x y : Binary) : Binary :=
  ofRatio (x.num * y.num) (x.den * y.den)

/-- The rounded quotient, for a divisor other than zero. -/
def div (x y : Binary) : Binary :=
  ofRatio (x.num * y.den) (x.den * y.num)

/-- The nearest whole number, the greater one of two that are equally near. -/
def round (x : Binary) : Binary :=
  ofNat ((2 * x.num + x.den) / (2 * x.den))

/-- Repeated squaring: `acc` times the power of `x`, a product being rounded at every step. -/
def powFrom (acc x : Binary) (n : Nat) : Binary :=
  let acc := if n % 2 = 1 then acc.mul x else acc
  if h : n / 2 = 0 then acc else powFrom acc (x.mul x) (n / 2)
termination_by n
decreasing_by omega

/-- The power of a binary fraction by repeated squaring. -/
def pow (x : Binary) (n : Nat) : Binary :=
  powFrom (ofNat 1) x n

end Binary

end WhereClause
