import WhereClause.Binary
import WhereClause.Decimal

/-!
# Binary approximation of a decimal

The approximation rounds the whole part and the fractional part apart, adds them, and then rounds
the sum back to the decimal's own scale. Each step is exact or rounded once as `Binary` says, but
the steps together need not give the nearest fraction.
-/

namespace WhereClause.Decimal

/-- **The binary fraction that stands for the magnitude of a decimal.** -/
def toBinary (d : Decimal) : Binary :=
  let n := d.coefficient.natAbs
  if d.scale = 0 then Binary.ofNat n
  else
    let p := Nat.pow 10 d.scale
    let whole := Binary.ofNat (n / p)
    let fraction := (Binary.ofNat (n % p)).div (Binary.ofNat p)
    if fraction.significand = 0 then whole
    else
      -- The sum may be off in its last bit; going back to the decimal's own grid mends most of it.
      let unit := (Binary.ofNat 10).pow d.scale
      (((whole.add fraction).mul unit).round).div unit

end WhereClause.Decimal
