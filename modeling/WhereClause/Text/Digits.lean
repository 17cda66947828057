/-!
# Decimal digits

Numbers as rows of decimal digits: the number that a row spells, the row that spells a number, and
rows with a decimal point in them.
-/

namespace WhereClause.Digits

/-- The number that a row of digits spells. Leading zeros count for nothing. -/
def value (cs : List Char) : Nat :=
  cs.foldl (fun n c => 10 * n + (c.toNat - '0'.toNat)) 0

/-- The digits of a number, without leading zeros. -/
def ofNat (n : Nat) : List Char :=
  Nat.toDigits 10 n

/-- The number `n` divided by ten to the power `scale`, written with exactly `scale` digits after
the point, at least one before it, and no point where there is no scale. -/
def pointed (n scale : Nat) : List Char :=
  if scale = 0 then ofNat n
  else
    let ds := List.leftpad (scale + 1) '0' (ofNat n)
    ds.take (ds.length - scale) ++ '.' :: ds.drop (ds.length - scale)

end WhereClause.Digits
