import Mathlib
import WhereClause.Proofs.ShortestTies

/-!
# The digits of decimals in JSON

A decimal becomes a number in JSON if the text of its binary fraction is its own text with the least
scale, and a string with its own text otherwise. Neither of the two texts has zeros to spare, so to
compare the texts is to compare the values: the decimal becomes a number iff the shortest decimal of
the fraction has its magnitude.

JSON writes the fraction by another rule for ties, though. What it writes is the decimal iff the two
rules agree on the fraction. Where they do not, the last digit of the decimal is odd and stands
behind the point, and JSON has a number that is one unit of this digit nearer to zero.

* `Decimal.normalized_eq` — the least scale is determined by the value;
* `Binary.text_eq_iff` — texts are compared by their values;
* `Decimal.CutAtTie` — what is written at a tie;
* `decimalJson_exact_or_cut` — what a decimal becomes.
-/

namespace WhereClause

/-! ### Decimals with the least scale -/

/-- A number and a scale are determined by their value if no zero stands at the end behind the
point. -/
theorem eq_of_div_pow_eq {m n j k : Nat} (hm : j = 0 ∨ m % 10 ≠ 0) (hn : k = 0 ∨ n % 10 ≠ 0)
    (h : (m : ℚ) / 10 ^ j = n / 10 ^ k) : m = n ∧ j = k := by
  wlog hle : j ≤ k generalizing m n j k
  · obtain ⟨hmn, hjk⟩ := this hn hm h.symm (Nat.le_of_not_le hle)
    exact ⟨hmn.symm, hjk.symm⟩
  obtain ⟨i, rfl⟩ := Nat.exists_eq_add_of_le hle
  have hmul : m * 10 ^ i = n := by
    have hcast : (m : ℚ) * 10 ^ i = n := by
      rw [div_eq_div_iff (by positivity) (by positivity), pow_add] at h
      refine mul_right_cancel₀ (b := (10 : ℚ) ^ j) (by positivity) ?_
      linear_combination h
    exact_mod_cast hcast
  -- a greater scale would leave a zero at the end of the greater number
  cases i with
  | zero => exact ⟨by rw [← hmul, Nat.pow_zero, Nat.mul_one], rfl⟩
  | succ i =>
    rcases hn with hn | hn
    · omega
    · refine absurd ?_ hn
      rw [← hmul, Nat.pow_succ, ← Nat.mul_assoc]
      exact Nat.mul_mod_left _ 10

namespace Decimal

/-- Taking zeros off the end behind the point keeps the value. -/
theorem value_trim (n : ℤ) (scale : Nat) :
    ((trim n scale).1 : ℚ) / 10 ^ (trim n scale).2 = n / 10 ^ scale := by
  induction scale generalizing n with
  | zero => rfl
  | succ scale ih =>
    rw [trim]
    split
    · next h =>
      have hn : ((n / 10 : ℤ) : ℚ) * 10 = n := by
        exact_mod_cast Int.ediv_mul_cancel (Int.dvd_of_emod_eq_zero h)
      rw [ih, ← hn, pow_succ]
      field_simp
    · rfl

/-- The least scale keeps the value. -/
theorem value_normalized (d : Decimal) : d.normalized.value = d.value :=
  value_trim d.coefficient d.scale

/-- No zero is left at the end behind the point. -/
theorem trim_trimmed (n : ℤ) (scale : Nat) :
    (trim n scale).2 = 0 ∨ (trim n scale).1 % 10 ≠ 0 := by
  induction scale generalizing n with
  | zero => exact .inl rfl
  | succ scale ih =>
    rw [trim]
    split
    · exact ih _
    · next h => exact .inr h

/-- The magnitude of a decimal. -/
theorem abs_value (d : Decimal) : |d.value| = (d.coefficient.natAbs : ℚ) / 10 ^ d.scale := by
  rw [value, abs_div, abs_of_pos (by positivity : (0 : ℚ) < 10 ^ d.scale), Nat.cast_natAbs,
    Int.cast_abs]

/-- A decimal is negative iff its coefficient is. -/
theorem value_neg_iff (d : Decimal) : d.value < 0 ↔ d.coefficient < 0 := by
  rw [value, div_lt_iff₀ (by positivity), zero_mul, Int.cast_lt_zero]

/-- A number with the sign of a decimal is the decimal iff it is its magnitude. -/
theorem signed_eq_value_iff {d : Decimal} {m : ℚ} :
    (if d.coefficient < 0 then -m else m) = d.value ↔ m = |d.value| := by
  split
  · next h => rw [abs_of_neg (d.value_neg_iff.mpr h), neg_eq_iff_eq_neg]
  · next h => rw [abs_of_nonneg (not_lt.mp (mt d.value_neg_iff.mp h))]

/-- The distance of a number with the sign of a decimal from the decimal. -/
theorem abs_value_sub_signed (d : Decimal) (m : ℚ) :
    |d.value - if d.coefficient < 0 then -m else m| = |(|d.value| - m)| := by
  split
  · next h =>
    rw [abs_of_neg (d.value_neg_iff.mpr h), ← abs_neg]
    ring_nf
  · next h => rw [abs_of_nonneg (not_lt.mp (mt d.value_neg_iff.mp h))]

/-- **The text of the least scale**, in terms of the magnitude. -/
theorem text_normalized (d : Decimal) :
    d.normalized.text.toList = (if d.coefficient < 0 then ['-'] else []) ++
      Digits.pointed d.normalized.coefficient.natAbs d.normalized.scale := by
  have hsign : d.normalized.coefficient < 0 ↔ d.coefficient < 0 := by
    rw [← value_neg_iff, value_normalized, value_neg_iff]
  rw [text, String.toList_ofList]
  simp only [hsign]

/-- The digits and the scale of a decimal with the least scale, from its magnitude. -/
theorem normalized_eq {n k : Nat} {d : Decimal} (hn : k = 0 ∨ n % 10 ≠ 0)
    (h : (n : ℚ) / 10 ^ k = |d.value|) :
    n = d.normalized.coefficient.natAbs ∧ k = d.normalized.scale := by
  rw [← value_normalized, abs_value] at h
  refine eq_of_div_pow_eq hn ?_ h
  rcases trim_trimmed d.coefficient d.scale with hscale | hmod
  · exact .inl hscale
  · right
    change (trim d.coefficient d.scale).1.natAbs % 10 ≠ 0
    omega

end Decimal

/-! ### The two texts of a decimal -/

namespace Binary

/-- The text of a shortest decimal is that of a number with a scale. -/
theorem exists_positional (tie : Tie) (x : Binary) :
    ∃ n k, (x.shortest tie).positional = Digits.pointed n k ∧ (k = 0 ∨ n % 10 ≠ 0) ∧
      (n : ℚ) / 10 ^ k = (x.shortest tie).value := by
  refine ⟨_, _, rfl, ?_, ?_⟩
  · -- the exponent is not negative, so that there is no point, or no zero is at the end
    rcases x.shortest_trimmed tie with hexponent | hmod
    · left
      omega
    · by_cases hexponent : 0 ≤ (x.shortest tie).exponent
      · left
        omega
      · right
        have hzero : (x.shortest tie).exponent.toNat = 0 := by omega
        rw [hzero, Nat.pow_eq, Nat.pow_zero, Nat.mul_one]
        exact hmod
  · -- both sides are what is read of this text
    have hread := Json.readMagnitude?_positional (x.shortest tie)
    rw [Scientific.positional, Json.readMagnitude?_pointed] at hread
    exact Option.some.inj hread

/-- **Texts are compared by their values.** The text of a fraction and the text of a decimal with
the least scale are the same text iff they are the same number. -/
theorem text_eq_iff (x : Binary) (d : Decimal) :
    x.text (decide (d.coefficient < 0)) = d.normalized.text ↔
      (x.shortest .up).value = |d.value| := by
  constructor
  · -- each text is read as its number, and the sign is the same
    intro h
    have hread := x.readNumber?_text (decide (d.coefficient < 0))
    rw [h, Decimal.readNumber?_text, Decimal.value_normalized] at hread
    simp only [decide_eq_true_eq] at hread
    exact Decimal.signed_eq_value_iff.mp (Option.some.inj hread).symm
  · -- there is only one way to write the number without a zero to spare
    intro h
    obtain ⟨n, k, hpositional, hn, hvalue⟩ := x.exists_positional .up
    obtain ⟨rfl, rfl⟩ := Decimal.normalized_eq hn (hvalue.trans h)
    rw [← String.toList_inj, text, String.toList_ofList, Decimal.text_normalized, hpositional]
    simp only [decide_eq_true_eq]

end Binary

namespace Json

/-- A character of a printed number stands for itself in a string. -/
theorem quoteChar_of_numeralChar {c : Char} (h : numeralChar c) : quoteChar c = [c] := by
  have hprintable : ¬ c.toNat < 0x20 := by
    simp only [numeralChar, Bool.or_eq_true, beq_iff_eq] at h
    rcases h with (hdigit | rfl) | rfl
    · have hcode := toNat_of_isDigit hdigit
      omega
    · decide
    · decide
  unfold quoteChar
  split
  case h_8 => exact if_neg hprintable
  -- none of the characters with an escape of their own stands in a number
  all_goals exact absurd h (by decide)

/-- Printed numbers need no escapes. -/
theorem quote_of_numeralChar {s : String} (h : ∀ c ∈ s.toList, numeralChar c) :
    quote s = "\"" ++ s ++ "\"" := by
  have hchars : s.toList.flatMap quoteChar = s.toList := by
    calc s.toList.flatMap quoteChar
        _ = s.toList.flatMap fun c => [c] :=
          List.flatMap_congr fun c hc => quoteChar_of_numeralChar (h c hc)
        _ = s.toList := List.flatMap_singleton' _
  rw [← String.toList_inj, quote, hchars, String.toList_ofList, String.toList_append,
    String.toList_append]
  rfl

end Json

/-! ### Exact numbers, strings, and ties -/

/-- **What is written at a tie** in place of a decimal `d` with an odd last digit behind the point:
the binary fraction is exactly half a unit of this digit below the magnitude of `d`, and the number
`v` is a whole unit below it. -/
structure Decimal.CutAtTie (d : Decimal) (v : ℚ) : Prop where
  odd : d.normalized.coefficient % 2 = 1
  scale_pos : 0 < d.normalized.scale
  midway : d.toBinary.value = |d.value| - 1 / 10 ^ d.normalized.scale / 2
  apart : |d.value - v| = 1 / 10 ^ d.normalized.scale
  nearer : |v| < |d.value|

/-- The grid of a tie is that of the last digit. -/
theorem Binary.Midway.normalized_eq {x : Binary} {b : Nat} {t : ℤ} {d : Decimal} (h : Midway x b t)
    (hvalue : (⟨b + 1, t⟩ : Scientific).value = |d.value|) :
    d.normalized.coefficient.natAbs = b + 1 ∧ 0 < d.normalized.scale ∧
      (10 : ℚ) ^ t = 1 / 10 ^ d.normalized.scale := by
  have hneg := h.neg
  -- behind an even number comes an odd one, which no zero ends
  have hodd := h.isEven
  have hpower : (10 : ℚ) ^ t = 1 / 10 ^ (-t).toNat := by
    rw [zpow_eq_div (by norm_num), Int.toNat_of_nonpos hneg.le, pow_zero]
  have hscaled : ((b + 1 : Nat) : ℚ) / 10 ^ (-t).toNat = |d.value| := by
    rw [← hvalue, Scientific.value, hpower, mul_one_div]
  obtain ⟨hcoefficient, hscale⟩ := Decimal.normalized_eq (.inr (by omega)) hscaled
  rw [← hcoefficient, ← hscale]
  exact ⟨rfl, by omega, hpower⟩

/-- **A tie with a decimal above it.** -/
theorem Decimal.cutAtTie_of_midway {b : Nat} {t : ℤ} {d : Decimal} (h : d.toBinary.Midway b t)
    (hvalue : (⟨b + 1, t⟩ : Scientific).value = |d.value|) :
    d.CutAtTie (if d.coefficient < 0 then -(b * 10 ^ t) else b * 10 ^ t) := by
  obtain ⟨hcoefficient, hscale, hunit⟩ := h.normalized_eq hvalue
  have hmagnitude : |d.value| = b * 10 ^ t + 10 ^ t := by
    rw [← hvalue, Scientific.value]
    push_cast
    ring
  have hpos : (0 : ℚ) < 10 ^ t := by positivity
  constructor
  · have heven := h.isEven
    omega
  · exact hscale
  · -- half a unit above the even number is half a unit below the odd one
    rw [h.value_eq, hmagnitude, ← hunit]
    ring
  · rw [d.abs_value_sub_signed, hmagnitude, add_sub_cancel_left, abs_of_pos hpos, hunit]
  · -- the sign does not matter for the magnitude, and a unit is left out
    have hnonneg : (0 : ℚ) ≤ b * 10 ^ t := by positivity
    have habs : |if d.coefficient < 0 then -(b * 10 ^ t : ℚ) else b * 10 ^ t| = b * 10 ^ t := by
      split
      · rw [abs_neg, abs_of_nonneg hnonneg]
      · rw [abs_of_nonneg hnonneg]
    rw [habs, hmagnitude]
    exact lt_add_of_pos_right _ hpos

/-- **The number that JSON has for a decimal**, where there is one. -/
theorem Decimal.readNumber?_compact {d : Decimal}
    (h : (d.toBinary.shortest .up).value = |d.value|) :
    Json.readNumber? (Value.decimal d).toJson.compact.toList =
      some (if d.coefficient < 0 then -(d.toBinary.shortest .even).value
        else (d.toBinary.shortest .even).value) := by
  have hjson : (Value.decimal d).toJson = .float (decide (d.coefficient < 0)) d.toBinary :=
    if_pos ((d.toBinary.text_eq_iff d).mpr h)
  have hread := Json.readNumber?_floatText (decide (d.coefficient < 0)) d.toBinary
  simp only [decide_eq_true_eq] at hread
  rw [hjson]
  exact hread

/-- **What a decimal becomes in JSON.** It is a number or a string, by the shortest decimal of its
binary fraction. The string is the text of the decimal. The number is read as the decimal itself iff
both rules for ties lead to the same digits, and is cut at a tie otherwise. -/
theorem decimalJson_exact_or_cut (d : Decimal) :
    (d.toBinary.shortest .up).value = |d.value| ∧
        (∃ v, Json.readNumber? (Value.decimal d).toJson.compact.toList = some v ∧
          (v = d.value ↔ d.toBinary.shortest .even = d.toBinary.shortest .up) ∧
          (v = d.value ∨ d.CutAtTie v)) ∨
      (d.toBinary.shortest .up).value ≠ |d.value| ∧
        (Value.decimal d).toJson.compact = "\"" ++ d.text ++ "\"" := by
  by_cases h : (d.toBinary.shortest .up).value = |d.value|
  · refine .inl ⟨h, _, Decimal.readNumber?_compact h, ?_, ?_⟩
    · -- the decimal is what one of the rules gives, so it is what the other gives iff they agree
      rw [Decimal.signed_eq_value_iff, ← h]
      exact d.toBinary.value_shortest_even_eq_iff
    · -- the rules agree, or the fraction is at a tie with the decimal above it
      rcases d.toBinary.shortest_even with heq | ⟨b, t, hmidway, hup, heven⟩
      · left
        rw [Decimal.signed_eq_value_iff, heq, h]
      · right
        rw [heven]
        exact Decimal.cutAtTie_of_midway hmidway (hup ▸ h)
  · refine .inr ⟨h, ?_⟩
    have hjson : (Value.decimal d).toJson = .string d.text :=
      if_neg fun heq => h ((d.toBinary.text_eq_iff d).mp heq)
    rw [hjson]
    exact Json.quote_of_numeralChar fun c => d.numeralChar_of_mem_text

/-- A decimal at a tie: its binary fraction is `1000000000000000.25`. -/
def oddTie : Decimal :=
  ⟨10000000000000003, 1, by decide, by decide⟩

/-- **A digit is lost.** JSON has neither the number nor a string with its text. -/
theorem decimalJson_oddTie :
    oddTie.text = "1000000000000000.3" ∧
      (Value.decimal oddTie).toJson.compact = "1000000000000000.2" ∧
      Json.readNumber? (Value.decimal oddTie).toJson.compact.toList ≠ some oddTie.value ∧
      (Value.decimal oddTie).toJson.compact ≠ "\"" ++ oddTie.text ++ "\"" := by
  have hcompact : (Value.decimal oddTie).toJson.compact = "1000000000000000.2" := by decide +kernel
  rw [hcompact]
  exact ⟨by decide +kernel, rfl, by decide +kernel, by decide +kernel⟩

end WhereClause
