import Mathlib
import WhereClause.Value.Json
import WhereClause.Proofs.Spelling

/-!
# Reading number texts exactly

A number text of JSON stands for a rational number: digits, a point with further digits, and a power
of ten, where the last two may be missing. `Json.readNumber?` gives that number, and no number for
any other text. It rounds nothing, so it can tell whether two texts mean the same.

There are three printers of numbers: positional notation with a scale, for decimals; positional
notation of the shortest decimal of a binary fraction; and the notation of JSON, which has an
exponent where the number is very large or very small. What each of them writes is read as the
number that was given to it.

* `Json.readNumber?` — the number that a text stands for;
* `Decimal.value`, `Scientific.value`, `Binary.value` — numbers as rational numbers;
* `Json.readMagnitude?_pointed`, `Json.readMagnitude?_numberChars` — the notations;
* `Decimal.readNumber?_text`, `Binary.readNumber?_text`, `Json.readNumber?_floatText` — what is
  read of a printed number.
-/

namespace WhereClause

/-! ### Numbers as rational numbers -/

/-- **The value of a decimal.** -/
def Decimal.value (d : Decimal) : ℚ :=
  d.coefficient / 10 ^ d.scale

/-- **The value of a decimal in scientific form.** -/
def Scientific.value (s : Scientific) : ℚ :=
  s.digits * 10 ^ s.exponent

/-- **The value of a binary fraction.** -/
def Binary.value (x : Binary) : ℚ :=
  x.significand * 2 ^ x.exponent

/-- A power as a fraction of two powers whose exponents are natural numbers, one of them zero. -/
theorem zpow_eq_div {b : ℚ} (hb : b ≠ 0) (k : ℤ) : b ^ k = b ^ k.toNat / b ^ (-k).toNat := by
  have hk : k = k.toNat - (-k).toNat := by omega
  calc b ^ k
      _ = b ^ ((k.toNat : ℤ) - (-k).toNat) := by rw [← hk]
      _ = b ^ k.toNat / b ^ (-k).toNat := by rw [zpow_sub₀ hb, zpow_natCast, zpow_natCast]

/-! ### Number texts -/

/-- The whole part of a number: one digit or more, with no zero in front of other digits. -/
def isWhole (ds : List Char) : Bool :=
  isNumeral ds && (ds.head? != some '0' || ds == ['0'])

namespace Json

/-- **The power of ten at the end of a number text.** It is zero if nothing is written. -/
def readExponent? : List Char → Option ℤ
  | [] => some 0
  | mark :: cs =>
    if mark = 'e' ∨ mark = 'E' then
      match cs with
      | '-' :: ds => if isNumeral ds then some (-Digits.value ds) else none
      | '+' :: ds => if isNumeral ds then some (Digits.value ds) else none
      | ds => if isNumeral ds then some (Digits.value ds) else none
    else none

/-- **The number that a text without a sign stands for.** -/
def readMagnitude? (cs : List Char) : Option ℚ :=
  let whole := cs.takeWhile Char.isDigit
  if isWhole whole then
    match cs.dropWhile Char.isDigit with
    | '.' :: cs =>
      let fraction := cs.takeWhile Char.isDigit
      if isNumeral fraction then
        (readExponent? (cs.dropWhile Char.isDigit)).map fun e : ℤ =>
          (⟨Digits.value (whole ++ fraction), e - fraction.length⟩ : Scientific).value
      else none
    | cs => (readExponent? cs).map fun e => (⟨Digits.value whole, e⟩ : Scientific).value
  else none

/-- **The number that a text stands for**, exactly. -/
def readNumber? : List Char → Option ℚ
  | '-' :: cs => (readMagnitude? cs).map (-·)
  | cs => readMagnitude? cs

end Json

/-! ### Whole parts -/

section Whole

variable {n : Nat} {ds : List Char}

theorem isNumeral_of_isWhole (h : isWhole ds) : isNumeral ds :=
  (Bool.and_eq_true_iff.mp h).1

/-- Only zero is written with a zero in front. -/
theorem head?_ofNat_ne (h : n ≠ 0) : (Digits.ofNat n).head? ≠ some '0' := by
  induction n using Nat.strong_induction_on with
  | _ n ih =>
    rw [Digits.ofNat, Nat.toDigits_eq_if (by decide)]
    split
    · next hlt =>
      have hpos := Nat.pos_of_ne_zero h
      interval_cases n <;> decide
    · next hle =>
      -- the first digit stays when the last one is taken off
      rw [List.head?_append_of_ne_nil _ Nat.toDigits_ne_nil]
      exact ih (n / 10) (by omega) (by omega)

/-- The first digits of a number have no zero in front. -/
theorem isWhole_take_ofNat {k : Nat} (hk : 0 < k) : isWhole ((Digits.ofNat n).take k) := by
  have hnumeral : isNumeral ((Digits.ofNat n).take k) := by
    refine isNumeral_iff.mpr ⟨?_, fun c hc => Digits.isDigit_of_mem_ofNat (List.mem_of_mem_take hc)⟩
    rw [Ne, List.take_eq_nil_iff, not_or]
    exact ⟨Nat.ne_of_gt hk, Digits.ofNat_ne_nil n⟩
  refine Bool.and_eq_true_iff.mpr ⟨hnumeral, Bool.or_eq_true_iff.mpr ?_⟩
  -- zero is a zero without anything behind it
  by_cases hn : n = 0
  · subst hn
    right
    rw [show Digits.ofNat 0 = ['0'] from rfl, List.take_of_length_le hk]
    rfl
  · left
    rw [bne_iff_ne, List.head?_take, if_neg (Nat.ne_of_gt hk)]
    exact head?_ofNat_ne hn

/-- A number is printed without zeros in front. -/
theorem isWhole_ofNat (n : Nat) : isWhole (Digits.ofNat n) := by
  have hwhole := isWhole_take_ofNat (n := n) (List.length_pos_of_ne_nil (Digits.ofNat_ne_nil n))
  rwa [List.take_length] at hwhole

/-- **A number with a scale** has no zeros in front but the one that stands for a whole part. -/
theorem exists_pointed (n : Nat) {scale : Nat} (h : scale ≠ 0) :
    ∃ whole fraction, Digits.pointed n scale = whole ++ '.' :: fraction ∧ isWhole whole ∧
      isNumeral fraction ∧ fraction.length = scale ∧ Digits.value (whole ++ fraction) = n := by
  obtain ⟨whole, fraction, heq, -, -, hfraction, hlength, hvalue⟩ := Digits.pointed_eq n h
  refine ⟨whole, fraction, heq, ?_, isNumeral_iff.mpr ⟨?_, hfraction⟩, hlength, hvalue⟩
  · -- both splits have the same number of digits behind the point
    have hwhole : (List.leftpad (scale + 1) '0' (Digits.ofNat n)).take
        ((List.leftpad (scale + 1) '0' (Digits.ofNat n)).length - scale) = whole := by
      rw [Digits.pointed, if_neg h] at heq
      refine (List.append_inj' heq ?_).1
      rw [List.length_cons, List.length_cons, List.length_drop, List.length_leftpad, hlength]
      omega
    rw [← hwhole, List.length_leftpad]
    by_cases hlong : scale < (Digits.ofNat n).length
    · -- no zero has to be put in front
      rw [List.leftpad, Nat.sub_eq_zero_of_le hlong]
      exact isWhole_take_ofNat (by omega)
    · -- all digits are behind the point
      have hsub : max (scale + 1) (Digits.ofNat n).length - scale = 1 := by omega
      obtain ⟨k, hk⟩ : ∃ k, scale + 1 - (Digits.ofNat n).length = k + 1 :=
        ⟨scale - (Digits.ofNat n).length, by omega⟩
      rw [hsub, List.leftpad, hk]
      rfl
  · rintro rfl
    exact h hlength.symm

end Whole

/-! ### What is read of a notation -/

namespace Json

section Magnitude

variable {whole fraction rest : List Char}

/-- **Digits without a point.** -/
theorem readMagnitude?_whole (hw : isWhole whole) (hrest : Clear Char.isDigit rest)
    (hpoint : rest.head? ≠ some '.') :
    readMagnitude? (whole ++ rest) =
      (readExponent? rest).map fun e => (⟨Digits.value whole, e⟩ : Scientific).value := by
  have hdigits := (Bool.and_eq_true_iff.mp (isNumeral_of_isWhole hw)).2
  rw [readMagnitude?, takeWhile_append_clear hdigits hrest, dropWhile_append_clear hdigits hrest]
  dsimp only
  rw [if_pos hw]
  split
  · exact absurd rfl hpoint
  · rfl

/-- **Digits with a point.** -/
theorem readMagnitude?_point (hw : isWhole whole) (hf : isNumeral fraction)
    (hrest : Clear Char.isDigit rest) :
    readMagnitude? (whole ++ '.' :: (fraction ++ rest)) = (readExponent? rest).map fun e =>
      (⟨Digits.value (whole ++ fraction), e - fraction.length⟩ : Scientific).value := by
  have hdigits := (Bool.and_eq_true_iff.mp (isNumeral_of_isWhole hw)).2
  have hdigits' := (Bool.and_eq_true_iff.mp hf).2
  have hpoint : Clear Char.isDigit ('.' :: (fraction ++ rest)) := clear_cons.mpr (by decide)
  rw [readMagnitude?, takeWhile_append_clear hdigits hpoint, dropWhile_append_clear hdigits hpoint]
  dsimp only
  rw [if_pos hw]
  change (if isNumeral ((fraction ++ rest).takeWhile Char.isDigit) then _ else _) = _
  rw [takeWhile_append_clear hdigits' hrest, dropWhile_append_clear hdigits' hrest, if_pos hf]

/-- **Positional notation** with a scale. -/
theorem readMagnitude?_pointed (n scale : Nat) :
    readMagnitude? (Digits.pointed n scale) = some ((n : ℚ) / 10 ^ scale) := by
  by_cases h : scale = 0
  · subst h
    have hread := readMagnitude?_whole (isWhole_ofNat n) clear_nil nofun
    rw [List.append_nil, Digits.value_ofNat] at hread
    rw [Digits.pointed, if_pos rfl, hread]
    simp [readExponent?, Scientific.value]
  · obtain ⟨whole, fraction, heq, hwhole, hfraction, hlength, hvalue⟩ := exists_pointed n h
    have hread := readMagnitude?_point hwhole hfraction clear_nil
    rw [List.append_nil, hvalue, hlength] at hread
    rw [heq, hread]
    simp [readExponent?, Scientific.value, div_eq_mul_inv]

/-- The power of ten that JSON writes. -/
theorem readExponent?_signed (e : ℤ) :
    readExponent? ('e' :: (if e < 0 then '-' else '+') :: Digits.ofNat e.natAbs) = some e := by
  by_cases h : e < 0
  · rw [if_pos h, readExponent?, if_pos (.inl rfl), if_pos (isNumeral_ofNat _), Digits.value_ofNat,
      Int.ofNat_natAbs_of_nonpos h.le, neg_neg]
  · rw [if_neg h, readExponent?, if_pos (.inl rfl), if_pos (isNumeral_ofNat _), Digits.value_ofNat,
      Int.natAbs_of_nonneg (not_lt.mp h)]

/-- A point and a zero behind a whole number. -/
theorem readMagnitude?_tenths (n : Nat) :
    readMagnitude? (Digits.ofNat n ++ ['.', '0']) = some (n : ℚ) := by
  have hread := readMagnitude?_point (isWhole_ofNat n) (by decide : isNumeral ['0']) clear_nil
  have hvalue : Digits.value (Digits.ofNat n ++ ['0']) = 10 * n := by
    rw [Digits.value_append, Digits.value_ofNat]
    rfl
  rw [hvalue] at hread
  refine hread.trans ?_
  simp [readExponent?, Scientific.value]
  ring

/-- Positional notation without a scale of its own. -/
theorem readMagnitude?_positional (s : Scientific) :
    readMagnitude? s.positional = some s.value := by
  rw [Scientific.positional, readMagnitude?_pointed, Scientific.value, zpow_eq_div (by norm_num),
    ← mul_div_assoc, Nat.pow_eq]
  push_cast
  rfl

/-- One digit, a point with the others if there are any, and the power of ten. -/
theorem readMagnitude?_exponent (s : Scientific) :
    readMagnitude? ((Digits.ofNat s.digits).take 1 ++
      (if (Digits.ofNat s.digits).length = 1 then [] else '.' :: (Digits.ofNat s.digits).drop 1) ++
      'e' :: (if s.exponent + Int.ofNat (Digits.ofNat s.digits).length - 1 < 0 then '-' else '+') ::
        Digits.ofNat (s.exponent + Int.ofNat (Digits.ofNat s.digits).length - 1).natAbs) =
      some s.value := by
  have hvalue := Digits.value_ofNat s.digits
  have hwhole := isWhole_take_ofNat (n := s.digits) Nat.one_pos
  have hnumeral := isNumeral_iff.mp (isNumeral_ofNat s.digits)
  -- from here on it matters only that these are digits without a zero in front
  generalize Digits.ofNat s.digits = ds at *
  have hpos := List.length_pos_of_ne_nil hnumeral.1
  have hclear (cs : List Char) : Clear Char.isDigit ('e' :: cs) := clear_cons.mpr (by decide)
  by_cases hone : ds.length = 1
  · -- a single digit has no point behind it, and the exponent is as it was
    have hpoint (cs : List Char) : ('e' :: cs).head? ≠ some '.' := by simp
    rw [if_pos hone, List.append_nil, readMagnitude?_whole hwhole (hclear _) (hpoint _),
      readExponent?_signed, List.take_of_length_le hone.le, hvalue, hone]
    simp
  · have hfraction : isNumeral (ds.drop 1) := by
      refine isNumeral_iff.mpr ⟨?_, fun c hc => hnumeral.2 c (List.mem_of_mem_drop hc)⟩
      rw [Ne, List.drop_eq_nil_iff]
      omega
    rw [if_neg hone, List.append_assoc, List.cons_append,
      readMagnitude?_point hwhole hfraction (hclear _), readExponent?_signed,
      List.take_append_drop, hvalue, List.length_drop]
    -- the digits behind the point are taken off the exponent again
    have hexponent : s.exponent + Int.ofNat ds.length - 1 - (ds.length - 1 : Nat) = s.exponent := by
      rw [Int.ofNat_eq_natCast]
      omega
    rw [Option.map_some, hexponent]

/-- **The notation of JSON.** -/
theorem readMagnitude?_numberChars (s : Scientific) :
    readMagnitude? (numberChars s) = some s.value := by
  unfold numberChars
  dsimp only
  split
  · -- near to one there is no exponent, and a whole number gets a zero behind the point
    by_cases h : 0 ≤ s.exponent
    · have hscale : (-s.exponent).toNat = 0 := by omega
      have hread := readMagnitude?_positional s
      rw [Scientific.positional, hscale, readMagnitude?_pointed, pow_zero, div_one] at hread
      rw [if_pos h, Scientific.positional, hscale, Digits.pointed, if_pos rfl,
        readMagnitude?_tenths, hread]
    · rw [if_neg h, List.append_nil, readMagnitude?_positional]
  · exact readMagnitude?_exponent s

example : readMagnitude? "1.25e+20".toList = some (125 * 10 ^ 18) := by decide +kernel

end Magnitude

/-! ### What is read of a printed number -/

/-- A minus sign in front of a number. -/
theorem readNumber?_signed {cs : List Char} {v : ℚ} (p : Prop) [Decidable p]
    (h : readMagnitude? cs = some v) :
    readNumber? ((if p then ['-'] else []) ++ cs) = some (if p then -v else v) := by
  by_cases hp : p
  · rw [if_pos hp, if_pos hp]
    change (readMagnitude? cs).map (-·) = _
    rw [h]
    rfl
  · rw [if_neg hp, if_neg hp, List.nil_append]
    unfold readNumber?
    split
    · -- a magnitude does not start with a sign
      cases h
    · exact h

/-- **Numbers in JSON** are read as the shortest decimal of the fraction, ties to even. -/
theorem readNumber?_floatText (negative : Bool) (x : Binary) :
    readNumber? (floatText negative x).toList =
      some (if negative then -(x.shortest .even).value else (x.shortest .even).value) := by
  rw [floatText, String.toList_ofList]
  exact readNumber?_signed _ (readMagnitude?_numberChars _)

end Json

/-- **The text of a fraction** is read as its shortest decimal, ties up. -/
theorem Binary.readNumber?_text (negative : Bool) (x : Binary) :
    Json.readNumber? (x.text negative).toList =
      some (if negative then -(x.shortest .up).value else (x.shortest .up).value) := by
  rw [text, String.toList_ofList]
  exact Json.readNumber?_signed _ (Json.readMagnitude?_positional _)

/-- **The text of a decimal** is read as the decimal. -/
theorem Decimal.readNumber?_text (d : Decimal) : Json.readNumber? d.text.toList = some d.value := by
  rw [text, String.toList_ofList,
    Json.readNumber?_signed _ (Json.readMagnitude?_pointed d.coefficient.natAbs d.scale), value]
  split
  · next h =>
    have habs : ((d.coefficient.natAbs : ℤ) : ℚ) = -d.coefficient := by
      rw [Int.ofNat_natAbs_of_nonpos h.le, Int.cast_neg]
    rw [← Int.cast_natCast, habs, neg_div, neg_neg]
  · next h =>
    rw [← Int.cast_natCast, Int.natAbs_of_nonneg (not_lt.mp h)]

end WhereClause
