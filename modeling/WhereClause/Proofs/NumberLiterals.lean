import WhereClause.Proofs.Spelling

/-!
# Number literals are exact

What becomes of a text that is one number. A row of digits is a whole number, and two rows with a
point between them are a decimal; leading zeros count for nothing, and zeros at the end of a decimal
count for its scale. There are three bounds, on whole numbers, on the coefficients of decimals and
on their scales. Within them the value is exactly the one that was written, and beyond them there is
no value and no token, but an error that carries the whole text.

The reader of decimals does not work like that: it rounds digits away that find no room. It is
`Decimal.ofString?_filter_scale` that makes the difference, by a look at the scale.

The text of a value is such a number again, in its shortest form, and scanning it gives the value
back with its scale.

* `numberTokens` — the tokens of a text that is one number;
* `scan_integer`, `scan_decimal` — the two kinds of numbers, with their values or without;
* `scan_text_integer`, `scan_text_decimal` — values that were scanned can be scanned again.
-/

namespace WhereClause

/-- **The tokens of a text that is one number**: the number and the end marker. -/
def numberTokens (text : String) (v : Value) : List Token :=
  [⟨.number, text, some v, 1⟩, Token.eof 1]

section Scan

variable {a b : List Char}

/-- A text that is read as one number to its end has that number as its only token, or an error with
the whole text if the number has no value. -/
theorem scan_of_readNumber {c : Char} {cs : List Char} {v : Option Value} (hc : c.isDigit)
    (h : Lexer.readNumber (c :: cs) = (c :: cs, v, [])) :
    scan (String.ofList (c :: cs)) =
      v.elim (.error (.invalidNumber (String.ofList (c :: cs)) 1))
        fun v => .ok (numberTokens (String.ofList (c :: cs)) v) := by
  have hstart : ¬ Lexer.isSeparator c := not_isSeparator_of_isGraphic (isGraphic_of_isDigit hc)
  rw [scan, Lexer.ofString, String.toList_ofList, Lexer.tokens_eq, Lexer.next_of_starts hstart,
    Lexer.read_number hc h]
  cases v with
  | none => rfl
  | some v =>
    -- the number is no end marker, and behind it there is nothing but the end
    have hend : (⟨[], 1⟩ : Lexer).tokens = .ok [Token.eof 1] := by
      rw [Lexer.tokens_eq]
      rfl
    change (Except.map _ (⟨[], 1⟩ : Lexer).tokens) = _
    rw [hend]
    rfl

/-- **Whole numbers.** -/
theorem scan_integer (ha : isNumeral a) :
    scan (String.ofList a) =
      (Lexer.integerValue? a).elim (.error (.invalidNumber (String.ofList a) 1))
        fun v => .ok (numberTokens (String.ofList a) v) := by
  have hread : Lexer.readNumber a = (a, Lexer.integerValue? a, []) := by
    have hend : Apart .number a [] := ⟨clear_nil, nofun⟩
    simpa using Lexer.readNumber_integer ha hend
  obtain ⟨c, cs, rfl, hc⟩ := exists_cons_of_isNumeral ha
  exact scan_of_readNumber hc hread

/-- **Decimals.** -/
theorem scan_decimal (ha : isNumeral a) (hb : isNumeral b) :
    scan (String.ofList (a ++ '.' :: b)) =
      (Decimal.ofDigits? a b).elim (.error (.invalidNumber (String.ofList (a ++ '.' :: b)) 1))
        fun d => .ok (numberTokens (String.ofList (a ++ '.' :: b)) (.decimal d)) := by
  have hread := Lexer.readNumber_decimal ha hb clear_nil
  rw [List.append_nil] at hread
  obtain ⟨c, cs, rfl, hc⟩ := exists_cons_of_isNumeral ha
  refine (scan_of_readNumber hc hread).trans ?_
  cases Decimal.ofDigits? (c :: cs) b <;> rfl

end Scan

/-! ### Scanning the text of a value -/

/-- A whole number in range is scanned from its text. -/
theorem scan_text_integer {n : Nat} (h : n ≤ Lexer.maxInteger) :
    scan (Value.integer n).text = .ok (numberTokens (Value.integer n).text (.integer n)) := by
  have htext : (Value.integer n).text = String.ofList (Digits.ofNat n) := by
    rw [← String.toList_inj, String.toList_ofList]
    exact Nat.toList_repr
  have hvalue : Lexer.integerValue? (Digits.ofNat n) = some (.integer n) := by
    rw [Lexer.integerValue?, Digits.value_ofNat, if_pos h]
    rfl
  rw [htext, scan_integer (isNumeral_ofNat n), hvalue]
  rfl

/-- A decimal that was written with digits behind the point is scanned from its text, with the
scale it had. -/
theorem scan_text_decimal {a b : List Char} {d : Decimal} (hb : isNumeral b)
    (h : Decimal.ofDigits? a b = some d) :
    scan (Value.decimal d).text = .ok (numberTokens (Value.decimal d).text (.decimal d)) := by
  -- the digits that are printed need not be those that were read, as zeros may be gone in front
  obtain ⟨whole, fraction, htoList, hwhole, hfraction, hd⟩ :=
    Decimal.exists_digits_of_ofDigits? hb h
  have htext : (Value.decimal d).text = String.ofList (whole ++ '.' :: fraction) := by
    rw [← String.toList_inj, String.toList_ofList]
    exact htoList
  rw [htext, scan_decimal hwhole hfraction, hd]
  rfl

/-! ### Exact or refused -/

section Bounds

variable {a b : List Char}

theorem integerValue?_of_lt (h : Digits.value a < Nat.pow 2 63) :
    Lexer.integerValue? a = some (.integer (Digits.value a)) :=
  if_pos (Nat.le_of_lt_succ h)

theorem integerValue?_of_le (h : Nat.pow 2 63 ≤ Digits.value a) :
    Lexer.integerValue? a = none :=
  if_neg (Nat.not_le_of_lt h)

/-- The decimals that there are, with at most 28 digits behind the point and a coefficient of 96
bits. -/
theorem exists_ofDigits? (h : b.length ≤ 28 ∧ Digits.value (a ++ b) < Nat.pow 2 96) :
    ∃ d, Decimal.ofDigits? a b = some d ∧ d.coefficient = Digits.value (a ++ b) ∧
      d.scale = b.length :=
  ⟨⟨Digits.value (a ++ b), b.length, h.2, h.1⟩, dif_pos h.symm, rfl, rfl⟩

theorem ofDigits?_eq_none (h : ¬ (b.length ≤ 28 ∧ Digits.value (a ++ b) < Nat.pow 2 96)) :
    Decimal.ofDigits? a b = none :=
  dif_neg fun hfits => h hfits.symm

end Bounds

/-- **A number is scanned exactly or refused.** A row of digits is the whole number that it spells
if that is below the 63rd power of two. Two rows with a point between them are the decimal with all
their digits, and with the scale that the second row has, if that is at most 28 and the digits
together spell a number below the 96th power of two. Otherwise there is an error that carries the
text. A value that was scanned is scanned again from its own text, with its scale. -/
theorem scan_exact_or_refused {a b : List Char} (ha : isNumeral a) (hb : isNumeral b) :
    (Digits.value a < Nat.pow 2 63 →
      scan (String.ofList a) = .ok (numberTokens (String.ofList a) (.integer (Digits.value a)))) ∧
    (Nat.pow 2 63 ≤ Digits.value a →
      scan (String.ofList a) = .error (.invalidNumber (String.ofList a) 1)) ∧
    (b.length ≤ 28 ∧ Digits.value (a ++ b) < Nat.pow 2 96 →
      ∃ d : Decimal, d.coefficient = Digits.value (a ++ b) ∧ d.scale = b.length ∧
        scan (String.ofList (a ++ '.' :: b)) =
          .ok (numberTokens (String.ofList (a ++ '.' :: b)) (.decimal d))) ∧
    (¬ (b.length ≤ 28 ∧ Digits.value (a ++ b) < Nat.pow 2 96) →
      scan (String.ofList (a ++ '.' :: b)) =
        .error (.invalidNumber (String.ofList (a ++ '.' :: b)) 1)) ∧
    ∀ text ∈ [String.ofList a, String.ofList (a ++ '.' :: b)], ∀ v,
      scan text = .ok (numberTokens text v) → scan v.text = .ok (numberTokens v.text v) := by
  have hinteger := scan_integer ha
  have hdecimal := scan_decimal ha hb
  refine ⟨fun hlt => ?_, fun hle => ?_, fun hfits => ?_, fun hbeyond => ?_, ?_⟩
  · rw [hinteger, integerValue?_of_lt hlt]
    rfl
  · rw [hinteger, integerValue?_of_le hle]
    rfl
  · obtain ⟨d, hd, hcoefficient, hscale⟩ := exists_ofDigits? hfits
    rw [hd] at hdecimal
    exact ⟨d, hcoefficient, hscale, hdecimal⟩
  · rw [hdecimal, ofDigits?_eq_none hbeyond]
    rfl
  · intro text htext v hv
    -- a value is there only within the bounds, and then it is known
    rcases List.mem_cons.mp htext with rfl | htext
    · rw [hinteger] at hv
      rcases Nat.lt_or_ge (Digits.value a) (Nat.pow 2 63) with hlt | hle
      · rw [integerValue?_of_lt hlt] at hv
        cases hv
        exact scan_text_integer (Nat.le_of_lt_succ hlt)
      · rw [integerValue?_of_le hle] at hv
        cases hv
    · obtain rfl := List.mem_singleton.mp htext
      rw [hdecimal] at hv
      cases hd : Decimal.ofDigits? a b with
      | none =>
        rw [hd] at hv
        cases hv
      | some d =>
        rw [hd] at hv
        cases hv
        exact scan_text_decimal hb hd

/-- The greatest coefficient at the greatest scale, behind leading zeros. -/
theorem scan_exact_or_refused_greatest :
    isNumeral "0007".toList ∧ isNumeral "9228162514264337593543950335".toList ∧
      scan (String.ofList "0007".toList) =
        .ok (numberTokens (String.ofList "0007".toList) (.integer 7)) ∧
      ∃ d : Decimal, d.coefficient = 79228162514264337593543950335 ∧ d.scale = 28 ∧
        scan d.text = .ok (numberTokens d.text (.decimal d)) := by
  have ha : isNumeral "0007".toList := by decide
  have hb : isNumeral "9228162514264337593543950335".toList := by decide
  have hwhole : Digits.value "0007".toList = 7 := by decide +kernel
  have hdigits : Digits.value ("0007".toList ++ "9228162514264337593543950335".toList) =
      79228162514264337593543950335 := by decide +kernel
  obtain ⟨hinteger, -, hdecimal, -, hagain⟩ := scan_exact_or_refused ha hb
  rw [hwhole] at hinteger
  rw [hdigits] at hdecimal
  obtain ⟨d, hcoefficient, hscale, hd⟩ := hdecimal (by decide)
  have hreread := hagain _ (List.mem_cons_of_mem _ List.mem_cons_self) _ hd
  exact ⟨ha, hb, hinteger (by decide), d, hcoefficient, hscale, hreread⟩

end WhereClause
