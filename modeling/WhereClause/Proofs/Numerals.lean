import WhereClause.Value

/-!
# Numbers as they are written

The printed form of a number is a row of digits with a point in it if there is a scale, and reading
the digits gives the number back. A row may have leading zeros when it is read; printing drops all
but those that the scale asks for.

A decimal is read digit by digit, and digits behind the point are rounded away when there is no room
left for them. What is read then has fewer digits behind the point than the text, so the scale tells
whether the number is the one that was written.

* `Digits.value_ofNat` — printing and reading a natural number;
* `Digits.pointed_eq` — a number with a scale is printed as digits, a point and as many digits as
  the scale says, and all the digits together spell the number;
* `Decimal.ofString?_filter_scale` — a decimal that is read with the scale of its text is exact;
* `isSigned_repr`, `Decimal.isSigned_text` — a minus sign stands in front, if there is one, and all
  else is digits and points.
-/

namespace WhereClause

namespace Digits

theorem value_eq_ofDigitChars (cs : List Char) : value cs = Nat.ofDigitChars 10 cs 0 :=
  rfl

/-- **The digits of a number spell it.** -/
@[simp] theorem value_ofNat (n : Nat) : value (ofNat n) = n :=
  Nat.ofDigitChars_ten_toDigits

/-- Zeros in front do not count. -/
theorem value_replicate_append (k : Nat) (cs : List Char) :
    value (List.replicate k '0' ++ cs) = value cs := by
  rw [value_eq_ofDigitChars, Nat.ofDigitChars_append, Nat.ofDigitChars_replicate_zero]
  rfl

/-- Digits that are read on behind a number do not make it smaller. -/
theorem le_ofDigitChars (cs : List Char) (n : Nat) : n ≤ Nat.ofDigitChars 10 cs n := by
  induction cs generalizing n with
  | nil => exact Nat.le_refl n
  | cons c cs ih =>
    calc n
        _ ≤ 10 * n + (c.toNat - '0'.toNat) := by omega
        _ ≤ Nat.ofDigitChars 10 cs (10 * n + (c.toNat - '0'.toNat)) := ih _
        _ = Nat.ofDigitChars 10 (c :: cs) n := Nat.ofDigitChars_cons.symm

/-- Digits that come behind are read on. -/
theorem value_append (cs ds : List Char) :
    value (cs ++ ds) = Nat.ofDigitChars 10 ds (value cs) :=
  Nat.ofDigitChars_append 0

/-- A number is printed in digits. -/
theorem isDigit_of_mem_ofNat {n : Nat} {c : Char} (h : c ∈ ofNat n) : c.isDigit :=
  Nat.isDigit_of_mem_toDigits (by decide) (by decide) h

theorem ofNat_ne_nil (n : Nat) : ofNat n ≠ [] :=
  Nat.toDigits_ne_nil

/-- The digits with leading zeros up to a given length. -/
theorem isDigit_of_mem_leftpad {k n : Nat} {c : Char} (h : c ∈ List.leftpad k '0' (ofNat n)) :
    c.isDigit := by
  rcases List.mem_append.mp h with h | h
  · rw [List.eq_of_mem_replicate h]
    decide
  · exact isDigit_of_mem_ofNat h

/-- **A number with a scale** is printed with a point in front of the last digits. -/
theorem pointed_eq (n : Nat) {scale : Nat} (h : scale ≠ 0) :
    ∃ whole fraction, pointed n scale = whole ++ '.' :: fraction ∧ whole ≠ [] ∧
      (∀ c ∈ whole, c.isDigit) ∧ (∀ c ∈ fraction, c.isDigit) ∧ fraction.length = scale ∧
      value (whole ++ fraction) = n := by
  -- zeros are put in front until there is a digit for the whole part
  let ds := List.leftpad (scale + 1) '0' (ofNat n)
  have hlength : scale < ds.length := by
    rw [List.length_leftpad]
    omega
  refine ⟨ds.take (ds.length - scale), ds.drop (ds.length - scale), ?_, ?_, ?_, ?_, ?_, ?_⟩
  · rw [pointed, if_neg h]
  · intro hnil
    have := congrArg List.length hnil
    rw [List.length_take, List.length_nil] at this
    omega
  · exact fun c hc => isDigit_of_mem_leftpad (List.mem_of_mem_take hc)
  · exact fun c hc => isDigit_of_mem_leftpad (List.mem_of_mem_drop hc)
  · rw [List.length_drop]
    omega
  · rw [List.take_append_drop]
    exact (value_replicate_append _ _).trans (value_ofNat n)

/-- A number with any scale is made of digits and at most a point. -/
theorem mem_pointed {n scale : Nat} {c : Char} (h : c ∈ pointed n scale) :
    c.isDigit ∨ c = '.' := by
  by_cases hscale : scale = 0
  · rw [pointed, if_pos hscale] at h
    exact .inl (isDigit_of_mem_ofNat h)
  · obtain ⟨whole, fraction, heq, -, hwhole, hfraction, -⟩ := pointed_eq n hscale
    rw [heq, List.mem_append, List.mem_cons] at h
    rcases h with h | h | h
    · exact .inl (hwhole c h)
    · exact .inr h
    · exact .inl (hfraction c h)

end Digits

/-! ### Numerals -/

/-- One digit or more. -/
def isNumeral (ds : List Char) : Bool :=
  !ds.isEmpty && ds.all Char.isDigit

theorem isNumeral_cons {c : Char} {cs : List Char} :
    isNumeral (c :: cs) ↔ c.isDigit ∧ cs.all Char.isDigit := by
  simp [isNumeral]

/-- A numeral has a first digit. -/
theorem exists_cons_of_isNumeral {ds : List Char} (h : isNumeral ds) :
    ∃ c cs, ds = c :: cs ∧ c.isDigit := by
  cases ds with
  | nil => cases h
  | cons c cs => exact ⟨c, cs, rfl, (isNumeral_cons.mp h).1⟩

theorem isNumeral_iff {ds : List Char} : isNumeral ds ↔ ds ≠ [] ∧ ∀ c ∈ ds, c.isDigit := by
  simp [isNumeral]

theorem isNumeral_ofNat (n : Nat) : isNumeral (Digits.ofNat n) :=
  isNumeral_iff.mpr ⟨Digits.ofNat_ne_nil n, fun _ hc => Digits.isDigit_of_mem_ofNat hc⟩

namespace Decimal

/-- A decimal has the parts that it was made of. -/
theorem eq_of_make? {c : Int} {scale : Nat} {d : Decimal} (h : make? c scale = some d) :
    d.coefficient = c ∧ d.scale = scale := by
  unfold make? at h
  split at h <;> cases h
  exact ⟨rfl, rfl⟩

/-- The parts of a decimal are within the bounds. -/
theorem make?_self (d : Decimal) : make? d.coefficient d.scale = some d :=
  dif_pos ⟨d.coefficient_lt, d.scale_le⟩

/-- **A decimal that was read is printed with a point**, and reading that gives it back. -/
theorem exists_digits_of_ofDigits? {whole fraction : List Char} {d : Decimal}
    (hfraction : isNumeral fraction) (h : ofDigits? whole fraction = some d) :
    ∃ whole' fraction', d.text.toList = whole' ++ '.' :: fraction' ∧ isNumeral whole' ∧
      isNumeral fraction' ∧ ofDigits? whole' fraction' = some d := by
  obtain ⟨hcoefficient, hscale⟩ := eq_of_make? h
  -- what was read had digits behind the point and no sign, so it is printed in that form again
  have hpositive : d.scale ≠ 0 := by
    rw [hscale]
    exact fun hzero => (isNumeral_iff.mp hfraction).1 (List.eq_nil_of_length_eq_zero hzero)
  have hsign : ¬ d.coefficient < 0 := by
    rw [hcoefficient]
    exact Int.not_lt.mpr (Int.natCast_nonneg _)
  obtain ⟨whole', fraction', hpointed, hne, hwhole', hfraction', hlength, hvalue⟩ :=
    Digits.pointed_eq d.coefficient.natAbs hpositive
  refine ⟨whole', fraction', ?_, isNumeral_iff.mpr ⟨hne, hwhole'⟩,
    isNumeral_iff.mpr ⟨?_, hfraction'⟩, ?_⟩
  · rw [text, String.toList_ofList, if_neg hsign, hpointed, List.nil_append]
  · rintro rfl
    exact hpositive hlength.symm
  · have hcoefficient' : Int.ofNat d.coefficient.natAbs = d.coefficient := by
      rw [hcoefficient]
      rfl
    rw [ofDigits?, hvalue, hlength, hcoefficient', make?_self]

/-! ### Digits behind the point -/

section Absorb

variable {n scale m s : Nat} {cs : List Char}

/-- A rounded digit adds nothing to the scale. -/
theorem scale_le_of_roundBy? {d : Nat} (h : roundBy? n scale d = some (m, s)) : s ≤ scale := by
  unfold roundBy? at h
  split at h
  · cases h
    exact Nat.le_refl _
  split at h
  · cases h
    exact Nat.le_refl _
  -- a carry that finds no room takes the last digit with it
  split at h
  · cases h
  · cases h
    exact Nat.sub_le scale 1

/-- **Digits that find room are all taken.** -/
theorem absorb?_of_fits (hn : Nat.ofDigitChars 10 cs n < coefficientBound)
    (hscale : scale + cs.length ≤ maxScale) :
    absorb? n scale cs = some (Nat.ofDigitChars 10 cs n, scale + cs.length) := by
  induction cs generalizing n scale with
  | nil => rfl
  | cons c cs ih =>
    rw [Nat.ofDigitChars_cons] at hn ⊢
    rw [List.length_cons] at hscale ⊢
    -- there is room for all of them, so there is for the first one
    have hfirst : 10 * n + (c.toNat - '0'.toNat) < coefficientBound :=
      Nat.lt_of_le_of_lt (Digits.le_ofDigitChars cs _) hn
    have hroom : scale < maxScale := by omega
    have hrest : scale + 1 + cs.length ≤ maxScale := by omega
    simp only [absorb?, hfirst, hroom, decide_true, Bool.and_self, if_true]
    rw [ih hn hrest, Nat.add_right_comm, Nat.add_assoc]

/-- **Rounding shows in the scale**, which is smaller than the number of digits. -/
theorem scale_lt_of_absorb? (hcs : cs ≠ [])
    (hfits : ¬ (Nat.ofDigitChars 10 cs n < coefficientBound ∧ scale + cs.length ≤ maxScale))
    (h : absorb? n scale cs = some (m, s)) : s < scale + cs.length := by
  induction cs generalizing n scale with
  | nil => exact absurd rfl hcs
  | cons c cs ih =>
    rw [Nat.ofDigitChars_cons, List.length_cons] at hfits
    rw [List.length_cons]
    simp only [absorb?] at h
    split at h
    · next hroom =>
      simp only [Bool.and_eq_true, decide_eq_true_eq] at hroom
      -- the first digit has found room, so it is not the last one
      have hmore : cs ≠ [] := by
        rintro rfl
        exact hfits ⟨hroom.1, hroom.2⟩
      have hrest := ih hmore (by rwa [Nat.add_right_comm, Nat.add_assoc]) h
      omega
    · -- the first digit is rounded away, and all that follow it are dropped
      have hle := scale_le_of_roundBy? h
      omega

end Absorb

section Reading

variable {whole fraction : List Char}

/-- What is read of digits with a point among them. -/
theorem ofString?_of_isNumeral (hw : isNumeral whole) (hf : isNumeral fraction) :
    ofString? (String.ofList (whole ++ '.' :: fraction)) =
      (absorb? (Digits.value whole) 0 fraction).bind fun r => make? (Int.ofNat r.1) r.2 := by
  obtain ⟨hne, hdigits⟩ := isNumeral_iff.mp hw
  have hall : fraction.all Char.isDigit := (Bool.and_eq_true_iff.mp hf).2
  have hpoint : ¬ '.'.isDigit := by decide
  -- the text starts with a digit, so there is no sign
  have hsign : ∀ cs, whole ++ '.' :: fraction ≠ '-' :: cs := by
    intro cs hcs
    obtain ⟨c, tail, rfl, hc⟩ := exists_cons_of_isNumeral hw
    obtain ⟨rfl, -⟩ := List.cons.inj hcs
    exact absurd hc (by decide)
  have hempty : whole.isEmpty = false := by
    rw [Bool.eq_false_iff]
    exact fun h => hne (List.isEmpty_iff.mp h)
  unfold ofString?
  rw [String.toList_ofList]
  split
  next negative cs hmatch =>
  split at hmatch
  · next hcs => exact absurd hcs (hsign _)
  · obtain ⟨rfl, rfl⟩ := Prod.mk.inj hmatch
    rw [List.takeWhile_append_of_pos hdigits, List.takeWhile_cons_of_neg hpoint,
      List.dropWhile_append_of_pos hdigits, List.dropWhile_cons_of_neg hpoint]
    simp only [List.append_nil, hempty, hall, if_true, Option.bind_some]
    cases absorb? (Digits.value whole) 0 fraction <;> rfl

/-- **Nothing is rounded away unnoticed.** A decimal that is read with the scale of its text is the
one that was written, and where there is none, there is no room for the digits. -/
theorem ofString?_filter_scale (hw : isNumeral whole) (hf : isNumeral fraction) :
    (ofString? (String.ofList (whole ++ '.' :: fraction))).filter (·.scale == fraction.length) =
      ofDigits? whole fraction := by
  rw [ofString?_of_isNumeral hw hf]
  by_cases hfits : Digits.value (whole ++ fraction) < coefficientBound ∧ fraction.length ≤ maxScale
  · -- there is room for all digits, and nothing is rounded
    have hmake : ofDigits? whole fraction =
        some ⟨Int.ofNat (Digits.value (whole ++ fraction)), fraction.length, hfits.1, hfits.2⟩ :=
      dif_pos hfits
    rw [Digits.value_append] at hfits
    have hscale : 0 + fraction.length ≤ maxScale := by rw [Nat.zero_add]; exact hfits.2
    rw [hmake, absorb?_of_fits hfits.1 hscale, ← Digits.value_append, Nat.zero_add,
      Option.bind_some]
    change (ofDigits? whole fraction).filter _ = _
    rw [hmake]
    simp
  · -- there is no room for all of them, and what is rounded has a smaller scale
    have hmake : ofDigits? whole fraction = none := dif_neg hfits
    rw [hmake, Option.filter_eq_none_iff]
    intro d hd
    obtain ⟨⟨n, scale⟩, habsorb, hn⟩ := Option.bind_eq_some_iff.mp hd
    have hlt := scale_lt_of_absorb? (isNumeral_iff.mp hf).1
      (by rwa [← Digits.value_append, Nat.zero_add]) habsorb
    rw [(eq_of_make? hn).2, beq_iff_eq]
    omega

end Reading
end Decimal

/-! ### The characters of printed numbers -/

/-- **The form of a printed number**: digits and points, behind a minus sign if it is negative. -/
def IsSigned (cs : List Char) : Prop :=
  ∃ sign ds, cs = sign ++ ds ∧ (sign = [] ∨ sign = ['-']) ∧ ∀ c ∈ ds, c.isDigit ∨ c = '.'

/-- **Whole numbers** are printed in this form. -/
theorem isSigned_repr (n : Int) : IsSigned n.repr.toList := by
  rw [Int.repr_eq_if]
  split
  · rw [Nat.toList_repr]
    exact ⟨[], _, rfl, .inl rfl, fun c hc => .inl (Digits.isDigit_of_mem_ofNat hc)⟩
  · rw [String.toList_append, Nat.toList_repr]
    exact ⟨['-'], _, rfl, .inr rfl, fun c hc => .inl (Digits.isDigit_of_mem_ofNat hc)⟩

/-- **Decimals** are printed in this form. -/
theorem Decimal.isSigned_text (d : Decimal) : IsSigned d.text.toList := by
  rw [Decimal.text, String.toList_ofList]
  refine ⟨_, _, rfl, ?_, fun c hc => Digits.mem_pointed hc⟩
  split
  · exact .inr rfl
  · exact .inl rfl

/-- The characters that a printed number may have. -/
def numeralChar (c : Char) : Bool :=
  c.isDigit || c == '.' || c == '-'

/-- There are no other characters in this form. -/
theorem IsSigned.numeralChar_of_mem {cs : List Char} {c : Char} (h : IsSigned cs) (hc : c ∈ cs) :
    numeralChar c := by
  obtain ⟨sign, ds, rfl, hsign, hds⟩ := h
  rcases List.mem_append.mp hc with hc | hc
  · obtain rfl : c = '-' := by
      rcases hsign with rfl | rfl
      · cases hc
      · exact List.mem_singleton.mp hc
    decide
  · rcases hds c hc with hdigit | rfl
    · simp [numeralChar, hdigit]
    · decide

theorem numeralChar_of_mem_repr {n : Int} {c : Char} (h : c ∈ n.repr.toList) : numeralChar c :=
  (isSigned_repr n).numeralChar_of_mem h

theorem Decimal.numeralChar_of_mem_text {d : Decimal} {c : Char} (h : c ∈ d.text.toList) :
    numeralChar c :=
  d.isSigned_text.numeralChar_of_mem h

end WhereClause
