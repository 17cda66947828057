import WhereClause.Command.Run
import WhereClause.Proofs.Parameters

/-!
# Why a filter has no SQL text

Writing has more ways to fail than there are reasons to: a tree may have operators that SQL does not
know, or a list of values in a place where none can stand. No filter has such a tree. The operators
and lists of a parsed tree stand where the grammar puts them, and neither a change of names nor
numbered parameters move them, so only truth values are left (`Style.exists_passed_of_parse`).
Nothing limits the sink either, and what is written for a quote always fits.

A filter thus has no SQL text for one of two reasons: it does not parse, or it says `true` or
`false` somewhere and its literals are to be written in place.

* `Style.exists_result_of_parse` — what comes of a filter that parses;
* `Style.fragment_eq_error_iff` — the two reasons why there is no SQL text.
-/

namespace WhereClause

/-- The parser knows nothing of SQL. -/
theorem parse_ne_sql (s : String) (err : SqlError) : parse s ≠ .error (.sql err) := by
  intro h
  unfold parse at h
  split at h
  · cases h
  · split at h
    · cases h
    · split at h <;> cases h

namespace Style

variable {style : Style} {s : String}

/-- A filter that does not parse fails for that reason. -/
theorem fragment_of_parse_error {err : CompileError} (h : parse s = .error err) :
    style.fragment s = .error err := by
  rw [fragment, run_compile_of_error _ h]

/-- **What comes of a filter that parses**: an SQL text, unless one of its truth values has to be
written. -/
theorem exists_result_of_parse (style : Style) {e : Expr} (h : parse s = .ok e) :
    ∃ x, Sql.FailsIff (!style.bindsLiterals && e.leaves.any Leaf.isTruth) x ∧
      style.fragment s = (x.mapError .sql).map
        fun sql => ⟨sql, if style.bindsLiterals then some (style.values e) else none⟩ := by
  obtain ⟨e', hparse, -, hfails⟩ := style.exists_passed_of_parse h
  refine ⟨_, hfails, ?_⟩
  rw [fragment, run_compile _ hparse]
  cases Sql.text style.quoting.quoter e' <;> rfl

/-- **There is an SQL text if the literals are bound**, for every filter that parses. -/
theorem exists_fragment_iff (hbinds : style.bindsLiterals) :
    (∃ f, style.fragment s = .ok f) ↔ ∃ e, parse s = .ok e := by
  cases hparse : parse s with
  | error err =>
    rw [fragment_of_parse_error hparse]
    exact iff_of_false nofun nofun
  | ok e =>
    -- no truth value is left to be written, so writing does not fail
    obtain ⟨x, hfails, hfragment⟩ := style.exists_result_of_parse hparse
    rw [hbinds] at hfails
    obtain ⟨sql, rfl⟩ := hfails.ok rfl
    exact iff_of_true ⟨_, hfragment⟩ ⟨e, rfl⟩

/-- **The two errors of a filter**: that of the parser, and the complaint about a truth value that
is not bound. -/
theorem fragment_eq_error_iff {err : CompileError} :
    style.fragment s = .error err ↔
      parse s = .error err ∨
        style.bindsLiterals = false ∧ err = .sql (.unsupportedLiteral "boolean") ∧
          ∃ e b, parse s = .ok e ∧ Leaf.literal (.boolean b) ∈ e.leaves := by
  cases hparse : parse s with
  | error err' =>
    rw [fragment_of_parse_error hparse]
    simp
  | ok e =>
    obtain ⟨x, hfails, hfragment⟩ := style.exists_result_of_parse hparse
    rw [hfragment]
    -- the result is known as soon as it is known whether a truth value has to be written
    cases htruth : (!style.bindsLiterals && e.leaves.any Leaf.isTruth) with
    | true =>
      rw [hfails.error htruth]
      obtain ⟨hbinds, hany⟩ := Bool.and_eq_true_iff.mp htruth
      obtain ⟨b, hb⟩ := any_isTruth_iff.mp hany
      constructor
      · intro herr
        cases herr
        exact .inr ⟨by simpa using hbinds, rfl, e, b, rfl, hb⟩
      · rintro (herr | ⟨-, rfl, -⟩)
        · cases herr
        · rfl
    | false =>
      obtain ⟨sql, rfl⟩ := hfails.ok htruth
      refine iff_of_false nofun ?_
      rintro (herr | ⟨hbinds, -, e', b, he', hb⟩)
      · cases herr
      · cases he'
        rw [hbinds, any_isTruth_iff.mpr ⟨b, hb⟩] at htruth
        cases htruth

/-- Checking a filter is parsing it. -/
theorem exists_output_check_iff (s : String) (input : Option ByteArray) :
    (∃ text, (Command.check (some s)).output input = .ok text) ↔ ∃ e, parse s = .ok e := by
  have houtput : (Command.check (some s)).output input =
      Command.lift (parse s) >>= fun _ => pure "Syntax is valid\n" := rfl
  rw [houtput]
  cases parse s with
  | error err => exact iff_of_false nofun nofun
  | ok e => exact iff_of_true ⟨_, rfl⟩ ⟨e, rfl⟩

/-- **Why there is no SQL text.** A filter fails with the error of the parser where it does not
parse, and with the complaint about truth values where it has one that is not bound; there is no
other error. So writing never fails in another way, and with its literals bound a filter has an SQL
text just where checking it succeeds. -/
theorem fragment_fails_iff (style : Style) (s : String) :
    (∀ err, style.fragment s = .error err ↔
      parse s = .error err ∨
        style.bindsLiterals = false ∧ err = .sql (.unsupportedLiteral "boolean") ∧
          ∃ e b, parse s = .ok e ∧ Leaf.literal (.boolean b) ∈ e.leaves) ∧
    (∀ err, style.fragment s = .error (.sql err) → err = .unsupportedLiteral "boolean") ∧
    (style.bindsLiterals → ∀ input, (∃ f, style.fragment s = .ok f) ↔
      ∃ text, (Command.check (some s)).output input = .ok text) := by
  refine ⟨fun err => fragment_eq_error_iff, fun err h => ?_, fun hbinds input => ?_⟩
  · -- the parser has errors of its own only
    rcases fragment_eq_error_iff.mp h with hparse | ⟨-, herr, -⟩
    · exact absurd hparse (parse_ne_sql s err)
    · exact CompileError.sql.inj herr
  · rw [exists_fragment_iff hbinds, exists_output_check_iff]

/-- A filter with a truth value among the arguments of a call. It has no SQL text with its literals
in place, and it has one with its literals bound. -/
theorem fragment_fails_truthExample :
    Style.fragment ⟨false, .backslash, true⟩ "x in (1, f(true))" =
        .error (.sql (.unsupportedLiteral "boolean")) ∧
      ∃ f, Style.fragment ⟨true, .backslash, true⟩ "x in (1, f(true))" = .ok f := by
  have hcheck : (parse "x in (1, f(true))").toOption.map Expr.leaves =
      some [.identifier "x", .literal (.integer 1), .identifier "f", .literal (.boolean true)] := by
    decide +kernel
  obtain ⟨e, he, hleaves⟩ := Option.map_eq_some_iff.mp hcheck
  have hparse := eq_ok_of_toOption he
  have htruth : Leaf.literal (.boolean true) ∈ e.leaves := by
    rw [hleaves]
    decide
  refine ⟨?_, ?_⟩
  · exact ((fragment_fails_iff ⟨false, .backslash, true⟩ _).1 _).mpr
      (.inr ⟨rfl, rfl, e, true, hparse, htruth⟩)
  · exact ((fragment_fails_iff ⟨true, .backslash, true⟩ _).2.2 rfl none).mpr
      ((exists_output_check_iff _ none).mpr ⟨e, hparse⟩)

end Style

end WhereClause
