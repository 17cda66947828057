import Mathlib
import WhereClause.Proofs.Rendering

/-!
# Quotes behind backslashes

Some databases read a backslash inside of a literal together with the character that follows it. A
quote is then written behind a backslash, and does not close the literal. The backslashes of the
value are written as they are, though, and these too are read with what follows them. One right in
front of a quote takes the backslash that was meant for the quote, and one at the end takes the
closing quote.

The reader goes through a run of backslashes in pairs, so what counts is whether one is left over
where the run ends. A text is one literal iff none is left over in front of a quote of the value or
at the end of it.

* `behindLiteral` — where a literal ends, by the rule for backslashes;
* `Guarded` — what a value has to fulfil, given the text in front of it;
* `closesAtEnd_iff_guarded` — the reader and the rule agree.
-/

namespace WhereClause

/-! ### Literals -/

/-- **What follows a literal**, read from inside of it: a backslash takes the next character with
it, and another quote closes the literal. There is no answer if the text ends inside. -/
def behindLiteral : List Char → Option (List Char)
  | [] => none
  | ['\\'] => none
  | '\\' :: _ :: cs => behindLiteral cs
  | '\'' :: cs => some cs
  | _ :: cs => behindLiteral cs

/-- **A text that is one literal**: it opens with a quote, and the quote that closes the literal is
the last character. -/
def IsBackslashLiteral (cs : List Char) : Prop :=
  ∃ inside, cs = '\'' :: inside ∧ behindLiteral inside = some []

/-- All other characters are read one at a time. -/
theorem behindLiteral_of_ne {c : Char} {cs : List Char} (hslash : c ≠ '\\') (hquote : c ≠ '\'') :
    behindLiteral (c :: cs) = behindLiteral cs := by
  rw [behindLiteral]
  · rintro rfl
    exact absurd rfl hslash
  · rintro - - rfl
    exact absurd rfl hslash
  · exact hquote

/-! ### Runs of backslashes -/

/-- The number of backslashes at the end of a text. -/
def trailingBackslashes (cs : List Char) : Nat :=
  (cs.rtakeWhile (· = '\\')).length

/-- One more backslash at the end. -/
theorem trailingBackslashes_slash (cs : List Char) :
    trailingBackslashes (cs ++ ['\\']) = trailingBackslashes cs + 1 := by
  rw [trailingBackslashes, List.rtakeWhile_concat_pos _ _ _ (by decide), List.length_append]
  rfl

/-- Any other character ends the run. -/
theorem trailingBackslashes_of_ne (cs : List Char) {c : Char} (h : c ≠ '\\') :
    trailingBackslashes (cs ++ [c]) = 0 := by
  rw [trailingBackslashes, List.rtakeWhile_concat_neg _ _ _ (by simpa using h)]
  rfl

/-- **No backslash is left over** in front of a quote or at the end of `cs`, where the text `pre`
comes before. -/
def Guarded (pre cs : List Char) : Prop :=
  ∀ a b, cs = a ++ b → (b = [] ∨ b.head? = some '\'') → Even (trailingBackslashes (pre ++ a))

/-- Behind the value comes the closing quote, so none may be left over there. -/
theorem guarded_nil {pre : List Char} : Guarded pre [] ↔ Even (trailingBackslashes pre) := by
  constructor
  · intro h
    simpa using h [] [] rfl (.inl rfl)
  · intro h a b heq _
    obtain ⟨rfl, rfl⟩ := List.append_eq_nil_iff.mp heq.symm
    simpa using h

/-- The places of a value are its first character and those behind it. -/
theorem guarded_cons {pre cs : List Char} {c : Char} :
    Guarded pre (c :: cs) ↔
      (c = '\'' → Even (trailingBackslashes pre)) ∧ Guarded (pre ++ [c]) cs := by
  constructor
  · intro h
    refine ⟨?_, ?_⟩
    · rintro rfl
      simpa using h [] ('\'' :: cs) rfl (.inr rfl)
    · -- a place in the rest is one in the whole, with the first character in front of it
      intro a b heq hend
      have := h (c :: a) b (by rw [heq]; rfl) hend
      rwa [List.append_cons] at this
  · rintro ⟨hquote, hcs⟩ a b heq hend
    -- the place is the start, where only a quote matters, or lies in the rest
    rcases List.cons_eq_append_iff.mp heq with ⟨rfl, rfl⟩ | ⟨a', rfl, hrest⟩
    · rw [List.append_nil]
      refine hquote ?_
      rcases hend with hnil | hhead
      · cases hnil
      · exact Option.some.inj hhead
    · rw [List.append_cons]
      exact hcs a' b hrest hend

/-! ### Reading what was written -/

/-- What is read of a value and its closing quote leaves nothing. -/
def ClosesAtEnd (cs : List Char) : Prop :=
  behindLiteral (Sql.escaped ['\\', '\''] cs ++ ['\'']) = some []

/-- A quote is read with the backslash that was written for it. -/
theorem closesAtEnd_quote {cs : List Char} : ClosesAtEnd ('\'' :: cs) ↔ ClosesAtEnd cs :=
  Iff.rfl

theorem closesAtEnd_of_ne {c : Char} {cs : List Char} (hslash : c ≠ '\\') (hquote : c ≠ '\'') :
    ClosesAtEnd (c :: cs) ↔ ClosesAtEnd cs := by
  have hescaped : Sql.escaped ['\\', '\''] (c :: cs) = c :: Sql.escaped ['\\', '\''] cs := by
    simp [Sql.escaped, hquote]
  rw [ClosesAtEnd, hescaped, List.cons_append, behindLiteral_of_ne hslash hquote, ClosesAtEnd]

/-- A backslash at the end of the value takes the closing quote. -/
theorem not_closesAtEnd_slash : ¬ ClosesAtEnd ['\\'] :=
  fun h => nomatch h

/-- A backslash in front of a quote takes the backslash that was written for it, and the literal
closes too early. -/
theorem not_closesAtEnd_slash_quote (cs : List Char) : ¬ ClosesAtEnd ('\\' :: '\'' :: cs) := by
  intro h
  have hrest : Sql.escaped ['\\', '\''] cs ++ ['\''] = [] := Option.some.inj h
  exact absurd hrest (by simp)

/-- A backslash takes any other character with it. -/
theorem closesAtEnd_slash_of_ne {d : Char} {cs : List Char} (hquote : d ≠ '\'') :
    ClosesAtEnd ('\\' :: d :: cs) ↔ ClosesAtEnd cs := by
  have hescaped : Sql.escaped ['\\', '\''] ('\\' :: d :: cs) =
      '\\' :: d :: Sql.escaped ['\\', '\''] cs := by
    simp [Sql.escaped, hquote]
  rw [ClosesAtEnd, hescaped, List.cons_append, List.cons_append, behindLiteral, ClosesAtEnd]

/-- **A literal closes at its end** iff no backslash is left over, whatever stands in front as long
as none is left over there. -/
theorem closesAtEnd_iff_guarded : ∀ (cs : List Char) {pre : List Char},
    Even (trailingBackslashes pre) → (ClosesAtEnd cs ↔ Guarded pre cs)
  | [], pre, h => by
    rw [guarded_nil]
    exact iff_of_true rfl h
  | c :: cs, pre, h => by
    rw [guarded_cons]
    by_cases hslash : c = '\\'
    · subst hslash
      -- now one is left over, until the next character is taken with it
      have hodd : ¬ Even (trailingBackslashes (pre ++ ['\\'])) := by
        rw [trailingBackslashes_slash, Nat.even_add_one, not_not]
        exact h
      cases cs with
      | nil =>
        rw [guarded_nil]
        exact iff_of_false not_closesAtEnd_slash fun hguarded => hodd hguarded.2
      | cons d cs =>
        rw [guarded_cons]
        -- the next character is a quote of the value, and then it is lost, or the two are a pair
        by_cases hquote : d = '\''
        · subst hquote
          exact iff_of_false (not_closesAtEnd_slash_quote cs)
            fun hguarded => hodd (hguarded.2.1 rfl)
        · have heven : Even (trailingBackslashes (pre ++ ['\\'] ++ [d])) := by
            by_cases hslash : d = '\\'
            · rw [hslash, trailingBackslashes_slash, Nat.even_add_one]
              exact hodd
            · rw [trailingBackslashes_of_ne _ hslash]
              exact Even.zero
          rw [closesAtEnd_slash_of_ne hquote, closesAtEnd_iff_guarded cs heven]
          exact ⟨fun hcs => ⟨fun heq => absurd heq (by decide), fun heq => absurd heq hquote, hcs⟩,
            fun hguarded => hguarded.2.2⟩
    · -- any other character ends the run in front of it, so nothing is left over behind it
      have heven : Even (trailingBackslashes (pre ++ [c])) := by
        rw [trailingBackslashes_of_ne _ hslash]
        exact Even.zero
      have hclose : ClosesAtEnd (c :: cs) ↔ ClosesAtEnd cs := by
        by_cases hquote : c = '\''
        · subst hquote
          exact closesAtEnd_quote
        · exact closesAtEnd_of_ne hslash hquote
      rw [hclose, closesAtEnd_iff_guarded cs heven]
      exact ⟨fun hcs => ⟨fun _ => h, hcs⟩, fun hguarded => hguarded.2⟩

/-! ### The main statement -/

/-- **When quotes behind backslashes are safe.** The text of a string is one literal iff every quote
of the value, and its end, comes behind an even number of backslashes. -/
theorem backslash_literal_iff (v : String) :
    ∃ t, Sql.text Sql.Quoter.backslash (.literal (.string v)) = .ok t ∧
      (IsBackslashLiteral t.toList ↔
        ∀ a b, v.toList = a ++ b → (b = [] ∨ b.head? = some '\'') →
          Even (trailingBackslashes a)) := by
  refine ⟨_, Sql.text_string "\\'" v, ?_⟩
  -- in front of the value stands the opening quote, and no backslash
  have hguarded : ClosesAtEnd v.toList ↔ Guarded [] v.toList :=
    closesAtEnd_iff_guarded v.toList Even.zero
  rw [String.toList_ofList]
  calc IsBackslashLiteral ('\'' :: Sql.escaped ['\\', '\''] v.toList ++ ['\''])
      ↔ ClosesAtEnd v.toList := by
        constructor
        · rintro ⟨inside, heq, hclose⟩
          rwa [← (List.cons.inj heq).2] at hclose
        · intro hclose
          exact ⟨_, rfl, hclose⟩
    _ ↔ _ := hguarded

/-- **Backslashes are not safe.** The text of a single backslash ends inside of its literal. Another
value closes its literal, and goes on outside of it. -/
theorem backslash_leaves_literal :
    Sql.text Sql.Quoter.backslash (.literal (.string "\\")) = .ok "'\\'" ∧
      ¬ IsBackslashLiteral "'\\'".toList ∧
      Sql.text Sql.Quoter.backslash (.literal (.string "\\' or 1 = 1")) = .ok "'\\\\' or 1 = 1'" ∧
      behindLiteral "\\\\' or 1 = 1'".toList = some " or 1 = 1'".toList := by
  refine ⟨Sql.text_string "\\'" "\\", ?_, Sql.text_string "\\'" "\\' or 1 = 1", by decide⟩
  -- the only text inside is the one behind the first quote
  rintro ⟨inside, heq, hclose⟩
  have hinside : "\\'".toList = inside := (List.cons.inj heq).2
  rw [← hinside] at hclose
  exact absurd hclose (by decide)

end WhereClause
