import WhereClause.Proofs.Quotation

/-!
# No comment opens

Two adjacent minus signs outside of literals would open a comment, and hide the rest of an SQL text
from the database. The only texts with a minus sign outside of literals are the sign itself and
negative numbers, and these come right behind another minus sign in one place only: as the operand
of the sign. There a blank keeps them apart. So wherever two minus signs are adjacent, they are
characters of a string.

A place in a text is inside of a literal iff the number of quotes in front of it is odd, a quote of
a string being written as two. This makes the statement one about counting, `Calm`, that holds of
two texts in sequence if it holds of both and no minus sign of the first meets one of the second.

* `isSome_readOutside` — a text ends outside of literals iff its quotes are even in number;
* `Calm` — texts without adjacent minus signs outside of literals;
* `Sql.isCalm_text` — an SQL text is calm if its names are plain.
-/

namespace WhereClause

/-! ### Inside and outside -/

mutual

/-- **A text ends outside of literals** iff it has an even number of quotes. -/
theorem isSome_readOutside : ∀ cs : List Char,
    (readOutside cs).isSome ↔ Even (cs.count '\'')
  | [] => by simp [readOutside]
  | c :: cs => by
    by_cases hc : c = '\''
    · subst hc
      rw [readOutside, if_pos rfl, isSome_readInside, List.count_cons_self, Nat.even_add_one]
    · rw [readOutside, if_neg hc, Option.isSome_map, isSome_readOutside, List.count_cons_of_ne hc]

/-- The same from inside of a literal, which the next quote may close. -/
theorem isSome_readInside (value : List Char) : ∀ cs : List Char,
    (readInside value cs).isSome ↔ ¬ Even (cs.count '\'')
  | [] => by simp [readInside]
  | [c] => by
    by_cases hc : c = '\''
    · subst hc
      simp [readInside, readOutside]
    · simp [readInside_of_ne hc, readInside, List.count_cons_of_ne hc]
  | c :: d :: cs => by
    by_cases hc : c = '\''
    · subst hc
      by_cases hd : d = '\''
      · -- a quote of the value is written as two
        subst hd
        rw [readInside, isSome_readInside, List.count_cons_self, List.count_cons_self,
          Nat.even_add_one, Nat.even_add_one, not_not]
      · have hclose : Unquoted (d :: cs) := fun hhead => hd (Option.some.inj hhead)
        rw [readInside_close hclose, Option.isSome_map, isSome_readOutside, List.count_cons_self,
          Nat.even_add_one, not_not]
    · rw [readInside_of_ne hc, isSome_readInside, List.count_cons_of_ne hc]

end

/-! ### Calm texts -/

/-- **No two adjacent minus signs outside of literals**, all literals being closed: the quotes are
even in number, and odd in front of adjacent minus signs. -/
structure Calm (cs : List Char) : Prop where
  even : Even (cs.count '\'')
  inside : ∀ a b, cs = a ++ '-' :: '-' :: b → ¬ Even (a.count '\'')

/-- A text without quotes and minus signs. -/
def Plain (cs : List Char) : Prop :=
  '\'' ∉ cs ∧ '-' ∉ cs

instance (cs : List Char) : Decidable (Plain cs) :=
  inferInstanceAs (Decidable (_ ∧ _))

theorem Plain.head?_ne {cs : List Char} (h : Plain cs) : cs.head? ≠ some '-' :=
  fun hhead => h.2 (List.mem_of_mem_head? hhead)

namespace Calm

variable {a b : List Char}

/-- **Two calm texts in sequence are calm**, unless a minus sign of one meets one of the other. -/
theorem append (ha : Calm a) (hb : Calm b) (hmeet : a.getLast? = some '-' → b.head? ≠ some '-') :
    Calm (a ++ b) := by
  refine ⟨?_, ?_⟩
  · rw [List.count_append]
    exact ha.even.add hb.even
  · intro p r heq
    rcases List.append_eq_append_iff.mp heq with ⟨c, rfl, hright⟩ | ⟨c, rfl, hleft⟩
    · -- both signs are in the second text, in front of which there is an even number of quotes
      rw [List.count_append, Nat.even_add]
      exact fun hiff => hb.inside c r hright (hiff.mp ha.even)
    · -- the first sign is in the first text, so the signs are both there or on either side of the
      -- border
      cases c with
      | nil => exact absurd (by simp) (hb.inside [] r hleft.symm)
      | cons x c =>
        obtain ⟨rfl, hrest⟩ := List.cons.inj hleft
        cases c with
        | nil =>
          -- there is one sign at the end of the first text and one at the start of the second
          have hhead : b.head? = some '-' := congrArg List.head? hrest.symm
          exact absurd hhead (hmeet (by simp))
        | cons y c =>
          obtain ⟨rfl, -⟩ := List.cons.inj hrest
          exact ha.inside p c rfl

/-- Without a minus sign there are no two of them. -/
theorem of_plain (h : Plain a) : Calm a := by
  refine ⟨?_, ?_⟩
  · rw [List.count_eq_zero_of_not_mem h.1]
    exact Even.zero
  · rintro p r rfl
    exact absurd (by simp) h.2

/-- The sign by itself. -/
theorem sign : Calm ['-'] := by
  refine ⟨by simp, ?_⟩
  intro p r heq
  have hlength := congrArg List.length heq
  simp at hlength
  omega

/-- A plain text in front meets no minus sign. -/
theorem plain_append (ha : Plain a) (hb : Calm b) : Calm (a ++ b) :=
  (of_plain ha).append hb fun hlast => absurd (List.mem_of_getLast? hlast) ha.2

/-- Nor does one behind. -/
theorem append_plain (ha : Calm a) (hb : Plain b) : Calm (a ++ b) :=
  ha.append (of_plain hb) fun _ => hb.head?_ne

/-- A number is calm: if it has a sign, that stands in front. -/
theorem of_isSigned (h : IsSigned a) : Calm a := by
  obtain ⟨sign, ds, rfl, hsign, hds⟩ := h
  have hplain : Plain ds := by
    refine ⟨fun hmem => ?_, fun hmem => ?_⟩
    · exact absurd (hds _ hmem) (by decide)
    · exact absurd (hds _ hmem) (by decide)
  rcases hsign with rfl | rfl
  · exact of_plain hplain
  · exact Calm.sign.append_plain hplain

/-- In a string whose quotes are doubled, whole pairs of them stand in front of a minus sign. -/
theorem even_of_escaped {cs p r : List Char}
    (h : Sql.escaped ['\'', '\''] cs ++ ['\''] = p ++ '-' :: r) : Even (p.count '\'') := by
  induction cs generalizing p with
  | nil =>
    rcases List.cons_eq_append_iff.mp h with ⟨rfl, -⟩ | ⟨p', -, hrest⟩
    · exact Even.zero
    · -- behind the closing quote there is no minus sign
      exact absurd hrest (by simp)
  | cons c cs ih =>
    by_cases hc : c = '\''
    · -- neither quote of the pair is the minus sign, so both are in front of it
      subst hc
      have h : '\'' :: '\'' :: (Sql.escaped ['\'', '\''] cs ++ ['\'']) = p ++ '-' :: r := h
      rcases List.cons_eq_append_iff.mp h with ⟨-, hsign⟩ | ⟨p', rfl, h'⟩
      · exact absurd (List.cons.inj hsign).1 (by decide)
      rcases List.cons_eq_append_iff.mp h' with ⟨-, hsign⟩ | ⟨p'', rfl, h''⟩
      · exact absurd (List.cons.inj hsign).1 (by decide)
      rw [List.count_cons_self, List.count_cons_self, Nat.even_add_one, Nat.even_add_one, not_not]
      exact ih h''
    · have h : c :: (Sql.escaped ['\'', '\''] cs ++ ['\'']) = p ++ '-' :: r := by
        simpa [Sql.escaped, hc] using h
      rcases List.cons_eq_append_iff.mp h with ⟨rfl, -⟩ | ⟨p', rfl, h'⟩
      · exact Even.zero
      · rw [List.count_cons_of_ne hc]
        exact ih h'

/-- Quotes of a value come in pairs. -/
theorem even_count_escaped (cs : List Char) :
    Even ((Sql.escaped ['\'', '\''] cs).count '\'') := by
  induction cs with
  | nil => exact Even.zero
  | cons c cs ih =>
    by_cases hc : c = '\'' <;> simp_all [Sql.escaped]

/-- **A literal is calm**, whatever its value. -/
theorem literal (cs : List Char) : Calm ('\'' :: Sql.escaped ['\'', '\''] cs ++ ['\'']) := by
  refine ⟨?_, ?_⟩
  · have hinner := even_count_escaped cs
    simp [hinner]
  · -- the opening quote makes the even number of those inside an odd one
    intro p r heq
    rcases List.cons_eq_append_iff.mp heq with ⟨-, hsign⟩ | ⟨p', rfl, h⟩
    · exact absurd (List.cons.inj hsign).1 (by decide)
    · rw [List.count_cons_self, Nat.even_add_one, not_not]
      exact even_of_escaped h

end Calm

/-! ### Calm renderings -/

namespace Sql

/-- The text, if there is one, is calm. -/
def IsCalm (x : Except SqlError String) : Prop :=
  ∀ t, x = .ok t → Calm t.toList

namespace IsCalm

variable {x y : Except SqlError String}

theorem error {e : SqlError} : IsCalm (.error e) := by
  rintro _ ⟨⟩

theorem ok {s : String} (h : Calm s.toList) : IsCalm (.ok s) := by
  rintro _ ⟨⟩
  exact h

/-- A plain text in front of a text, if there is one. -/
theorem plain_joined {s : String} (hs : Plain s.toList) (hx : IsCalm x) :
    IsCalm (joined (.ok s) x) := by
  intro t ht
  obtain ⟨a, ha, rfl⟩ := joined_ok_eq_ok.mp ht
  rw [String.toList_append]
  exact (hx a ha).plain_append hs

theorem closed (hx : IsCalm x) {s : String} (hs : Plain s.toList) : IsCalm (joined x (.ok s)) := by
  intro t ht
  obtain ⟨a, ha, rfl⟩ := joined_ok_right_eq_ok.mp ht
  rw [String.toList_append]
  exact (hx a ha).append_plain hs

/-- A plain text keeps two others apart. -/
theorem glued (hx : IsCalm x) {s : String} (hs : Plain s.toList) (hne : s.toList ≠ [])
    (hy : IsCalm y) : IsCalm (joined x (joined (.ok s) y)) := by
  intro t ht
  obtain ⟨a, c, ha, hc, rfl⟩ := joined_eq_ok.mp ht
  obtain ⟨b, hb, rfl⟩ := joined_ok_eq_ok.mp hc
  rw [String.toList_append, String.toList_append]
  refine (hx a ha).append ((hy b hb).plain_append hs) fun _ hhead => ?_
  rw [List.head?_append_of_ne_nil _ hne] at hhead
  exact hs.head?_ne hhead

/-- **The sign and its operand**: a blank keeps two signs apart. -/
theorem negated (hx : IsCalm x) : IsCalm (joined (.ok "-") (x.map negated)) := by
  intro t ht
  obtain ⟨b, hb, rfl⟩ := joined_ok_eq_ok.mp ht
  cases x with
  | error e => cases hb
  | ok a =>
    cases hb
    rw [String.toList_append]
    -- a blank is put in just where the operand starts with a sign
    by_cases hsign : a.toList.head? = some '-'
    · rw [Sql.negated, if_pos hsign, String.toList_append]
      refine Calm.sign.append ((hx a rfl).plain_append (by decide)) fun _ hhead => ?_
      exact absurd (Option.some.inj hhead) (by decide)
    · rw [Sql.negated, if_neg hsign]
      exact Calm.sign.append (hx a rfl) fun _ => hsign

/-- Further members of a list may follow anything. -/
theorem followed (hx : IsCalm x) {es : List Expr} (hes : IsCalm (moreText Quoter.doubled es)) :
    IsCalm (joined x (moreText Quoter.doubled es)) := by
  intro t ht
  obtain ⟨a, b, ha, hb, rfl⟩ := joined_eq_ok.mp ht
  rw [String.toList_append]
  exact (hx a ha).append (hes b hb) fun _ => head?_moreText_ne doubled_steady (by decide) es b hb

end IsCalm

/-- Operators are written without quotes and minus signs. -/
theorem plain_sqlBinary? {k : Kind} {spelling : String} (h : k.sqlBinary? = some spelling) :
    Plain (" " ++ spelling ++ " ").toList := by
  cases k <;> cases h <;> decide

/-- No name of a leaf has a quote or a minus sign in it. -/
def NamesPlain (ls : List Leaf) : Prop :=
  ∀ l ∈ ls, ∀ name ∈ l.name?, Plain name.toList

/-- **The text of a leaf is calm**: numbers have one sign at most, and strings are literals. -/
theorem isCalm_leaf (l : Leaf) (hname : ∀ name ∈ l.name?, Plain name.toList) :
    IsCalm (text Quoter.doubled (.leaf l)) := by
  cases l with
  | identifier name =>
    rw [text_identifier]
    exact .ok (.of_plain (hname name rfl))
  | parameter name =>
    rw [text_parameter]
    refine .ok (.of_plain ?_)
    obtain ⟨hquote, hminus⟩ := hname name rfl
    constructor <;> simp [hquote, hminus]
  | literal v =>
    cases v with
    | null =>
      rw [text_null]
      exact .ok (.of_plain (by decide))
    | boolean b =>
      rw [text_boolean]
      exact .error
    | integer n =>
      rw [text_integer]
      exact .ok (.of_isSigned (isSigned_repr n))
    | decimal d =>
      rw [text_decimal]
      exact .ok (.of_isSigned d.isSigned_text)
    | string s =>
      rw [Quoter.doubled, text_string]
      refine .ok ?_
      rw [String.toList_ofList]
      exact .literal s.toList

mutual

/-- **The text of a tree is calm** if its names are plain. -/
theorem isCalm_text : ∀ e : Expr, NamesPlain e.leaves → IsCalm (text Quoter.doubled e)
  | .leaf l, h => isCalm_leaf l (h l (List.mem_singleton.mpr rfl))
  | .unary op x, h => by
    have hx := isCalm_text x h
    rw [text_unary doubled_steady]
    -- only the minus sign brings a sign of its own
    cases hk : op.kind with
    | minus => exact hx.negated
    | kwNot => exact hx.plain_joined (by decide)
    | _ => exact .error
  | .binary l op r, h => by
    obtain ⟨hleft, hright⟩ := List.forall_mem_append.mp h
    have hl := isCalm_text l hleft
    have hr := isCalm_text r hright
    rw [text_binary doubled_steady]
    split
    · -- what stands between the two sides of `in` is plain, with or without the word
      have hglue : ∀ b : Bool, Plain (if b then " " else " in ").toList ∧
          (if b then " " else " in ").toList ≠ [] := by decide
      cases r with
      | list items =>
        exact hl.glued (by decide) (by decide) ((isCalm_items items hright).closed (by decide))
      | _ => exact hl.glued (hglue _).1 (hglue _).2 hr
    · split
      · exact (hl.glued (by decide) (by decide) hr).plain_joined (by decide)
      · cases hop : op.kind.sqlBinary? with
        | none => exact .error
        | some spelling => exact hl.glued (plain_sqlBinary? hop) (by simp) hr
  | .grouping x, h => by
    rw [text_grouping doubled_steady]
    exact ((isCalm_text x h).closed (by decide)).plain_joined (by decide)
  | .call callee close args, h => by
    obtain ⟨hcallee, hargs⟩ := List.forall_mem_append.mp h
    rw [text_call doubled_steady]
    exact (isCalm_text callee hcallee).glued (by decide) (by decide)
      ((isCalm_items args hargs).closed (by decide))
  | .list items, _ => by
    rw [text_list]
    exact .error

/-- The same for the members of a list. -/
theorem isCalm_items : ∀ es : List Expr, NamesPlain (Expr.leavesOf es) →
    IsCalm (itemsText Quoter.doubled es)
  | [], _ => by
    rw [itemsText_nil]
    exact .ok (.of_plain (by decide))
  | e :: es, h => by
    obtain ⟨he, hes⟩ := List.forall_mem_append.mp h
    rw [itemsText_cons doubled_steady]
    exact (isCalm_text e he).followed (isCalm_more es hes)

/-- The same for further members, each behind a comma. -/
theorem isCalm_more : ∀ es : List Expr, NamesPlain (Expr.leavesOf es) →
    IsCalm (moreText Quoter.doubled es)
  | [], _ => by
    rw [moreText_nil]
    exact .ok (.of_plain (by decide))
  | e :: es, h => by
    obtain ⟨he, hes⟩ := List.forall_mem_append.mp h
    rw [moreText_cons doubled_steady]
    exact ((isCalm_text e he).followed (isCalm_more es hes)).plain_joined (by decide)

end

end Sql

/-! ### The main statement -/

/-- **No comment opens.** Names apart, wherever an SQL text has two adjacent minus signs, the text
in front of them ends inside of a literal. -/
theorem inside_of_adjacent_minus {e : Expr} {t : String} {a b : List Char}
    (hnames : ∀ l ∈ e.leaves, ∀ name ∈ l.name?, '\'' ∉ name.toList ∧ '-' ∉ name.toList)
    (ht : Sql.text Sql.Quoter.doubled e = .ok t) (heq : t.toList = a ++ '-' :: '-' :: b) :
    readOutside a = none := by
  have hodd : ¬ Even (a.count '\'') := (Sql.isCalm_text e hnames t ht).inside a b heq
  rw [← isSome_readOutside] at hodd
  exact Option.not_isSome_iff_eq_none.mp hodd

/-- Minus signs at the start of the operand of another, the last of them that of a negative number,
and a string with two of them behind a quote. -/
def signsExample : Expr :=
  let minus := Token.ofKind .minus "-"
  .binary (.unary minus (.binary (.unary minus (.literal (.integer (-1)))) (Token.ofKind .less "<")
      (.identifier "x")))
    (Token.ofKind .equal "=") (.literal (.string "a'--"))

theorem inside_of_adjacent_minus_signsExample :
    Sql.text Sql.Quoter.doubled signsExample = .ok "- - -1 < x = 'a''--'" ∧
      readOutside "- - -1 < x = 'a''".toList = none := by
  have hnames : ∀ l ∈ signsExample.leaves, ∀ name ∈ l.name?,
      '\'' ∉ name.toList ∧ '-' ∉ name.toList := by
    have hleaves : signsExample.leaves =
        [.literal (.integer (-1)), .identifier "x", .literal (.string "a'--")] := rfl
    simp [hleaves, Leaf.name?]
  have htext : Sql.text Sql.Quoter.doubled signsExample = .ok "- - -1 < x = 'a''--'" := by cbv
  exact ⟨htext, inside_of_adjacent_minus hnames htext (b := ['\'']) (by decide)⟩

end WhereClause
