import WhereClause.Proofs.References

/-!
# What a source refers to

The names that a tree refers to can be read off the tokens of its source. Its identifiers are the
maximal dotted names among them that no parenthesis follows, for with a parenthesis behind it a name
is a callee. Its parameters are the parameter tokens.

A name ends at every token that is neither an identifier nor a dot, and so do the productions of the
grammar: what they join is held apart by operators, commas and parentheses. The names of a list of
tokens are therefore those of its parts, one part after the other.

* `IsMaximalName` — a dotted name that the tokens around it do not make longer;
* `FreeNameAt` — such a name without a parenthesis behind it, and where it starts;
* `freeNameAt_append_cons` — the names on both sides of a token that belongs to none;
* `Derives.inOrder_freeNames` — the names of the tokens are those in the tree that they spell.
-/

namespace WhereClause

/-! ### Maximal names -/

/-- **A maximal dotted name**: the tokens between two other lists make up a name, and they do not
with more tokens from either side. -/
structure IsMaximalName (before segment after : List Token) (name : String) : Prop where
  named : Named segment name
  maximal : ∀ front back longer, front <:+ before → back <+: after →
    Named (front ++ segment ++ back) longer → front = [] ∧ back = []

/-- **A name that is not called**: a maximal dotted name with no parenthesis directly behind it. It
is found at the place of its first token. -/
def FreeNameAt (ts : List Token) (i : Nat) (name : String) : Prop :=
  ∃ before segment after, ts = before ++ segment ++ after ∧ i = before.length ∧
    IsMaximalName before segment after name ∧ ∀ t ∈ after.head?, t.kind ≠ .leftParen

/-- No token of a name is anything but a word or a dot. -/
theorem Named.not_mem {ts : List Token} {name : String} {t : Token} (h : Named ts name)
    (ht : t.isNamePart = false) : t ∉ ts := by
  intro hmem
  rw [h.isNamePart t hmem] at ht
  cases ht

/-- A name has a token. -/
theorem Named.ne_nil {ts : List Token} {name : String} (h : Named ts name) : ts ≠ [] := by
  obtain ⟨t, us, rfl, -⟩ := h.starts
  exact List.cons_ne_nil t us

/-- The name that tokens make up is their lexemes with dots between them. -/
theorem Named.eq_foldl {ts : List Token} {name : String} (h : Named ts name) :
    name = ts.foldl (fun name t => name ++ if t.kind = .dot then "." else t.lexeme) "" := by
  induction h with
  | one ht => simp [ht]
  | more _ hdot ht ih =>
    rw [List.foldl_append, ← ih]
    simp [hdot, ht]

/-- Tokens make up one name only. -/
theorem Named.unique {ts : List Token} {name name' : String} (h : Named ts name)
    (h' : Named ts name') : name = name' :=
  h.eq_foldl.trans h'.eq_foldl.symm

/-! ### Separators -/

section Split

variable {α : Type} {xs ys us vs : List α} {x : α}

/-- What starts a list and does not have an element ends before it. -/
theorem exists_of_append_eq_of_not_mem (h : xs ++ ys = us ++ x :: vs) (hx : x ∉ xs) :
    ∃ c, us = xs ++ c ∧ ys = c ++ x :: vs := by
  rcases List.append_eq_append_iff.mp h with ⟨c, rfl, rfl⟩ | ⟨c, rfl, hc⟩
  · exact ⟨c, rfl, rfl⟩
  · cases c with
    | nil => exact ⟨[], by rw [List.append_nil, List.append_nil], hc.symm⟩
    | cons d c =>
      obtain ⟨rfl, -⟩ := List.cons.inj hc
      exact absurd (List.mem_append_right us List.mem_cons_self) hx

/-- What ends a list and does not have an element starts behind it. -/
theorem exists_of_eq_append_of_not_mem (h : ys ++ xs = us ++ x :: vs) (hx : x ∉ xs) :
    ∃ c, ys = us ++ x :: c ∧ vs = c ++ xs := by
  rcases List.append_eq_append_iff.mp h with ⟨c, rfl, rfl⟩ | ⟨c, rfl, hc⟩
  · exact absurd (List.mem_append_right c List.mem_cons_self) hx
  · cases c with
    | nil =>
      obtain rfl : x :: vs = xs := hc
      exact absurd List.mem_cons_self hx
    | cons d c =>
      obtain ⟨rfl, rfl⟩ := List.cons.inj hc
      exact ⟨c, rfl, rfl⟩

end Split

section Separators

variable {t : Token} {us vs before segment after : List Token} {name : String}

/-- What lies beyond a separator behind a name does not matter for it. -/
theorem isMaximalName_append_cons_iff (ht : t.isNamePart = false) :
    IsMaximalName before segment (after ++ t :: vs) name ↔
      IsMaximalName before segment after name := by
  constructor
  · rintro ⟨hnamed, hmaximal⟩
    refine ⟨hnamed, fun front back longer hfront hback hlonger => ?_⟩
    exact hmaximal front back longer hfront (hback.trans (List.prefix_append _ _)) hlonger
  · rintro ⟨hnamed, hmaximal⟩
    refine ⟨hnamed, fun front back longer hfront hback hlonger => ?_⟩
    obtain ⟨rest, hrest⟩ := hback
    -- a longer name does not reach over the separator
    have hnot : t ∉ back := fun hmem =>
      hlonger.not_mem ht (List.mem_append_right _ hmem)
    obtain ⟨c, hafter, -⟩ := exists_of_append_eq_of_not_mem hrest hnot
    exact hmaximal front back longer hfront ⟨c, hafter.symm⟩ hlonger

/-- What lies beyond a separator in front of a name does not matter for it. -/
theorem isMaximalName_cons_append_iff (ht : t.isNamePart = false) :
    IsMaximalName (us ++ t :: before) segment after name ↔
      IsMaximalName before segment after name := by
  constructor
  · rintro ⟨hnamed, hmaximal⟩
    refine ⟨hnamed, fun front back longer hfront hback hlonger => ?_⟩
    refine hmaximal front back longer (hfront.trans ?_) hback hlonger
    exact ⟨us ++ [t], by simp⟩
  · rintro ⟨hnamed, hmaximal⟩
    refine ⟨hnamed, fun front back longer hfront hback hlonger => ?_⟩
    obtain ⟨rest, hrest⟩ := hfront
    -- a longer name does not reach back over the separator
    have hnot : t ∉ front := fun hmem =>
      hlonger.not_mem ht (List.mem_append_left _ (List.mem_append_left _ hmem))
    obtain ⟨c, -, hbefore⟩ := exists_of_eq_append_of_not_mem hrest hnot
    exact hmaximal front back longer ⟨c, hbefore.symm⟩ hback hlonger

/-- What stands directly behind some tokens, up to a separator. -/
theorem head?_append_cons (ts : List Token) (t : Token) (us : List Token) :
    (ts ++ t :: us).head? = (ts ++ [t]).head? := by
  cases ts <;> rfl

/-- **The free names on both sides of a separator.** In front of it a name has to be free also with
the separator behind it. -/
theorem freeNameAt_append_cons (ht : t.isNamePart = false) (i : Nat) :
    FreeNameAt (us ++ t :: vs) i name ↔
      (∃ before segment after, us = before ++ segment ++ after ∧ i = before.length ∧
        IsMaximalName before segment after name ∧
        ∀ t' ∈ (after ++ [t]).head?, t'.kind ≠ .leftParen) ∨
      ∃ j, i = us.length + 1 + j ∧ FreeNameAt vs j name := by
  constructor
  · rintro ⟨before, segment, after, heq, rfl, hname, hfree⟩
    -- the name ends before the separator, or else it starts behind it
    rcases List.append_eq_append_iff.mp heq with ⟨c, hfront, hback⟩ | ⟨c, rfl, rfl⟩
    · cases c with
      | nil =>
        obtain rfl : t :: vs = after := hback
        rw [List.append_nil] at hfront
        refine .inl ⟨before, segment, [], ?_, rfl, ?_, hfree⟩
        · rw [List.append_nil, hfront]
        · exact (isMaximalName_append_cons_iff ht).mp hname
      | cons t' c =>
        obtain ⟨rfl, rfl⟩ := List.cons.inj hback
        obtain ⟨d, rfl, rfl⟩ := exists_of_eq_append_of_not_mem hfront (hname.named.not_mem ht)
        refine .inr ⟨d.length, ?_, d, segment, after, rfl, rfl, ?_, hfree⟩
        · rw [List.length_append, List.length_cons]
          omega
        · exact (isMaximalName_cons_append_iff ht).mp hname
    · rw [head?_append_cons] at hfree
      exact .inl ⟨before, segment, c, rfl, rfl, (isMaximalName_append_cons_iff ht).mp hname, hfree⟩
  · rintro (⟨before, segment, after, rfl, rfl, hname, hfree⟩ |
      ⟨j, rfl, before, segment, after, rfl, rfl, hname, hfree⟩)
    · refine ⟨before, segment, after ++ t :: vs, ?_, rfl, ?_, ?_⟩
      · rw [List.append_assoc (before ++ segment)]
      · exact (isMaximalName_append_cons_iff ht).mpr hname
      · rw [head?_append_cons]
        exact hfree
    · refine ⟨us ++ t :: before, segment, after, ?_, ?_, ?_, hfree⟩
      · simp
      · rw [List.length_append, List.length_cons]
        omega
      · exact (isMaximalName_cons_append_iff ht).mpr hname

end Separators

/-! ### Names of parts -/

/-- A name starts at one of the tokens. -/
theorem FreeNameAt.lt {ts : List Token} {i : Nat} {name : String} (h : FreeNameAt ts i name) :
    i < ts.length := by
  obtain ⟨before, segment, after, rfl, rfl, hname, -⟩ := h
  have hpos := List.length_pos_iff.mpr hname.named.ne_nil
  rw [List.length_append, List.length_append]
  omega

/-- There are no names without tokens. -/
theorem inOrder_freeNames_nil : InOrder (· < ·) (FreeNameAt []) [] :=
  .nil fun _ _ h => absurd h.lt (Nat.not_lt_zero _)

/-- Whether a token holds names apart and opens no call. -/
def Token.separates (t : Token) : Bool :=
  !t.isNamePart && t.kind ≠ .leftParen

/-- Operators hold names apart. -/
theorem Token.separates_of_isOperator {t : Token} (h : t.isOperator) : t.separates := by
  unfold isOperator at h
  cases hk : t.kind <;> simp_all [separates, isNamePart]

/-- Literals hold names apart. -/
theorem Token.separates_of_value? {t : Token} {v : Value} (h : t.value? = some v) :
    t.separates := by
  unfold value? at h
  cases hk : t.kind <;> simp_all [separates, isNamePart]

section Parts

variable {t : Token} {us vs : List Token} {xs ys : List String}

/-- **Two parts with a separator between them** have their own names, one part behind the other. -/
theorem InOrder.freeNames_append (ht : t.separates)
    (hx : InOrder (· < ·) (FreeNameAt us) xs) (hy : InOrder (· < ·) (FreeNameAt vs) ys) :
    InOrder (· < ·) (FreeNameAt (us ++ t :: vs)) (xs ++ ys) := by
  obtain ⟨hpart, hparen⟩ : t.isNamePart = false ∧ t.kind ≠ .leftParen := by
    simpa [Token.separates] using ht
  have hbehind : InOrder (· < ·) (fun i name => ∃ j, i = us.length + 1 + j ∧ FreeNameAt vs j name)
      ys := hy.place (us.length + 1 + ·) (fun i j => (Nat.add_lt_add_left · _)) fun _ _ => Iff.rfl
  refine hx.append hbehind (fun i name => ?_) ?_
  · -- a name is free in front of the separator if it is without it
    rw [freeNameAt_append_cons hpart]
    refine or_congr_left ⟨?_, ?_⟩
    · rintro ⟨before, segment, after, heq, hi, hname, hfree⟩
      refine ⟨before, segment, after, heq, hi, hname, fun t' ht' => hfree t' ?_⟩
      rw [List.head?_append, ht']
      rfl
    · rintro ⟨before, segment, after, heq, hi, hname, hfree⟩
      refine ⟨before, segment, after, heq, hi, hname, ?_⟩
      cases after with
      | nil =>
        rintro t' ⟨⟩
        exact hparen
      | cons t' after => exact hfree
  · -- the names of the first part start before the separator
    rintro i j name name' hi ⟨k, rfl, -⟩
    have hlt := hi.lt
    omega

/-- A separator at the end adds no name. -/
theorem InOrder.freeNames_concat (hx : InOrder (· < ·) (FreeNameAt us) xs) (ht : t.separates) :
    InOrder (· < ·) (FreeNameAt (us ++ [t])) xs := by
  have happend := hx.freeNames_append ht inOrder_freeNames_nil
  rwa [List.append_nil] at happend

/-- **An opening parenthesis** with nothing in front of it but a callee leaves the names behind
it. -/
theorem InOrder.freeNames_open (ht : t.kind = .leftParen) (hus : us = [] ∨ ∃ name, Named us name)
    (hy : InOrder (· < ·) (FreeNameAt vs) ys) :
    InOrder (· < ·) (FreeNameAt (us ++ t :: vs)) ys := by
  have hpart : t.isNamePart = false := by simp [Token.isNamePart, ht]
  refine hy.place (us.length + 1 + ·) (fun i j => (Nat.add_lt_add_left · _)) fun i name => ?_
  rw [freeNameAt_append_cons hpart]
  -- no name in front of the parenthesis is free
  refine or_iff_right ?_
  rintro ⟨before, segment, after, rfl, -, hname, hfree⟩
  rcases hus with hnil | ⟨callee, hcallee⟩
  · exact hname.named.ne_nil (List.append_eq_nil_iff.mp (List.append_eq_nil_iff.mp hnil).1).2
  · -- a maximal name is the whole callee, so the parenthesis is directly behind it
    obtain ⟨-, rfl⟩ := hname.maximal before after callee (List.suffix_refl _) (List.prefix_refl _)
      hcallee
    exact hfree t rfl ht

/-- The parentheses of a call or a group leave the names between them. -/
theorem InOrder.freeNames_enclosed {opening close : Token} (hopening : opening.kind = .leftParen)
    (hclose : close.kind = .rightParen) (hus : us = [] ∨ ∃ name, Named us name)
    (hy : InOrder (· < ·) (FreeNameAt vs) ys) :
    InOrder (· < ·) (FreeNameAt (us ++ (opening :: vs ++ [close]))) ys := by
  have hseparates : close.separates := by simp [Token.separates, Token.isNamePart, hclose]
  exact (hy.freeNames_concat hseparates).freeNames_open hopening hus

/-- A name by itself is the only one. -/
theorem Named.inOrder_freeNames {ts : List Token} {name : String} (h : Named ts name) :
    InOrder (· < ·) (FreeNameAt ts) [name] := by
  refine .singleton (i := 0) fun i name' => ?_
  constructor
  · -- all of the tokens are a name, so a maximal one is all of them
    rintro ⟨before, segment, after, rfl, rfl, hname, -⟩
    obtain ⟨rfl, rfl⟩ :=
      hname.maximal before after name (List.suffix_refl _) (List.prefix_refl _) h
    rw [List.append_nil, List.nil_append] at h
    exact ⟨rfl, hname.named.unique h⟩
  · rintro ⟨rfl, rfl⟩
    refine ⟨[], ts, [], (List.append_nil ts).symm, rfl, ⟨h, ?_⟩, ?_⟩
    · intro front back longer hfront hback _
      exact ⟨List.suffix_nil.mp hfront, List.prefix_nil.mp hback⟩
    · rintro t ⟨⟩

end Parts

/-! ### Names in a tree -/

/-- **The free names among the tokens are the identifiers outside callees** in the tree that the
tokens spell, in the same order. -/
theorem Derives.inOrder_freeNames {r : Rule} {ts : List Token} {e : Expr} (h : Derives r ts e) :
    InOrder (· < ·) (FreeNameAt ts) (e.outerLeaves.filterMap Leaf.identifier?) := by
  -- Every production holds its parts apart with separators, and a name is a part of its own.
  induction h with
  | lift _ ih | plain _ ih => exact ih
  | chain _ hop _ ihl ihr =>
    have hseparates := Token.separates_of_isOperator (Token.isOperator_of_mem_tier hop)
    rw [Expr.outerLeaves, List.filterMap_append]
    exact ihl.freeNames_append hseparates ihr
  | @range _ _ op _ _ _ _ hop _ ihl ihr =>
    have hseparates : op.separates := by simp [Token.separates, Token.isNamePart, hop]
    rw [Expr.outerLeaves, List.filterMap_append]
    exact ihl.freeNames_append hseparates ihr
  | signed hop _ ih =>
    have hseparates := Token.separates_of_isOperator (Token.isOperator_of_sign hop)
    exact inOrder_freeNames_nil.freeNames_append hseparates ih
  | @parameter t hkind =>
    have hseparates : t.separates := by simp [Token.separates, Token.isNamePart, hkind]
    exact inOrder_freeNames_nil.freeNames_concat hseparates
  | literal hvalue =>
    exact inOrder_freeNames_nil.freeNames_concat (Token.separates_of_value? hvalue)
  | name h => exact h.inOrder_freeNames
  | members hopening _ hclose ih => exact ih.freeNames_enclosed hopening hclose (.inl rfl)
  | grouping hopening _ hclose ih => exact ih.freeNames_enclosed hopening hclose (.inl rfl)
  | callEmpty hname hopening hclose =>
    exact inOrder_freeNames_nil.freeNames_enclosed hopening hclose (.inr ⟨_, hname⟩)
  | call hname hopening _ hclose ih =>
    rw [List.append_assoc]
    exact ih.freeNames_enclosed hopening hclose (.inr ⟨_, hname⟩)
  | argument _ ih =>
    rw [Expr.outerLeaves, Expr.outerLeavesOf, Expr.outerLeavesOf, List.append_nil]
    exact ih
  | @arguments _ _ comma _ _ _ hcomma _ ihs ih =>
    have hseparates : comma.separates := by simp [Token.separates, Token.isNamePart, hcomma]
    rw [Expr.outerLeaves, Expr.outerLeavesOf_append, List.filterMap_append, Expr.outerLeavesOf,
      Expr.outerLeavesOf, List.append_nil]
    exact ihs.freeNames_append hseparates ih

/-! ### Parameters in a tree -/

/-- **A parameter among the tokens**, and where it stands. -/
def ParameterAt (ts : List Token) (i : Nat) (name : String) : Prop :=
  ∃ t, ts[i]? = some t ∧ t.kind = .parameter ∧ t.lexeme = name

/-- **The parameter tokens are the parameters outside callees** of a tree that has the leaves of
the tokens, as long as all callees are names. -/
theorem firstOccurrences_parameterAt {ts : List Token} {e : Expr} (hnamed : e.hasNamedCallees)
    (hleaves : e.leaves.filter Leaf.isUnnamed = ts.filterMap Token.leaf?) :
    FirstOccurrences (· < ·) (ParameterAt ts) e.parameters := by
  have hparameters : e.outerLeaves.filterMap Leaf.parameter? =
      ts.filterMap fun t => t.leaf?.bind Leaf.parameter? := by
    rw [← filterMap_filter_isUnnamed _ fun _ => rfl, e.filter_isUnnamed_outerLeaves hnamed, hleaves,
      List.filterMap_filterMap]
  -- a token makes the leaf at its own place, so the order of the tokens is that of the parameters
  rw [e.parameters_eq, hparameters]
  refine ((inOrder_getElem? ts).filterMap _).firstOccurrences.congr fun i name => ?_
  refine exists_congr fun t => and_congr_right fun _ => ?_
  rw [Option.bind_eq_some_iff, ← Token.leaf?_eq_parameter_iff]
  simp only [Leaf.parameter?_eq_some_iff, exists_eq_right]

/-! ### References of a tree and of its source -/

/-- **What a tree refers to**: the identifiers and the parameters outside callees, each once and in
the order of first occurrences from left to right. For a tree that was parsed, these are the dotted
names of its source that are not called, and its parameter tokens, in the order in which they first
appear. -/
theorem firstOccurrences_references (e : Expr) :
    FirstOccurrences Place.Precedes (fun p name => e.RefersAt p (.identifier name))
        e.identifiers ∧
      FirstOccurrences Place.Precedes (fun p name => e.RefersAt p (.parameter name))
        e.parameters ∧
      ∀ source, parse source = .ok e → ∃ tokens, scan source = .ok tokens ∧
        FirstOccurrences (· < ·) (FreeNameAt tokens) e.identifiers ∧
        FirstOccurrences (· < ·) (ParameterAt tokens) e.parameters := by
  refine ⟨e.firstOccurrences_identifiers, e.firstOccurrences_parameters, fun source h => ?_⟩
  obtain ⟨ts, n, hscan, -, hderives, -⟩ := exists_scan_of_parse h
  obtain ⟨tokens, hscan', -, hleaves⟩ := exists_scan_leaves_of_parse h
  obtain rfl : ts ++ [Token.eof n] = tokens := Except.ok.inj (hscan.symm.trans hscan')
  refine ⟨_, hscan, ?_, firstOccurrences_parameterAt hderives.hasNamedCallees hleaves⟩
  -- the end of the source is a separator like any other
  have heof : (Token.eof n).separates := rfl
  rw [e.identifiers_eq]
  exact (hderives.inOrder_freeNames.freeNames_concat heof).firstOccurrences

/-- A filter that calls functions, one of them by a dotted name, and has a column and a parameter
twice. -/
def callsExample : String :=
  "f(a.b, :p) > a.b and g.h(x, :q) in (:p, f)"

/-- The callees are left out, the column and the parameter come once, and a function that is not
called is a name like others. -/
theorem firstOccurrences_references_callsExample :
    ∃ e, parse callsExample = .ok e ∧ e.identifiers = ["a.b", "x", "f"] ∧
      e.parameters = ["p", "q"] ∧ ∃ tokens, scan callsExample = .ok tokens ∧
        FirstOccurrences (· < ·) (FreeNameAt tokens) ["a.b", "x", "f"] ∧
        FirstOccurrences (· < ·) (ParameterAt tokens) ["p", "q"] := by
  obtain ⟨e, hparse, hnames⟩ := exists_ok_of_any (x := parse callsExample)
    (p := fun e => e.identifiers = ["a.b", "x", "f"] && e.parameters = ["p", "q"])
    (by decide +kernel)
  obtain ⟨hidentifiers, hparameters⟩ : e.identifiers = ["a.b", "x", "f"] ∧
      e.parameters = ["p", "q"] := by simpa using hnames
  refine ⟨e, hparse, hidentifiers, hparameters, ?_⟩
  rw [← hidentifiers, ← hparameters]
  exact (firstOccurrences_references e).2.2 callsExample hparse

end WhereClause
