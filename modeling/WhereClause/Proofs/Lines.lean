import WhereClause.Proofs.Grammar

/-!
# Lines carry no meaning

A tree remembers the lines of its operators and closing parentheses, for the sake of messages only.
Two trees are the same up to lines when they become equal once all their tokens are moved to one
line. Such trees have the same leaves and the same nesting, and they are alike.

The grammar does not look at lines either, nor at the digits with which a number is spelled: it sees
of a token what `Token.bare` keeps. So tokens with the same bare forms derive the same tree up to
lines (`Derives.of_bare_eq`), which is how a tree is carried over from one text to another.

* `Expr.atLine` — the tree with all its tokens on one line;
* `Expr.alike_of_atLine_eq` — trees that are the same up to lines are alike;
* `Derives.of_bare_eq` — what is derived depends on the bare tokens only, up to lines.
-/

namespace WhereClause

/-! ### Tokens -/

namespace Token

variable {s t : Token}

@[simp] theorem kind_atLine (t : Token) (n : Nat) : (t.atLine n).kind = t.kind :=
  rfl

@[simp] theorem atLine_atLine (t : Token) (m n : Nat) : (t.atLine m).atLine n = t.atLine n :=
  rfl

/-- **What the grammar sees of a token**: everything but its line and the digits of a number. -/
def bare (t : Token) : Token where
  kind := t.kind
  lexeme := if t.kind = .number then "" else t.lexeme
  literal := t.literal
  line := 1

@[simp] theorem kind_bare (t : Token) : t.bare.kind = t.kind :=
  rfl

@[simp] theorem bare_atLine (t : Token) (n : Nat) : (t.atLine n).bare = t.bare :=
  rfl

theorem atLine_eq_iff {n : Nat} :
    s.atLine n = t.atLine n ↔ s.kind = t.kind ∧ s.lexeme = t.lexeme ∧ s.literal = t.literal := by
  simp [atLine]

/-- The kind can be seen. -/
theorem kind_eq_of_bare_eq (h : s.bare = t.bare) : s.kind = t.kind :=
  (mk.inj h).1

/-- Of a token that is no number, everything can be seen but its line. -/
theorem atLine_eq_of_bare_eq (h : s.bare = t.bare) (ht : t.kind ≠ .number) (n : Nat) :
    s.atLine n = t.atLine n := by
  obtain ⟨hkind, hlexeme, hliteral, -⟩ := mk.inj h
  rw [if_neg ht, if_neg (hkind ▸ ht)] at hlexeme
  exact atLine_eq_iff.mpr ⟨hkind, hlexeme, hliteral⟩

/-- Operators are no numbers. -/
theorem kind_ne_number_of_isOperator (h : t.isOperator) : t.kind ≠ .number := by
  intro hk
  simp [isOperator, hk] at h

/-- The value of a literal can be seen. -/
theorem value?_eq_of_bare_eq (h : s.bare = t.bare) : s.value? = t.value? := by
  obtain ⟨hkind, -, hliteral, -⟩ := mk.inj h
  rw [value?, value?, hkind, hliteral]

end Token

@[simp] theorem Value.alike_refl (v : Value) : v.alike v := by
  cases v <;> simp [Value.alike, Decimal.equals]

@[simp] theorem Leaf.alike_refl (l : Leaf) : l.alike l := by
  cases l <;> simp [Leaf.alike]

/-- Tokens that differ by their lines are alike. -/
theorem Token.alike_of_atLine_eq {s t : Token} {n : Nat} (h : s.atLine n = t.atLine n) :
    s.alike t := by
  obtain ⟨hkind, hlexeme, hliteral⟩ := Token.atLine_eq_iff.mp h
  rw [Token.alike, hkind, hlexeme, hliteral]
  cases t.literal <;> simp

/-! ### Trees -/

namespace Expr

mutual

/-- **A tree with all its tokens on one line.** -/
def atLine (n : Nat) : Expr → Expr
  | leaf l => leaf l
  | unary op x => unary (op.atLine n) (x.atLine n)
  | binary l op r => binary (l.atLine n) (op.atLine n) (r.atLine n)
  | grouping x => grouping (x.atLine n)
  | call callee close args => call (callee.atLine n) (close.atLine n) (atLineAll n args)
  | list items => list (atLineAll n items)

/-- Several trees with all their tokens on one line. -/
def atLineAll (n : Nat) : List Expr → List Expr
  | [] => []
  | e :: es => e.atLine n :: atLineAll n es

end

section AtLine

variable {n : Nat}

mutual

/-- The last line that tokens are put on is where they stay. -/
@[simp] theorem atLine_atLine (m : Nat) : ∀ e : Expr, (e.atLine m).atLine n = e.atLine n
  | .leaf l => rfl
  | .unary op x => by rw [atLine, atLine, atLine, Token.atLine_atLine, atLine_atLine m x]
  | .binary l op r => by
    rw [atLine, atLine, atLine, Token.atLine_atLine, atLine_atLine m l, atLine_atLine m r]
  | .grouping x => by rw [atLine, atLine, atLine, atLine_atLine m x]
  | .call callee close args => by
    rw [atLine, atLine, atLine, Token.atLine_atLine, atLine_atLine m callee,
      atLineAll_atLineAll m args]
  | .list items => by rw [atLine, atLine, atLine, atLineAll_atLineAll m items]

/-- The same for several trees. -/
theorem atLineAll_atLineAll (m : Nat) :
    ∀ es : List Expr, atLineAll n (atLineAll m es) = atLineAll n es
  | [] => rfl
  | e :: es => by
    rw [atLineAll, atLineAll, atLineAll, atLine_atLine m e, atLineAll_atLineAll m es]

end

mutual

/-- **Trees that are the same up to lines are alike.** -/
theorem alike_of_atLine_eq : ∀ {e e' : Expr}, e.atLine n = e'.atLine n → e.alike e'
  | .leaf l, e', h => by
    -- a change of lines keeps the constructor, so both trees have the same one
    cases e' with
    | leaf l' => exact Expr.leaf.inj h ▸ Leaf.alike_refl l
    | _ => cases h
  | .unary op x, e', h => by
    cases e' with
    | unary op' x' =>
      obtain ⟨hop, hx⟩ := Expr.unary.inj h
      simp [alike, Token.alike_of_atLine_eq hop, alike_of_atLine_eq hx]
    | _ => cases h
  | .binary l op r, e', h => by
    cases e' with
    | binary l' op' r' =>
      obtain ⟨hl, hop, hr⟩ := Expr.binary.inj h
      simp [alike, Token.alike_of_atLine_eq hop, alike_of_atLine_eq hl, alike_of_atLine_eq hr]
    | _ => cases h
  | .grouping x, e', h => by
    cases e' with
    | grouping x' =>
      rw [alike]
      exact alike_of_atLine_eq (Expr.grouping.inj h)
    | _ => cases h
  | .call callee close args, e', h => by
    cases e' with
    | call callee' close' args' =>
      obtain ⟨hcallee, hclose, hargs⟩ := Expr.call.inj h
      simp [alike, Token.alike_of_atLine_eq hclose, alike_of_atLine_eq hcallee,
        alikeAll_of_atLineAll_eq hargs]
    | _ => cases h
  | .list items, e', h => by
    cases e' with
    | list items' =>
      rw [alike]
      exact alikeAll_of_atLineAll_eq (Expr.list.inj h)
    | _ => cases h

/-- Lists of trees that are the same up to lines are alike. -/
theorem alikeAll_of_atLineAll_eq :
    ∀ {es es' : List Expr}, atLineAll n es = atLineAll n es' → alikeAll es es'
  | [], es', h => by
    cases es' with
    | nil => rfl
    | cons _ _ => cases h
  | e :: es, es', h => by
    cases es' with
    | nil => cases h
    | cons e' es' =>
      obtain ⟨he, hes⟩ := List.cons.inj h
      simp [alikeAll, alike_of_atLine_eq he, alikeAll_of_atLineAll_eq hes]

end

mutual

/-- Leaves are on no line. -/
@[simp] theorem leaves_atLine : ∀ e : Expr, (e.atLine n).leaves = e.leaves
  | .leaf l => rfl
  | .unary op x => leaves_atLine x
  | .binary l op r => by rw [atLine, leaves, leaves, leaves_atLine l, leaves_atLine r]
  | .grouping x => leaves_atLine x
  | .call callee close args => by
    rw [atLine, leaves, leaves, leaves_atLine callee, leavesOf_atLineAll args]
  | .list items => leavesOf_atLineAll items

/-- The leaves of several trees are on no line. -/
theorem leavesOf_atLineAll : ∀ es : List Expr, leavesOf (atLineAll n es) = leavesOf es
  | [] => rfl
  | e :: es => by rw [atLineAll, leavesOf, leavesOf, leaves_atLine e, leavesOf_atLineAll es]

end

mutual

/-- Lines do not matter for nesting. -/
@[simp] theorem nesting_atLine : ∀ e : Expr, (e.atLine n).nesting = e.nesting
  | .leaf l => rfl
  | .unary op x => by rw [atLine, nesting, nesting, nesting_atLine x]
  | .binary l op r => by rw [atLine, nesting, nesting, nesting_atLine l, nesting_atLine r]
  | .grouping x => by rw [atLine, nesting, nesting, nesting_atLine x]
  | .call callee close args => by
    -- whether a call takes a level depends on whether it has arguments
    have hempty : (atLineAll n args).isEmpty = args.isEmpty := by cases args <;> rfl
    rw [atLine, nesting, nesting, nestingOf_atLineAll args, hempty]
  | .list items => by rw [atLine, nesting, nesting, nestingOf_atLineAll items]

/-- Lines do not matter for the nesting of several trees. -/
theorem nestingOf_atLineAll : ∀ es : List Expr, nestingOf (atLineAll n es) = nestingOf es
  | [] => rfl
  | e :: es => by rw [atLineAll, nestingOf, nestingOf, nesting_atLine e, nestingOf_atLineAll es]

end

theorem atLineAll_append (es fs : List Expr) :
    atLineAll n (es ++ fs) = atLineAll n es ++ atLineAll n fs := by
  induction es with
  | nil => rfl
  | cons e es ih => rw [List.cons_append, atLineAll, atLineAll, ih, List.cons_append]

/-- Only a list is a list up to lines. -/
theorem exists_list_of_atLine_eq {e : Expr} {items : List Expr}
    (h : e.atLine n = (list items).atLine n) :
    ∃ items', e = list items' ∧ atLineAll n items' = atLineAll n items := by
  cases e with
  | list items' => exact ⟨items', rfl, Expr.list.inj h⟩
  | _ => cases h

end AtLine

end Expr

/-! ### Derivations -/

section BareEq

variable {ts us : List Token} {name : String}

/-- Tokens with the same bare forms make up the same name. -/
theorem Named.of_bare_eq (h : Named ts name) (hus : us.map Token.bare = ts.map Token.bare) :
    Named us name := by
  induction h generalizing us with
  | one ht =>
    obtain ⟨t', rfl, hbare⟩ := List.map_eq_singleton_iff.mp hus
    -- only numbers have lost their lexemes, and a segment is no number
    have hatLine := Token.atLine_eq_of_bare_eq hbare (by simp [ht]) 1
    rw [← (Token.atLine_eq_iff.mp hatLine).2.1]
    exact .one ((Token.kind_eq_of_bare_eq hbare).trans ht)
  | more _ hdot ht ih =>
    rw [List.map_append] at hus
    obtain ⟨us', tail, rfl, hus', htail⟩ := List.map_eq_append_iff.mp hus
    obtain ⟨dot', tail', rfl, hbareDot, htail'⟩ := List.map_eq_cons_iff.mp htail
    obtain ⟨t', rfl, hbare⟩ := List.map_eq_singleton_iff.mp htail'
    have hatLine := Token.atLine_eq_of_bare_eq hbare (by simp [ht]) 1
    rw [← (Token.atLine_eq_iff.mp hatLine).2.1]
    exact .more (ih hus') ((Token.kind_eq_of_bare_eq hbareDot).trans hdot)
      ((Token.kind_eq_of_bare_eq hbare).trans ht)

/-- Bare tokens between parentheses, taken apart. -/
theorem exists_enclosed_of_bare_eq {opening close : Token}
    (h : us.map Token.bare = (opening :: ts ++ [close]).map Token.bare) :
    ∃ opening' us' close', us = opening' :: us' ++ [close'] ∧ opening'.kind = opening.kind ∧
      us'.map Token.bare = ts.map Token.bare ∧ close'.bare = close.bare := by
  rw [List.map_append] at h
  obtain ⟨front, back, rfl, hfront, hback⟩ := List.map_eq_append_iff.mp h
  obtain ⟨opening', us', rfl, hopening, hus'⟩ := List.map_eq_cons_iff.mp hfront
  obtain ⟨close', rfl, hclose⟩ := List.map_eq_singleton_iff.mp hback
  exact ⟨opening', us', close', rfl, Token.kind_eq_of_bare_eq hopening, hus', hclose⟩

/-- Bare tokens with one between two lists, taken apart. -/
theorem exists_infix_of_bare_eq {vs : List Token} {op : Token}
    (h : us.map Token.bare = (ts ++ op :: vs).map Token.bare) :
    ∃ us' op' vs', us = us' ++ op' :: vs' ∧ us'.map Token.bare = ts.map Token.bare ∧
      op'.bare = op.bare ∧ vs'.map Token.bare = vs.map Token.bare := by
  rw [List.map_append] at h
  obtain ⟨us', back, rfl, hus', hback⟩ := List.map_eq_append_iff.mp h
  obtain ⟨op', vs', rfl, hop, hvs'⟩ := List.map_eq_cons_iff.mp hback
  exact ⟨us', op', vs', rfl, hus', hop, hvs'⟩

/-- **The grammar sees bare tokens only.** Tokens with the same bare forms derive the same tree up
to the lines of its operators and closing parentheses. -/
theorem Derives.of_bare_eq {r : Rule} {e : Expr} (h : Derives r ts e)
    (hus : us.map Token.bare = ts.map Token.bare) :
    ∃ e', Derives r us e' ∧ e'.atLine 1 = e.atLine 1 := by
  -- Each production takes the other tokens apart in the same way and applies to the parts. What the
  -- tree keeps are operators and closing parentheses; these are no numbers, so that bare forms tell
  -- all about them but their lines.
  induction h generalizing us with
  | lift _ ih =>
    obtain ⟨e', hd, he⟩ := ih hus
    exact ⟨e', .lift hd, he⟩
  | plain _ ih =>
    obtain ⟨e', hd, he⟩ := ih hus
    exact ⟨e', .plain hd, he⟩
  | @chain t ts vs op l r _ hop _ ihl ihr =>
    obtain ⟨us', op', vs', rfl, hus', hbare, hvs'⟩ := exists_infix_of_bare_eq hus
    obtain ⟨l', hl', hle⟩ := ihl hus'
    obtain ⟨r', hr', hre⟩ := ihr hvs'
    have hkind := Token.kind_eq_of_bare_eq hbare
    -- which rule the right side follows is up to the kind of the operator
    rw [← hkind] at hop hr'
    refine ⟨.binary l' op' r', .chain hl' hop hr', ?_⟩
    have hnumber := Token.kind_ne_number_of_isOperator (Token.isOperator_of_mem_tier hop)
    rw [Expr.atLine, Expr.atLine, hle, hre, Token.atLine_eq_of_bare_eq hbare (hkind ▸ hnumber)]
  | @range ts vs op first last _ hfirst hop _ ihl ihr =>
    obtain ⟨us', op', vs', rfl, hus', hbare, hvs'⟩ := exists_infix_of_bare_eq hus
    obtain ⟨l', hl', hle⟩ := ihl hus'
    obtain ⟨r', hr', hre⟩ := ihr hvs'
    have hkind := Token.kind_eq_of_bare_eq hbare
    have hfirst' : ∀ t ∈ us'.head?, t.kind ≠ .leftParen := by
      -- the first token of the range still is no parenthesis
      intro t ht
      obtain ⟨tail, rfl⟩ := List.head?_eq_some_iff.mp ht
      obtain ⟨t₀, ts₀, rfl, hbare₀, -⟩ := List.map_eq_cons_iff.mp hus'.symm
      rw [← Token.kind_eq_of_bare_eq hbare₀]
      exact hfirst t₀ rfl
    refine ⟨.binary l' op' r', .range hl' hfirst' (hkind.trans hop) hr', ?_⟩
    rw [Expr.atLine, Expr.atLine, hle, hre, Token.atLine_eq_of_bare_eq hbare (by simp [hop])]
  | signed hop _ ih =>
    obtain ⟨op', us', rfl, hbare, hus'⟩ := List.map_eq_cons_iff.mp hus
    obtain ⟨x', hx', hxe⟩ := ih hus'
    have hkind := Token.kind_eq_of_bare_eq hbare
    have hnumber := Token.kind_ne_number_of_isOperator (Token.isOperator_of_sign hop)
    refine ⟨.unary op' x', .signed (hkind ▸ hop) hx', ?_⟩
    rw [Expr.atLine, Expr.atLine, hxe, Token.atLine_eq_of_bare_eq hbare hnumber]
  | members ho _ hc ih =>
    obtain ⟨opening', us', close', rfl, ho', hus', hbare⟩ := exists_enclosed_of_bare_eq hus
    obtain ⟨e', he', he⟩ := ih hus'
    obtain ⟨items', rfl, -⟩ := Expr.exists_list_of_atLine_eq he
    exact ⟨_, .members (ho'.trans ho) he' ((Token.kind_eq_of_bare_eq hbare).trans hc), he⟩
  | grouping ho _ hc ih =>
    obtain ⟨opening', us', close', rfl, ho', hus', hbare⟩ := exists_enclosed_of_bare_eq hus
    obtain ⟨e', he', he⟩ := ih hus'
    refine ⟨.grouping e', .grouping (ho'.trans ho) he'
      ((Token.kind_eq_of_bare_eq hbare).trans hc), ?_⟩
    rw [Expr.atLine, Expr.atLine, he]
  | parameter h =>
    obtain ⟨t', rfl, hbare⟩ := List.map_eq_singleton_iff.mp hus
    have hatLine := Token.atLine_eq_of_bare_eq hbare (by simp [h]) 1
    rw [← (Token.atLine_eq_iff.mp hatLine).2.1]
    exact ⟨_, .parameter ((Token.kind_eq_of_bare_eq hbare).trans h), rfl⟩
  | literal h =>
    -- the digits of a number are gone with its lexeme, and its value is what the tree has
    obtain ⟨t', rfl, hbare⟩ := List.map_eq_singleton_iff.mp hus
    exact ⟨_, .literal ((Token.value?_eq_of_bare_eq hbare).trans h), rfl⟩
  | name h => exact ⟨_, .name (h.of_bare_eq hus), rfl⟩
  | @callEmpty ts name opening close h ho hc =>
    obtain ⟨us', opening', tail, rfl, hus', hopening, htail⟩ := exists_infix_of_bare_eq hus
    obtain ⟨close', rfl, hclose⟩ := List.map_eq_singleton_iff.mp htail
    refine ⟨.call (.identifier name) close' [], .callEmpty (h.of_bare_eq hus')
      ((Token.kind_eq_of_bare_eq hopening).trans ho)
      ((Token.kind_eq_of_bare_eq hclose).trans hc), ?_⟩
    have hatLine := Token.atLine_eq_of_bare_eq hclose (by simp [hc]) 1
    simp only [Expr.atLine, hatLine]
  | @call ts vs name opening close args h ho _ hc ih =>
    rw [List.append_assoc, List.map_append] at hus
    obtain ⟨us', back, rfl, hus', hback⟩ := List.map_eq_append_iff.mp hus
    obtain ⟨opening', vs', close', rfl, ho', hvs', hclose⟩ := exists_enclosed_of_bare_eq hback
    obtain ⟨e', he', he⟩ := ih hvs'
    obtain ⟨args', rfl, hargs⟩ := Expr.exists_list_of_atLine_eq he
    refine ⟨.call (.identifier name) close' args', ?_, ?_⟩
    · rw [← List.append_assoc]
      exact .call (h.of_bare_eq hus') (ho'.trans ho) he'
        ((Token.kind_eq_of_bare_eq hclose).trans hc)
    · have hatLine := Token.atLine_eq_of_bare_eq hclose (by simp [hc]) 1
      simp only [Expr.atLine, hatLine, hargs]
  | argument _ ih =>
    obtain ⟨e', he', he⟩ := ih hus
    refine ⟨.list [e'], .argument he', ?_⟩
    rw [Expr.atLine, Expr.atLine, Expr.atLineAll, Expr.atLineAll, he]
    rfl
  | arguments _ hcomma _ ihs ih =>
    obtain ⟨us', comma', vs', rfl, hus', hbare, hvs'⟩ := exists_infix_of_bare_eq hus
    obtain ⟨before', hbefore', heq⟩ := ihs hus'
    obtain ⟨before', rfl, hbefore⟩ := Expr.exists_list_of_atLine_eq heq
    obtain ⟨e', he', he⟩ := ih hvs'
    refine ⟨.list (before' ++ [e']),
      .arguments hbefore' ((Token.kind_eq_of_bare_eq hbare).trans hcomma) he', ?_⟩
    rw [Expr.atLine, Expr.atLine, Expr.atLineAll_append, Expr.atLineAll_append, hbefore,
      Expr.atLineAll, Expr.atLineAll, he]
    rfl

end BareEq

end WhereClause
