import Mathlib
import WhereClause.Proofs.Numerals
import WhereClause.Proofs.Rendering

/-!
# String values stay inside their literals

An SQL text is read by the standard rule for quotes: a quote outside opens a literal; inside, two
quotes stand for one, and a quote by itself closes. Read this way, a text that was written with
doubled quotes gives back the strings of the tree in order, and what it has outside of literals does
not depend on them.

The rule looks one character ahead, so a literal is only read as such if no quote follows it. Every
text that rendering puts behind an expression starts with another character, which is why the
description `Quoted` of a piece of text is stated for every continuation that does not start with a
quote, and composes.

The tree and its blank twin, in which every string is empty, are rendered side by side:
`SameSkeleton` relates the two texts, and each kind of node keeps it.

* `readOutside`, `readInside` — the reader;
* `readInside_escaped` — a doubled string is read as its value;
* `Sql.sameSkeleton_text` — the strings of a tree are the literals of its text, and they leave no
  trace outside of these.
-/

namespace WhereClause

/-! ### Reading literals -/

/-- **What a text says**: the values of its literals, and the characters outside of them. -/
structure Reading where
  literals : List String
  outside : List Char

mutual

/-- **Reads a text from outside of all literals.** There is no answer if it ends inside of one. -/
def readOutside : List Char → Option Reading
  | [] => some ⟨[], []⟩
  | c :: cs =>
    if c = '\'' then readInside [] cs
    else (readOutside cs).map fun r => ⟨r.literals, c :: r.outside⟩

/-- Reads a text from inside of a literal that has the given value so far. -/
def readInside (value : List Char) : List Char → Option Reading
  | [] => none
  | '\'' :: '\'' :: cs => readInside (value ++ ['\'']) cs
  | '\'' :: cs => (readOutside cs).map fun r => ⟨String.ofList value :: r.literals, r.outside⟩
  | c :: cs => readInside (value ++ [c]) cs

end

/-- The rest does not start with a quote. -/
def Unquoted (cs : List Char) : Prop :=
  cs.head? ≠ some '\''

/-- Any other character belongs to the value. -/
theorem readInside_of_ne {value cs : List Char} {c : Char} (h : c ≠ '\'') :
    readInside value (c :: cs) = readInside (value ++ [c]) cs := by
  rw [readInside]
  · rintro - rfl
    exact absurd rfl h
  · exact h

/-- A quote that no quote follows closes the literal. -/
theorem readInside_close {value cs : List Char} (h : Unquoted cs) :
    readInside value ('\'' :: cs) =
      (readOutside cs).map fun r => ⟨String.ofList value :: r.literals, r.outside⟩ := by
  rw [readInside]
  rintro cs' rfl
  exact h rfl

/-- **A string with its quotes doubled** is read as its value, whatever quotes it has. -/
theorem readInside_escaped (value cs : List Char) {rest : List Char} (h : Unquoted rest) :
    readInside value (Sql.escaped ['\'', '\''] cs ++ '\'' :: rest) =
      (readOutside rest).map fun r => ⟨String.ofList (value ++ cs) :: r.literals, r.outside⟩ := by
  induction cs generalizing value with
  | nil =>
    rw [List.append_nil]
    exact readInside_close h
  | cons c cs ih =>
    -- the value so far grows by one character, whether that was written once or twice
    have happend : value ++ c :: cs = value ++ [c] ++ cs := by simp
    rw [happend, ← ih]
    by_cases hc : c = '\''
    · subst hc
      simp [Sql.escaped, readInside]
    · simp [Sql.escaped, hc, readInside_of_ne hc]

/-! ### Pieces of text -/

/-- **A piece of text with known literals.** Whatever follows it, as long as that does not start
with a quote, the piece adds the literals `ls` and the outside text `skeleton` in front. -/
def Quoted (cs : List Char) (ls : List String) (skeleton : List Char) : Prop :=
  ∀ rest, Unquoted rest → readOutside (cs ++ rest) =
    (readOutside rest).map fun r => ⟨ls ++ r.literals, skeleton ++ r.outside⟩

namespace Quoted

variable {a b s s' : List Char} {ls ls' : List String}

/-- Text without quotes is outside, whatever follows. -/
theorem readOutside_free (h : '\'' ∉ a) (rest : List Char) : readOutside (a ++ rest) =
    (readOutside rest).map fun r => ⟨r.literals, a ++ r.outside⟩ := by
  induction a with
  | nil => simp
  | cons c a ih =>
    obtain ⟨hc, ha⟩ := not_or.mp (fun hmem => h (List.mem_cons.mpr hmem))
    rw [List.cons_append, readOutside, if_neg (Ne.symm hc), ih ha, Option.map_map]
    rfl

/-- Text without quotes is a piece without literals. -/
theorem free (h : '\'' ∉ a) : Quoted a [] a :=
  fun rest _ => readOutside_free h rest

/-- Text without quotes may stand in front of a piece. -/
theorem free_append (h : '\'' ∉ a) (hb : Quoted b ls s) : Quoted (a ++ b) ls (a ++ s) := by
  intro rest hrest
  rw [List.append_assoc, readOutside_free h, hb rest hrest, Option.map_map]
  simp [Function.comp_def]

/-- Two pieces make one, unless the second starts with a quote. -/
theorem append (ha : Quoted a ls s) (hb : Quoted b ls' s') (hstart : Unquoted b) :
    Quoted (a ++ b) (ls ++ ls') (s ++ s') := by
  intro rest hrest
  -- if there is nothing in the second piece, what follows it is what matters
  have hstart' : Unquoted (b ++ rest) := by
    cases b with
    | nil => exact hrest
    | cons c b => exact hstart
  rw [List.append_assoc, ha _ hstart', hb rest hrest, Option.map_map]
  simp [Function.comp_def]

/-- A literal is one piece, and all that is outside of it is nothing. -/
theorem literal (v : String) :
    Quoted ('\'' :: Sql.escaped ['\'', '\''] v.toList ++ ['\'']) [v] [] := by
  intro rest hrest
  have happend : '\'' :: Sql.escaped ['\'', '\''] v.toList ++ ['\''] ++ rest =
      '\'' :: (Sql.escaped ['\'', '\''] v.toList ++ '\'' :: rest) := by simp
  rw [happend, readOutside, if_pos rfl, readInside_escaped [] _ hrest]
  simp

end Quoted

/-! ### Trees and their blank twins -/

/-- The same leaf, an empty string in place of any other. -/
def Leaf.blanked : Leaf → Leaf
  | .literal (.string _) => .literal (.string "")
  | l => l

namespace Expr

mutual

/-- **The same tree with every string empty.** -/
def blanked : Expr → Expr
  | leaf l => leaf l.blanked
  | unary op x => unary op x.blanked
  | binary l op r => binary l.blanked op r.blanked
  | grouping x => grouping x.blanked
  | call callee close args => call callee.blanked close (blankedAll args)
  | list items => list (blankedAll items)

/-- The same trees with every string empty. -/
def blankedAll : List Expr → List Expr
  | [] => []
  | e :: es => e.blanked :: blankedAll es

end

end Expr

/-- The value of a string literal. -/
def Leaf.string? : Leaf → Option String
  | .literal (.string s) => some s
  | _ => none

/-- The name of an identifier or a parameter. -/
def Leaf.name? : Leaf → Option String
  | .identifier name => some name
  | .parameter name => some name
  | .literal _ => none

/-- **The string values of a tree**, in the order of its leaves. -/
def Expr.strings (e : Expr) : List String :=
  e.leaves.filterMap Leaf.string?

/-- No name of a leaf has a quote in it. -/
def NamesFree (ls : List Leaf) : Prop :=
  ∀ l ∈ ls, ∀ name ∈ l.name?, '\'' ∉ name.toList

/-- The leaves of two trees. -/
theorem namesFree_append {ls ls' : List Leaf} :
    NamesFree (ls ++ ls') ↔ NamesFree ls ∧ NamesFree ls' := by
  unfold NamesFree
  simp only [List.mem_append]
  exact ⟨fun h => ⟨fun l hl => h l (.inl hl), fun l hl => h l (.inr hl)⟩,
    fun h l hl => hl.elim (h.1 l) (h.2 l)⟩

/-! ### Rendering side by side -/

namespace Sql

/-- **Two texts with one skeleton.** If the first is written at all then so is the second, both
start with the same character, and outside of literals both say the same. The first has the literals
`ls`. -/
def SameSkeleton (x y : Except SqlError String) (ls : List String) : Prop :=
  ∀ t, x = .ok t → ∃ t' ls' skeleton, y = .ok t' ∧ t.toList.head? = t'.toList.head? ∧
    Quoted t.toList ls skeleton ∧ Quoted t'.toList ls' skeleton

namespace SameSkeleton

variable {x y x' y' : Except SqlError String} {ls ls' : List String}

/-- What is not written has no literals. -/
theorem error {e : SqlError} : SameSkeleton (.error e) y ls :=
  fun _ h => nomatch h

/-- Text without quotes is its own skeleton. -/
theorem free {s : String} (h : '\'' ∉ s.toList) : SameSkeleton (.ok s) (.ok s) [] := by
  rintro _ ⟨⟩
  exact ⟨s, [], s.toList, rfl, rfl, .free h, .free h⟩

/-- Text without quotes may stand in front of anything. -/
theorem free_joined {s : String} (h : '\'' ∉ s.toList) (hxy : SameSkeleton x y ls) :
    SameSkeleton (joined (.ok s) x) (joined (.ok s) y) ls := by
  intro t ht
  obtain ⟨a, ha, rfl⟩ := joined_ok_eq_ok.mp ht
  obtain ⟨b, ls', skeleton, hb, hhead, hquoted, hquoted'⟩ := hxy a ha
  refine ⟨s ++ b, ls', s.toList ++ skeleton, joined_ok_eq_ok.mpr ⟨b, hb, rfl⟩, ?_, ?_, ?_⟩
  · rw [String.toList_append, String.toList_append, List.head?_append, List.head?_append, hhead]
  · rw [String.toList_append]
    exact hquoted.free_append h
  · rw [String.toList_append]
    exact hquoted'.free_append h

/-- Two texts may follow each other if the second never starts with a quote. -/
theorem joined (hx : SameSkeleton x x' ls) (hy : SameSkeleton y y' ls')
    (hstart : ∀ t, y = .ok t → Unquoted t.toList) :
    SameSkeleton (Sql.joined x y) (Sql.joined x' y') (ls ++ ls') := by
  intro t ht
  obtain ⟨a, b, ha, hb, rfl⟩ := joined_eq_ok.mp ht
  obtain ⟨a', las, skeleton, ha', hhead, hquoted, hquoted'⟩ := hx a ha
  obtain ⟨b', lbs, skeleton', hb', hhead', hmore, hmore'⟩ := hy b hb
  have hb_start := hstart b hb
  refine ⟨a' ++ b', las ++ lbs, skeleton ++ skeleton', joined_eq_ok.mpr ⟨a', b', ha', hb', rfl⟩,
    ?_, ?_, ?_⟩
  · rw [String.toList_append, String.toList_append, List.head?_append, List.head?_append, hhead,
      hhead']
  · rw [String.toList_append]
    exact hquoted.append hmore hb_start
  · rw [String.toList_append]
    -- the twin starts with the same character, so with no quote either
    refine hquoted'.append hmore' ?_
    rwa [Unquoted, ← hhead']

/-- A text without quotes may close another one. -/
theorem closed (hx : SameSkeleton x x' ls) {s : String} (hs : '\'' ∉ s.toList) :
    SameSkeleton (Sql.joined x (.ok s)) (Sql.joined x' (.ok s)) ls := by
  have hstart : ∀ t, Except.ok s = (.ok t : Except SqlError String) → Unquoted t.toList := by
    rintro _ ⟨⟩ hhead
    exact hs (List.mem_of_mem_head? hhead)
  have h := hx.joined (.free hs) hstart
  rwa [List.append_nil] at h

/-- A text without quotes keeps two others apart. -/
theorem glued (hx : SameSkeleton x x' ls) {s : String} (hs : '\'' ∉ s.toList) (hne : s.toList ≠ [])
    (hy : SameSkeleton y y' ls') :
    SameSkeleton (Sql.joined x (Sql.joined (.ok s) y)) (Sql.joined x' (Sql.joined (.ok s) y'))
      (ls ++ ls') := by
  refine hx.joined (hy.free_joined hs) ?_
  intro t ht hhead
  obtain ⟨b, -, rfl⟩ := joined_ok_eq_ok.mp ht
  obtain ⟨c, cs, hcs⟩ := List.exists_cons_of_ne_nil hne
  -- the text in between has a first character, and this is no quote
  rw [String.toList_append, hcs] at hhead
  rw [Option.some.inj hhead] at hcs
  exact hs (by rw [hcs]; exact List.mem_cons_self)

/-- An operand is kept apart from a minus sign in the one text iff it is in the other. -/
theorem negated (hxy : SameSkeleton x y ls) :
    SameSkeleton (x.map Sql.negated) (y.map Sql.negated) ls := by
  intro t ht
  cases x with
  | error e => cases ht
  | ok a =>
    cases ht
    obtain ⟨b, ls', skeleton, rfl, hhead, hquoted, hquoted'⟩ := hxy a rfl
    -- the texts start with the same character, so they agree on whether to add a blank
    by_cases hsign : b.toList.head? = some '-'
    · have ha : Sql.negated a = " " ++ a := if_pos (hhead.trans hsign)
      have hb : Sql.negated b = " " ++ b := if_pos hsign
      rw [ha, Except.map, hb]
      exact free_joined (s := " ") (by decide) hxy _ rfl
    · have ha : Sql.negated a = a := if_neg (hhead ▸ hsign)
      have hb : Sql.negated b = b := if_neg hsign
      rw [ha, Except.map, hb]
      exact hxy a rfl

end SameSkeleton

/-- No operator has a quote in it. -/
theorem sqlBinary?_free {k : Kind} {spelling : String} (h : k.sqlBinary? = some spelling) :
    '\'' ∉ (" " ++ spelling ++ " ").toList := by
  cases k <;> cases h <;> decide

/-- A leaf and its blank twin. -/
theorem sameSkeleton_leaf (l : Leaf) (hname : ∀ name ∈ l.name?, '\'' ∉ name.toList) :
    SameSkeleton (text Quoter.doubled (.leaf l)) (text Quoter.doubled (.leaf l.blanked))
      l.string?.toList := by
  have hnumeral : ∀ s : String, (∀ c ∈ s.toList, numeralChar c) → '\'' ∉ s.toList :=
    fun s hs hmem => absurd (hs _ hmem) (by decide)
  -- all leaves but strings are their own twins
  have hself : ∀ s, text Quoter.doubled (.leaf l) = .ok s → '\'' ∉ s.toList →
      SameSkeleton (text Quoter.doubled (.leaf l)) (text Quoter.doubled (.leaf l)) [] := by
    intro s hs hfree
    rw [hs]
    exact .free hfree
  cases l with
  | identifier name => exact hself _ (text_identifier name) (hname name rfl)
  | parameter name =>
    have hfree : '\'' ∉ name.toList := hname name rfl
    exact hself _ (text_parameter name) (by simp [hfree])
  | literal v =>
    cases v with
    | null => exact hself _ text_null (by decide)
    | boolean b =>
      -- truth values are not written at all
      rw [text_boolean]
      exact .error
    | integer n =>
      exact hself _ (text_integer n) (hnumeral _ fun c hc => numeralChar_of_mem_repr hc)
    | decimal d =>
      exact hself _ (text_decimal d) (hnumeral _ fun c hc => Decimal.numeralChar_of_mem_text hc)
    | string v =>
      -- the twin has the empty string, and both texts start with a quote
      intro t ht
      rw [Quoter.doubled, text_string] at ht
      cases ht
      refine ⟨_, [""], [], text_string "''" "", ?_, ?_, ?_⟩
      · rw [String.toList_ofList, String.toList_ofList]
        rfl
      · rw [String.toList_ofList]
        exact .literal v
      · rw [String.toList_ofList]
        exact .literal ""

mutual

/-- **A tree and its blank twin have one skeleton**, and the text of the tree has its strings. -/
theorem sameSkeleton_text : ∀ e : Expr, NamesFree e.leaves →
    SameSkeleton (text Quoter.doubled e) (text Quoter.doubled e.blanked) e.strings
  | .leaf l, h => by
    have hl := sameSkeleton_leaf l (h l (by simp [Expr.leaves]))
    rw [Expr.blanked, Expr.strings, Expr.leaves]
    -- the strings of a leaf are at most one
    cases hs : l.string? <;> simpa [hs] using hl
  | .unary op x, h => by
    have hx := sameSkeleton_text x h
    rw [Expr.blanked, text_unary doubled_steady, text_unary doubled_steady]
    cases hk : op.kind with
    | minus => exact hx.negated.free_joined (by decide)
    | kwNot => exact hx.free_joined (by decide)
    | _ => exact .error
  | .binary l op r, h => by
    obtain ⟨hlf, hrf⟩ := namesFree_append.mp h
    have hl := sameSkeleton_text l hlf
    have hr := sameSkeleton_text r hrf
    have hstrings : (Expr.binary l op r).strings = l.strings ++ r.strings := by
      rw [Expr.strings, Expr.leaves, List.filterMap_append]
      rfl
    rw [Expr.blanked, text_binary doubled_steady, text_binary doubled_steady, hstrings]
    split
    · -- emptying strings does not turn a range into something else, so both write the same word
      have hglue : ∀ b : Bool, '\'' ∉ (if b then " " else " in ").toList ∧
          (if b then " " else " in ").toList ≠ [] := by decide
      cases r with
      | list items =>
        exact hl.glued (by decide) (by decide) ((sameSkeleton_items items hrf).closed (by decide))
      | _ => exact hl.glued (hglue _).1 (hglue _).2 hr
    · split
      · exact (hl.glued (by decide) (by decide) hr).free_joined (by decide)
      · cases hop : op.kind.sqlBinary? with
        | none => exact .error
        | some spelling => exact hl.glued (sqlBinary?_free hop) (by simp) hr
  | .grouping x, h => by
    have hx := sameSkeleton_text x h
    rw [Expr.blanked, text_grouping doubled_steady, text_grouping doubled_steady]
    exact (hx.closed (by decide)).free_joined (by decide)
  | .call callee close args, h => by
    obtain ⟨hcf, haf⟩ := namesFree_append.mp h
    have hcallee := sameSkeleton_text callee hcf
    have hargs := sameSkeleton_items args haf
    rw [Expr.blanked, text_call doubled_steady, text_call doubled_steady, Expr.strings, Expr.leaves,
      List.filterMap_append]
    exact hcallee.glued (by decide) (by decide) (hargs.closed (by decide))
  | .list items, h => by
    rw [text_list]
    exact .error

/-- **Items and their blank twins**, with commas between them. -/
theorem sameSkeleton_items : ∀ es : List Expr, NamesFree (Expr.leavesOf es) →
    SameSkeleton (itemsText Quoter.doubled es) (itemsText Quoter.doubled (Expr.blankedAll es))
      ((Expr.leavesOf es).filterMap Leaf.string?)
  | [], _ => by
    rw [Expr.blankedAll, itemsText_nil]
    exact .free (by decide)
  | e :: es, h => by
    obtain ⟨hef, hesf⟩ := namesFree_append.mp h
    have he := sameSkeleton_text e hef
    have hes := sameSkeleton_more es hesf
    rw [Expr.blankedAll, itemsText_cons doubled_steady, itemsText_cons doubled_steady,
      Expr.leavesOf, List.filterMap_append]
    -- what follows an item starts with a comma, if there is anything
    exact he.joined hes (head?_moreText_ne doubled_steady (by decide) es)

/-- Items behind the first one. -/
theorem sameSkeleton_more : ∀ es : List Expr, NamesFree (Expr.leavesOf es) →
    SameSkeleton (moreText Quoter.doubled es) (moreText Quoter.doubled (Expr.blankedAll es))
      ((Expr.leavesOf es).filterMap Leaf.string?)
  | [], _ => by
    rw [Expr.blankedAll, moreText_nil]
    exact .free (by decide)
  | e :: es, h => by
    obtain ⟨hef, hesf⟩ := namesFree_append.mp h
    have he := sameSkeleton_text e hef
    have hes := sameSkeleton_more es hesf
    rw [Expr.blankedAll, moreText_cons doubled_steady, moreText_cons doubled_steady,
      Expr.leavesOf, List.filterMap_append]
    exact (he.joined hes (head?_moreText_ne doubled_steady (by decide) es)).free_joined (by decide)

end

end Sql

/-! ### The main statement -/

/-- **Strings cannot leave their literals.** Where no name has a quote in it, reading the text of a
tree ends outside of all literals and gives the strings of the tree in order, and the text outside
of the literals is that of the tree with all strings empty. -/
theorem readOutside_text_doubled {e : Expr} {t : String} (hnames : NamesFree e.leaves)
    (h : Sql.text Sql.Quoter.doubled e = .ok t) :
    ∃ r t' r', readOutside t.toList = some r ∧ r.literals = e.strings ∧
      Sql.text Sql.Quoter.doubled e.blanked = .ok t' ∧ readOutside t'.toList = some r' ∧
      r.outside = r'.outside := by
  obtain ⟨t', ls', skeleton, ht', -, hquoted, hquoted'⟩ := Sql.sameSkeleton_text e hnames t h
  have hend : Unquoted [] := fun hhead => nomatch hhead
  have hread := hquoted [] hend
  have hread' := hquoted' [] hend
  rw [List.append_nil] at hread hread'
  exact ⟨_, t', _, hread, List.append_nil _, ht', hread', rfl⟩

/-- Two strings, one of them an attempt to close its literal and the other nothing but quotes. -/
def quotesExample : Expr :=
  .binary (.literal (.string "x' or 'a' = 'a")) (Token.ofKind .kwLike "") (.literal (.string "'''"))

/-- Both strings are read back, and nothing of them is outside. -/
theorem readOutside_text_doubled_quotesExample :
    NamesFree quotesExample.leaves ∧
      Sql.text Sql.Quoter.doubled quotesExample =
        .ok "'x'' or ''a'' = ''a' like ''''''''" ∧
      ∃ r t' r', readOutside "'x'' or ''a'' = ''a' like ''''''''".toList = some r ∧
        r.literals = quotesExample.strings ∧
        Sql.text Sql.Quoter.doubled quotesExample.blanked = .ok t' ∧
        readOutside t'.toList = some r' ∧ r.outside = r'.outside := by
  have hnames : NamesFree quotesExample.leaves := by
    intro l hl name hname
    simp only [quotesExample, Expr.leaves, List.singleton_append, List.mem_cons, List.not_mem_nil,
      or_false] at hl
    rcases hl with rfl | rfl <;> cases hname
  have htext : Sql.text Sql.Quoter.doubled quotesExample =
      .ok "'x'' or ''a'' = ''a' like ''''''''" := by cbv
  exact ⟨hnames, htext, readOutside_text_doubled hnames htext⟩

end WhereClause
