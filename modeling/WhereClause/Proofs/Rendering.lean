import WhereClause.Sql

/-!
# What rendering writes

A writer runs on a sink that may hold text already and may have a limit. Rendering never looks at
the sink, so all it does is described by the text it offers and the result it ends with:
`Writer.Offers` says that on every sink the writer has that effect, cut off where the sink is full.
The descriptions compose (`Offers.bind`), which makes writing append-only, and every renderer has
one if the quoter has (`render_steady`).

On that ground the text of a tree follows from the texts of its parts. There is one equation for
each kind of node (`text_unary`, `text_binary`, …), and later proofs never run a writer. A sink with
a limit has the front of that text in the end, cut off wherever it is full: within a string, between
two signs, or not at all if rendering fails first.

* `Writer.Offers` — the effect of a writer, whatever the sink;
* `Steady` — writers that have such an effect;
* `Sql.render_steady` — rendering is steady for every steady quoter;
* `Quoter.IsUsual` — the quoters in use, all of them steady.
-/

namespace WhereClause.Sql

/-! ### The effect of a writer -/

/-- **A text offered to a sink.** The result `r` stands if the whole text fits; otherwise the sink
is filled up, and writing has failed. -/
def Sink.offer (sink : Sink) (text : String) (r : Except SqlError Unit) :
    Except SqlError Unit × Sink :=
  match sink.room with
  | none => (r, ⟨sink.text ++ text, none⟩)
  | some n =>
    if text.length ≤ n then (r, ⟨sink.text ++ text, some (n - text.length)⟩)
    else (.error .write, ⟨sink.text ++ String.ofList (text.toList.take n), some 0⟩)

/-- **The effect of a writer**: on every sink it offers the same text and ends in the same way. -/
def Writer.Offers (w : Writer Unit) (text : String) (r : Except SqlError Unit) : Prop :=
  ∀ sink, w.runOn sink = sink.offer text r

/-- A writer whose effect does not depend on the sink. -/
def Steady (w : Writer Unit) : Prop :=
  ∃ text r, w.Offers text r

/-- The second writer goes on with the sink of the first one, unless that has failed. -/
theorem Writer.runOn_bind (w : Writer Unit) (f : Unit → Writer Unit) (sink : Sink) :
    (w >>= f).runOn sink = match w.runOn sink with
      | (.ok u, sink') => (f u).runOn sink'
      | (.error e, sink') => (.error e, sink') := by
  -- the errors are on top of the state, so the sink is there also behind a failure
  change (match w sink with
    | (a, s) => ExceptT.bindCont f a s) = _
  unfold Writer.runOn
  cases h : w sink with
  | mk a s =>
    simp only [ExceptT.run, StateT.run, h]
    cases a <;> rfl

namespace Writer.Offers

variable {w v : Writer Unit} {a b : String} {r : Except SqlError Unit}

theorem write (s : String) : (Sql.write s).Offers s (.ok ()) :=
  fun _ => rfl

/-- A failure leaves the sink as it is. -/
theorem throw (e : SqlError) : (MonadExcept.throw e : Writer Unit).Offers "" (.error e) := by
  intro sink
  change (Except.error e, sink) = _
  unfold Sink.offer
  cases hroom : sink.room <;> cases sink <;> simp_all

theorem pure : (Pure.pure () : Writer Unit).Offers "" (.ok ()) := by
  intro sink
  change (Except.ok (), sink) = _
  unfold Sink.offer
  cases hroom : sink.room <;> cases sink <;> simp_all

/-- A failure ends the writing. -/
theorem bind_error {f : Unit → Writer Unit} {e : SqlError} (h : w.Offers a (.error e)) :
    (w >>= f).Offers a (.error e) := by
  intro sink
  rw [runOn_bind, h sink]
  unfold Sink.offer
  cases sink.room with
  | none => rfl
  | some n => by_cases hfits : a.length ≤ n <;> simp [hfits]

/-- **Writing is append-only.** -/
theorem bind {f : Unit → Writer Unit} (hw : w.Offers a (.ok ())) (hf : (f ()).Offers b r) :
    (w >>= f).Offers (a ++ b) r := by
  intro sink
  rw [runOn_bind, hw sink]
  unfold Sink.offer
  cases sink.room with
  | none =>
    -- without a limit both texts fit
    change (f ()).runOn _ = _
    rw [hf]
    simp [Sink.offer, String.append_assoc]
  | some n =>
    by_cases ha : a.length ≤ n
    · -- the first text fits; whether all does depends on the room it leaves
      simp only [if_pos ha]
      rw [hf]
      by_cases hb : b.length ≤ n - a.length
      · have hab : a.length + b.length ≤ n := by omega
        simp only [Sink.offer, if_pos hb, String.length_append, if_pos hab, String.append_assoc,
          Nat.sub_sub]
      · have hab : ¬ (a ++ b).length ≤ n := by
          rw [String.length_append]
          omega
        have htake : (a ++ b).toList.take n = a.toList ++ b.toList.take (n - a.length) := by
          rw [String.toList_append, List.take_append, String.length_toList,
            List.take_of_length_le (by rwa [String.length_toList])]
        simp only [Sink.offer, if_neg hb, if_neg hab, htake, String.ofList_append,
          String.ofList_toList, String.append_assoc]
    · -- the first text does not fit, so the second is never written
      have hab : ¬ (a ++ b).length ≤ n := by
        rw [String.length_append]
        omega
      have htake : (a ++ b).toList.take n = a.toList.take n := by
        rw [String.toList_append, List.take_append_of_le_length]
        rw [String.length_toList]
        omega
      simp only [if_neg ha, if_neg hab, htake]

end Writer.Offers

/-! ### Steady writers -/

namespace Steady

variable {w v : Writer Unit} {f : Unit → Writer Unit}

theorem write (s : String) : Steady (Sql.write s) :=
  ⟨_, _, .write s⟩

theorem throw (e : SqlError) : Steady (MonadExcept.throw e) :=
  ⟨_, _, .throw e⟩

theorem pure : Steady (Pure.pure ()) :=
  ⟨_, _, .pure⟩

/-- Steady writers in sequence. -/
theorem bind (hw : Steady w) (hf : Steady (f ())) : Steady (w >>= f) := by
  obtain ⟨a, r, hw⟩ := hw
  obtain ⟨b, r', hf⟩ := hf
  cases r with
  | error e => exact ⟨_, _, hw.bind_error⟩
  | ok u => exact ⟨_, _, hw.bind hf⟩

end Steady

/-- The inside of a string. -/
theorem renderChars_steady {q : Quoter} (hq : Steady q) (cs : List Char) :
    Steady (renderChars q cs) := by
  induction cs with
  | nil => exact .pure
  | cons c cs ih =>
    rw [renderChars]
    split
    · exact hq.bind ih
    · exact (Steady.write _).bind ih

/-- Leaves, of which truth values fail and strings may ask the quoter. -/
theorem renderLeaf_steady {q : Quoter} (hq : Steady q) (l : Leaf) : Steady (renderLeaf q l) := by
  cases l with
  | identifier name => exact .write _
  | parameter name => exact .write _
  | literal v =>
    cases v with
    | boolean b => exact .throw _
    | string s => exact (Steady.write _).bind ((renderChars_steady hq _).bind (.write _))
    | null => exact .write _
    | integer n => exact .write _
    | decimal d => exact .write _

mutual

/-- **Rendering does not look at the sink**, if the quoter does not. -/
theorem render_steady {q : Quoter} (hq : Steady q) : ∀ e : Expr, Steady (render q e)
  | .leaf l => by
    rw [render]
    exact renderLeaf_steady hq l
  | .unary op x => by
    have hx := render_steady hq x
    rw [render]
    split
    · exact .throw _
    · refine (Steady.write _).bind ?_
      split
      · -- the operand of a minus sign was written to a sink of its own, so that its text is known
        split
        · exact .write _
        · exact .throw _
      · exact hx
  | .binary l op r => by
    have hl := render_steady hq l
    have hr := render_steady hq r
    rw [render.eq_def]
    dsimp only
    split
    · refine hl.bind ?_
      split
      · -- a list is written without parentheses of its own, so they are written here
        next items =>
        exact (Steady.write _).bind ((renderItems_steady hq items).bind (.write _))
      · exact (Steady.write _).bind hr
    · split
      · exact (Steady.write _).bind (hl.bind ((Steady.write _).bind hr))
      · split
        · exact .throw _
        · exact hl.bind ((Steady.write _).bind hr)
  | .grouping x => by
    rw [render]
    exact (Steady.write _).bind ((render_steady hq x).bind (.write _))
  | .call callee close args => by
    rw [render]
    exact (render_steady hq callee).bind
      ((Steady.write _).bind ((renderItems_steady hq args).bind (.write _)))
  | .list items => by
    rw [render]
    exact .throw _

/-- Items. -/
theorem renderItems_steady {q : Quoter} (hq : Steady q) :
    ∀ es : List Expr, Steady (renderItems q es)
  | [] => by
    rw [renderItems]
    exact .pure
  | e :: es => by
    rw [renderItems]
    exact (render_steady hq e).bind (renderMore_steady hq es)

/-- Further items. -/
theorem renderMore_steady {q : Quoter} (hq : Steady q) :
    ∀ es : List Expr, Steady (renderMore q es)
  | [] => by
    rw [renderMore]
    exact .pure
  | e :: es => by
    rw [renderMore]
    exact (Steady.write _).bind ((render_steady hq e).bind (renderMore_steady hq es))

end

/-! ### The text of a tree from the texts of its parts -/

/-- The text on its own is what is offered. -/
theorem Writer.Offers.text_eq {w : Writer Unit} {a : String} {r : Except SqlError Unit}
    (h : w.Offers a r) : w.text = r.map fun _ => a := by
  unfold Writer.text
  rw [h]
  cases r <;> simp [Sink.offer, Sink.empty, Except.map]

@[simp] theorem text_write (s : String) : (write s).text = .ok s :=
  (Writer.Offers.write s).text_eq

@[simp] theorem text_throw (e : SqlError) : (throw e : Writer Unit).text = .error e :=
  (Writer.Offers.throw e).text_eq

@[simp] theorem text_pure : (pure () : Writer Unit).text = .ok "" :=
  Writer.Offers.pure.text_eq

/-- One text after another, or the first failure. -/
def joined (x y : Except SqlError String) : Except SqlError String :=
  match x, y with
  | .ok a, .ok b => .ok (a ++ b)
  | .ok _, .error e => .error e
  | .error e, _ => .error e

/-- There is a text if there are both. -/
theorem joined_eq_ok {x y : Except SqlError String} {t : String} :
    joined x y = .ok t ↔ ∃ a b, x = .ok a ∧ y = .ok b ∧ t = a ++ b := by
  cases x <;> cases y <;> simp [joined, eq_comm]

@[simp] theorem joined_ok_eq_ok {s t : String} {y : Except SqlError String} :
    joined (.ok s) y = .ok t ↔ ∃ b, y = .ok b ∧ t = s ++ b := by
  simp [joined_eq_ok]

theorem joined_ok_right_eq_ok {s t : String} {x : Except SqlError String} :
    joined x (.ok s) = .ok t ↔ ∃ a, x = .ok a ∧ t = a ++ s := by
  simp [joined_eq_ok]

/-- **What is written in sequence** is the two texts in sequence. -/
theorem text_bind {w : Writer Unit} {f : Unit → Writer Unit} (hw : Steady w)
    (hf : Steady (f ())) : (w >>= f).text = joined w.text (f ()).text := by
  obtain ⟨a, r, hw⟩ := hw
  obtain ⟨b, r', hf⟩ := hf
  rw [hw.text_eq, hf.text_eq]
  -- a failure of the first is the result, whatever the second would have written
  cases r with
  | error e =>
    rw [hw.bind_error.text_eq]
    cases r' <;> rfl
  | ok u =>
    rw [(hw.bind hf).text_eq]
    cases r' <;> rfl

/-- The operand of a minus sign, kept apart from a sign of its own. -/
def negated (text : String) : String :=
  if text.toList.head? = some '-' then " " ++ text else text

/-- The text of several expressions with commas between them. -/
def itemsText (q : Quoter) (es : List Expr) : Except SqlError String :=
  (renderItems q es).text

/-- The text of several expressions, each behind a comma. -/
def moreText (q : Quoter) (es : List Expr) : Except SqlError String :=
  (renderMore q es).text

/-- The text of what follows the left side of `in`, the operator included. -/
def targetText (q : Quoter) : Expr → Except SqlError String
  | .list items => joined (.ok " in (") (joined (itemsText q items) (.ok ")"))
  | other => joined (.ok (if other.isRange then " " else " in ")) (text q other)

section Nodes

variable {q : Quoter} (hq : Steady q)

theorem text_leaf (l : Leaf) : text q (.leaf l) = (renderLeaf q l).text := by
  rw [text, render]

theorem text_identifier (name : String) : text q (.identifier name) = .ok name := by
  rw [text_leaf, renderLeaf, text_write]

theorem text_parameter (name : String) :
    text q (.parameter name) = .ok ("$\x7b" ++ name ++ "\x7d") := by
  rw [text_leaf, renderLeaf, text_write]

theorem text_null : text q (.literal .null) = .ok "null" := by
  rw [text_leaf, renderLeaf, renderValue, text_write]

theorem text_boolean (b : Bool) :
    text q (.literal (.boolean b)) = .error (.unsupportedLiteral "boolean") := by
  rw [text_leaf, renderLeaf, renderValue, text_throw]
  rfl

theorem text_integer (n : Int) : text q (.literal (.integer n)) = .ok n.repr := by
  rw [text_leaf, renderLeaf, renderValue, text_write]

theorem text_decimal (d : Decimal) : text q (.literal (.decimal d)) = .ok d.text := by
  rw [text_leaf, renderLeaf, renderValue, text_write]

theorem text_list (items : List Expr) : text q (.list items) = .error .unsupportedList := by
  rw [text, render, text_throw]

include hq

/-- **Signs.** Behind a minus sign, the operand is kept apart from another one. -/
theorem text_unary (op : Token) (x : Expr) :
    text q (.unary op x) = match op.kind.sqlUnary? with
      | none => .error (.invalidUnaryOperator op)
      | some sign => joined (.ok sign)
          (if op.kind = .minus then (text q x).map negated else text q x) := by
  have hx := render_steady hq x
  rw [text, render]
  cases op.kind.sqlUnary? with
  | none => exact text_throw _
  | some sign =>
    dsimp only
    split
    · -- the operand was written apart, and is now written or thrown
      unfold text
      cases (render q x).text with
      | error e =>
        dsimp only
        rw [text_bind (.write _) (.throw e), text_write, text_throw]
        rfl
      | ok a =>
        dsimp only
        rw [text_bind (.write _) (.write _), text_write, writeNegated, text_write]
        rfl
    · rw [text_bind (.write _) hx, text_write, text]

/-- **Operators.** Those of `in` and of ranges are written in ways of their own. -/
theorem text_binary (l : Expr) (op : Token) (r : Expr) :
    text q (.binary l op r) =
      if op.kind = .kwIn then
        joined (text q l) (targetText q r)
      else if op.kind = .dotDot then
        joined (.ok "between ") (joined (text q l) (joined (.ok " and ") (text q r)))
      else
        match op.kind.sqlBinary? with
        | none => .error (.invalidBinaryOperator op)
        | some spelling =>
          joined (text q l) (joined (.ok (" " ++ spelling ++ " ")) (text q r)) := by
  have hl := render_steady hq l
  have hr := render_steady hq r
  rw [text, render.eq_def]
  dsimp only
  split
  · -- a list is written in parentheses, and all else behind the operator or in its place
    cases r with
    | list items =>
      have hitems := renderItems_steady hq items
      dsimp only
      rw [text_bind hl ((Steady.write _).bind (hitems.bind (.write _))),
        text_bind (.write _) (hitems.bind (.write _)), text_bind hitems (.write _)]
      simp [text, itemsText, targetText]
    | _ =>
      dsimp only
      rw [text_bind hl ((Steady.write _).bind hr), text_bind (.write _) hr]
      simp [text, targetText]
  · split
    · rw [text_bind (.write _) (hl.bind ((Steady.write _).bind hr)),
        text_bind hl ((Steady.write _).bind hr), text_bind (.write _) hr]
      simp [text]
    · cases op.kind.sqlBinary? with
      | none => exact text_throw _
      | some spelling =>
        dsimp only
        rw [text_bind hl ((Steady.write _).bind hr), text_bind (.write _) hr]
        simp [text]

/-- **Parentheses.** -/
theorem text_grouping (x : Expr) :
    text q (.grouping x) = joined (.ok "(") (joined (text q x) (.ok ")")) := by
  have hx := render_steady hq x
  rw [text, render, text_bind (.write _) (hx.bind (.write _)), text_bind hx (.write _)]
  simp [text]

/-- **Calls.** -/
theorem text_call (callee : Expr) (close : Token) (args : List Expr) :
    text q (.call callee close args) =
      joined (text q callee) (joined (.ok "(") (joined (itemsText q args) (.ok ")"))) := by
  have hcallee := render_steady hq callee
  have hargs := renderItems_steady hq args
  rw [text, render, text_bind hcallee ((Steady.write _).bind (hargs.bind (.write _))),
    text_bind (.write _) (hargs.bind (.write _)), text_bind hargs (.write _)]
  simp [text, itemsText]

omit hq in
theorem itemsText_nil : itemsText q [] = .ok "" := by
  rw [itemsText, renderItems, text_pure]

/-- Items behind each other. -/
theorem itemsText_cons (e : Expr) (es : List Expr) :
    itemsText q (e :: es) = joined (text q e) (moreText q es) := by
  rw [itemsText, renderItems]
  exact text_bind (render_steady hq e) (renderMore_steady hq es)

omit hq in
theorem moreText_nil : moreText q [] = .ok "" := by
  rw [moreText, renderMore, text_pure]

/-- Each further item behind a comma. -/
theorem moreText_cons (e : Expr) (es : List Expr) :
    moreText q (e :: es) = joined (.ok ", ") (joined (text q e) (moreText q es)) := by
  have he := render_steady hq e
  have hes := renderMore_steady hq es
  rw [moreText, renderMore, text_bind (.write _) (he.bind hes), text_bind he hes]
  simp [text, moreText]

/-- Further members of a list start with a comma. -/
theorem head?_moreText_ne {c : Char} (hc : c ≠ ',') (es : List Expr) (t : String)
    (h : moreText q es = .ok t) : t.toList.head? ≠ some c := by
  intro hhead
  cases es with
  | nil =>
    rw [moreText_nil] at h
    cases h
    cases hhead
  | cons e es =>
    rw [moreText_cons hq] at h
    obtain ⟨b, -, rfl⟩ := joined_ok_eq_ok.mp h
    rw [String.toList_append] at hhead
    exact hc (Option.some.inj hhead).symm

end Nodes

/-! ### Strings -/

theorem doubled_steady : Steady Quoter.doubled :=
  .write _

/-- The inside of a string with `mark` in place of each quote. -/
def escaped (mark cs : List Char) : List Char :=
  cs.flatMap fun c => if c = '\'' then mark else [c]

theorem fixed_steady (mark : String) : Steady (Quoter.fixed mark) :=
  .write mark

/-- The inside of a string with a fixed text for each quote. -/
theorem renderChars_fixed (mark : String) (cs : List Char) :
    (renderChars (Quoter.fixed mark) cs).text = .ok (String.ofList (escaped mark.toList cs)) := by
  induction cs with
  | nil => exact text_pure
  | cons c cs ih =>
    have hcs := renderChars_steady (fixed_steady mark) cs
    rw [renderChars]
    split
    · next hc =>
      -- a quote is written as its mark
      rw [text_bind (fixed_steady mark) hcs, ih]
      simp [Quoter.fixed, joined, escaped, hc]
    · next hc =>
      rw [text_bind (.write _) hcs, ih]
      simp [joined, escaped, hc, String.ofList_cons]

/-- **A string is written** between quotes, with `mark` for each quote inside. -/
theorem text_string (mark s : String) :
    text (Quoter.fixed mark) (.literal (.string s)) =
      .ok (String.ofList ('\'' :: escaped mark.toList s.toList ++ ['\''])) := by
  have hcs := renderChars_steady (fixed_steady mark) s.toList
  rw [text_leaf, renderLeaf, renderValue, text_bind (.write _) (hcs.bind (.write _)),
    text_bind hcs (.write _), renderChars_fixed]
  simp [joined, String.ofList_cons]

/-! ### Sinks with a limit -/

/-- **The quoters in use**: a fixed text for each quote, such as two quotes or a quote behind a
backslash, or none at all. -/
inductive Quoter.IsUsual : Quoter → Prop
  | doubled : IsUsual doubled
  | backslash : IsUsual backslash
  | fixed (mark : String) : IsUsual (fixed mark)
  | failing : IsUsual failing

/-- The quoters in use do not look at the sink. -/
theorem Quoter.IsUsual.steady {q : Quoter} (hq : q.IsUsual) : Steady q := by
  cases hq with
  | doubled => exact fixed_steady _
  | backslash => exact fixed_steady _
  | fixed mark => exact fixed_steady mark
  | failing => exact .throw _

/-- **A full sink has received exactly the front of the text.** Let a tree be written to an empty
sink without a limit, with whatever result. On a sink that holds some text already and takes a
limited number of characters, the same text with the same result is added to that if it fits.
Otherwise writing fails, and as much of the text as fits has been added. -/
theorem render_on_limited {q : Quoter} (hq : q.IsUsual) (e : Expr) (held : String) (limit : Nat) :
    ∃ text r, (render q e).runOn .empty = (r, ⟨text, none⟩) ∧
      (text.length ≤ limit → (render q e).runOn ⟨held, some limit⟩ =
        (r, ⟨held ++ text, some (limit - text.length)⟩)) ∧
      (limit < text.length → (render q e).runOn ⟨held, some limit⟩ =
        (.error .write, ⟨held ++ String.ofList (text.toList.take limit), some 0⟩)) := by
  obtain ⟨text, r, hoffers⟩ := render_steady hq.steady e
  refine ⟨text, r, ?_, fun hfits => ?_, fun hfull => ?_⟩
  · rw [hoffers, Sink.offer, Sink.empty, String.empty_append]
  · rw [hoffers]
    exact if_pos hfits
  · rw [hoffers]
    exact if_neg (Nat.not_le_of_lt hfull)

/-- A string with a quote under two minus signs, which has to be written twice apart. -/
def signedString : Expr :=
  .unary (.ofKind .minus "-") (.unary (.ofKind .minus "-") (.literal (.string "it's")))

/-- The sink is full in the middle of the string, behind the quote in it. -/
theorem render_on_limited_signedString :
    (render .backslash signedString).runOn ⟨"where ", some 8⟩ =
      (.error .write, ⟨"where - -'it\\'", some 0⟩) := by
  obtain ⟨text, r, hempty, -, hfull⟩ := render_on_limited .backslash signedString "where " 8
  have htext : (render .backslash signedString).runOn .empty =
      (.ok (), ⟨"- -'it\\'s'", none⟩) := rfl
  obtain ⟨-, hsink⟩ := Prod.mk.inj (htext.symm.trans hempty)
  obtain ⟨rfl, -⟩ := Sink.mk.inj hsink
  exact hfull (by decide)

end WhereClause.Sql
