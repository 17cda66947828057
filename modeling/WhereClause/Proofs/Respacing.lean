import WhereClause.Proofs.LongestMatch
import WhereClause.Proofs.Parameters
import WhereClause.Proofs.Relining

/-!
# Blanks carry no meaning

The blanks of a text may be exchanged for others, and blanks may be put between any two tokens. Only
where blanks keep two tokens apart some have to stay: `< >` is not `<>`, and `1 .5` is not `1.5`.

Whether a text prolongs the token in front of it is seen from its first two characters. The new text
goes on as the old one did until it comes to a blank (`UpToBlank`), and a blank prolongs nothing, so
tokens that were apart still are. Hence the lexer finds the same tokens, on other lines maybe. No
later stage looks at lines: parsers do not (`TokenStream.parse_atLine`), passes over leaves do not,
and writing does not (`Sql.text_atLine`).

* `Respaced` — the same tokens behind other blanks;
* `Respaced.spelled` — the new text is spelled by the same tokens;
* `parse_eq_of_scan` — the tree or the error of a text, from its tokens on one line;
* `SameMeaning` — two texts that differ in nothing but the lines of what they stand for.
-/

namespace WhereClause

/-! ### Texts up to a blank -/

/-- The text `r'` goes on as `r` does until it comes to a blank, or to its end. -/
def UpToBlank (r r' : List Char) : Prop :=
  ∃ front rest, r' = front ++ rest ∧ front <+: r ∧ ∀ c ∈ rest.head?, Lexer.isSeparator c

/-- No token goes on with a blank. -/
theorem Kind.not_prolongs_of_isSeparator (k : Kind) {c : Char} (h : Lexer.isSeparator c) :
    ¬ k.prolongs c := by
  simp only [Lexer.isSeparator, Bool.or_eq_true, beq_iff_eq] at h
  rcases h with ((rfl | rfl) | rfl) | rfl <;> cases k <;> decide

/-- **Tokens that are apart stay apart** where blanks are put between them. -/
theorem Apart.of_upToBlank {k : Kind} {x r r' : List Char} (h : Apart k x r)
    (hr : UpToBlank r r') : Apart k x r' := by
  obtain ⟨front, rest, rfl, ⟨tail, rfl⟩, hrest⟩ := hr
  constructor
  · -- the next character is the old one or a blank
    intro c hc
    cases front with
    | nil => exact k.not_prolongs_of_isSeparator (hrest c hc)
    | cons d front => exact h.1 c hc
  · intro hnumber hpoint d tail' heq hdigit
    -- neither the point nor the digit is a blank, so both were in the old text
    rcases front with _ | ⟨a, _ | ⟨b, front⟩⟩
    · have hblank := hrest '.' (by rw [show rest = _ from heq]; rfl)
      exact absurd hblank (by decide)
    · obtain ⟨-, hrest'⟩ := List.cons.inj heq
      have hblank := hrest d (by rw [show rest = _ from hrest']; rfl)
      exact not_isSeparator_of_isGraphic (isGraphic_of_isDigit hdigit) hblank
    · obtain ⟨rfl, heq'⟩ := List.cons.inj heq
      obtain ⟨rfl, -⟩ := List.cons.inj heq'
      exact h.2 hnumber hpoint b (front ++ tail) rfl hdigit

/-! ### Layouts -/

/-- **A layout of a text**: its tokens, each behind some blanks, and the blanks at its end. -/
structure IsLayout (s : String) (ts : List Token) (items : List (List Char × Token))
    (last : List Char) : Prop where
  tokens_eq : ∃ n, ts = items.map Prod.snd ++ [Token.eof n]
  text_eq : s.toList = laid last items
  blank : ∀ item ∈ items, item.1.all Lexer.isSeparator
  last_blank : last.all Lexer.isSeparator

/-- **The same tokens behind other blanks.** Except in front of the first token, some blanks stay
where there were some. -/
structure Respaced (items items' : List (List Char × Token)) : Prop where
  tokens_eq : items'.map Prod.snd = items.map Prod.snd
  blank : ∀ item ∈ items', item.1.all Lexer.isSeparator
  apart : ∀ pair ∈ (items.zip items').tail, pair.2.1 = [] → pair.1.1 = []

variable {last last' : List Char} {items items' : List (List Char × Token)}

/-- Tokens with the blanks in front of them, taken apart. -/
theorem Respaced.exists_cons {w : List Char} {t : Token}
    (h : Respaced ((w, t) :: items) items') :
    ∃ w' items'', items' = (w', t) :: items'' ∧ w'.all Lexer.isSeparator ∧
      (∀ pair ∈ items.zip items'', pair.2.1 = [] → pair.1.1 = []) ∧ Respaced items items'' := by
  obtain ⟨⟨w', t'⟩, items'', rfl, ht, hitems⟩ := List.map_eq_cons_iff.mp h.tokens_eq
  obtain rfl : t' = t := ht
  obtain ⟨hw', hblank⟩ := List.forall_mem_cons.mp h.blank
  exact ⟨w', items'', rfl, hw', h.apart, hitems, hblank,
    fun pair hpair => h.apart pair (List.mem_of_mem_tail hpair)⟩

/-- Behind a token, the new text goes on as the old one up to a blank. -/
theorem Respaced.upToBlank (h : Respaced items items')
    (hall : ∀ pair ∈ items.zip items', pair.2.1 = [] → pair.1.1 = [])
    (hlast : last'.all Lexer.isSeparator) : UpToBlank (laid last items) (laid last' items') := by
  induction items generalizing items' with
  | nil =>
    obtain rfl := List.map_eq_nil_iff.mp h.tokens_eq
    refine ⟨[], last', rfl, List.nil_prefix, fun c hc => ?_⟩
    exact List.all_eq_true.mp hlast c (List.mem_of_mem_head? hc)
  | cons item items ih =>
    obtain ⟨w, t⟩ := item
    obtain ⟨w', items'', rfl, hw', hall', h'⟩ := h.exists_cons
    cases w' with
    | nil =>
      -- the token touches what is in front of it, as it did before
      obtain rfl : w = [] := hall ((w, t), ([], t)) List.mem_cons_self rfl
      obtain ⟨front, rest, heq, hfront, hrest⟩ := ih h' hall'
      refine ⟨t.source ++ front, rest, ?_, ?_, hrest⟩
      · rw [laid, heq, List.nil_append, List.append_assoc]
      · exact (List.prefix_append_right_inj _).mpr hfront
    | cons c w' =>
      -- there is a blank at once
      refine ⟨[], laid last' ((c :: w', t) :: items''), rfl, List.nil_prefix, fun d hd => ?_⟩
      obtain rfl : c = d := Option.some.inj hd
      exact (Bool.and_eq_true_iff.mp hw').1

/-- **Behind other blanks the same tokens spell the text.** -/
theorem Respaced.spelled {n : Nat} (h : Respaced items items') (hitems : LaidOut last n items)
    (hlast : last'.all Lexer.isSeparator) :
    Spelled Spells (items.map Prod.snd) (laid last' items') := by
  induction items generalizing n items' with
  | nil =>
    obtain rfl := List.map_eq_nil_iff.mp h.tokens_eq
    have hblanks := Lexer.spelled_blanks hlast (.nil : Spelled Spells [] [])
    rwa [List.append_nil] at hblanks
  | cons item items ih =>
    obtain ⟨w, t⟩ := item
    obtain ⟨w', items'', rfl, hw', hall, h'⟩ := h.exists_cons
    obtain ⟨-, hspells, hapart, -, hitems'⟩ := hitems
    -- what follows the token has changed only behind its first blank
    have hapart' := hapart.of_upToBlank (h'.upToBlank hall hlast)
    rw [laid, List.append_assoc]
    exact Lexer.spelled_blanks hw' (.token hspells hapart' (ih h' hitems'))

/-- Tokens start with no blank, so a text has one layout only. -/
theorem LaidOut.unique {n : Nat} (h : LaidOut last n items)
    (htokens : items'.map Prod.snd = items.map Prod.snd)
    (hblank : ∀ item ∈ items', item.1.all Lexer.isSeparator)
    (htext : laid last' items' = laid last items) : items' = items ∧ last' = last := by
  induction items generalizing n items' with
  | nil =>
    obtain rfl := List.map_eq_nil_iff.mp htokens
    exact ⟨rfl, htext⟩
  | cons item items ih =>
    obtain ⟨w, t⟩ := item
    obtain ⟨⟨w', t'⟩, items'', rfl, ht, htokens'⟩ := List.map_eq_cons_iff.mp htokens
    obtain rfl : t' = t := ht
    obtain ⟨hw', hblank'⟩ := List.forall_mem_cons.mp hblank
    obtain ⟨hw, hspells, -, -, hitems⟩ := h
    rw [laid, laid, List.append_assoc, List.append_assoc] at htext
    -- the blanks in front of the token are all that come first
    have hclear : ∀ r, Clear Lexer.isSeparator (t'.source ++ r) := by
      intro r
      obtain ⟨c, cs, hsource, hc⟩ := hspells.starts
      rw [hsource, List.cons_append, clear_cons]
      exact not_isSeparator_of_isGraphic hc
    -- so the blanks are the longest run of them on both sides
    have hww := congrArg (List.takeWhile Lexer.isSeparator) htext
    rw [takeWhile_append_clear hw' (hclear _), takeWhile_append_clear hw (hclear _)] at hww
    subst hww
    have hrest := List.append_cancel_left (List.append_cancel_left htext)
    obtain ⟨rfl, rfl⟩ := ih hitems htokens' hblank' hrest
    exact ⟨rfl, rfl⟩

/-- There are only blanks in front of the tokens. -/
theorem LaidOut.blank {n : Nat} (h : LaidOut last n items) :
    ∀ item ∈ items, item.1.all Lexer.isSeparator := by
  intro item hitem
  obtain ⟨before, after, rfl⟩ := List.append_of_mem hitem
  exact h.line_eq.1

/-- Every text that has tokens has a layout. -/
theorem exists_isLayout_of_scan {s : String} {ts : List Token} (h : scan s = .ok ts) :
    ∃ items last, IsLayout s ts items last := by
  obtain ⟨items, last, htext, hitems, htokens⟩ := Lexer.exists_laidOut_of_tokens h
  exact ⟨items, last, ⟨_, htokens⟩, htext, hitems.blank, hitems.last_blank⟩

/-- The one layout of a text is that of its tokens. -/
theorem IsLayout.laidOut {s : String} {ts : List Token} (h : IsLayout s ts items last)
    (hscan : scan s = .ok ts) : LaidOut last 1 items := by
  obtain ⟨items₀, last₀, htext, hitems, htokens⟩ := Lexer.exists_laidOut_of_tokens hscan
  obtain ⟨n, htokens'⟩ := h.tokens_eq
  obtain ⟨hmap, -⟩ := List.append_inj' (htokens'.symm.trans htokens) rfl
  obtain ⟨rfl, rfl⟩ := hitems.unique hmap h.blank (h.text_eq.symm.trans htext)
  exact hitems

/-! ### Trees and errors from tokens on one line -/

/-- An error with its token on another line. The lexer complains about no token. -/
def CompileError.atLine (n : Nat) : CompileError → CompileError
  | lex e => lex e
  | parse e => parse (e.atLine n)
  | sql e => sql (e.atLine n)

/-- What comes of tokens: a complaint where there are none, and otherwise what the parser makes of
them. -/
def parseTokens (ts : List Token) : Except ParseError Expr :=
  if ts.isEmpty then .error ⟨.blank, 1, none⟩ else (⟨ts, 1⟩ : TokenStream).parse.1

/-- A text is blank if it has no tokens, and not if it has. -/
theorem isBlank_iff_of_spelled {s : String} {ts : List Token} (h : Spelled Spells ts s.toList) :
    Text.isBlank s ↔ ts = [] := by
  constructor
  · intro hblank
    exact Decidable.byContradiction fun hts => not_blank_of_spelled h hts hblank
  · rintro rfl
    have hseparators : ∀ {x : List Char}, Spelled Spells [] x → x.all Text.whiteSpace.contains := by
      intro x hx
      generalize hts : ([] : List Token) = ts at hx
      induction hx with
      | nil => rfl
      | blank hc _ ih =>
        -- the separators are among the characters that count as white space
        simp only [Lexer.isSeparator, Bool.or_eq_true, beq_iff_eq] at hc
        rw [List.all_cons, ih hts, Bool.and_true]
        rcases hc with ((rfl | rfl) | rfl) | rfl <;> rfl
      | token => cases hts
    exact hseparators h

/-- **The tree or the error of a text, from its tokens on one line.** -/
theorem parse_eq_of_scan {s : String} {ts : List Token} {n : Nat}
    (hscan : scan s = .ok (ts ++ [Token.eof n])) :
    ∃ x : Except ParseError Expr, parse s = x.mapError .parse ∧
      (x.map (Expr.atLine 1)).mapError (ParseError.atLine 1) =
        parseTokens (ts.map (·.atLine 1)) := by
  obtain ⟨ts', n', heq, hspelled⟩ := Lexer.spelled_of_tokens hscan
  obtain ⟨rfl, -⟩ := List.append_inj' heq rfl
  rw [parse, parseTokens, hscan]
  by_cases hts : ts = []
  · -- there is no token, and the complaint about this names no token
    rw [if_pos ((isBlank_iff_of_spelled hspelled).mpr hts), hts]
    exact ⟨.error ⟨.blank, 1, none⟩, rfl, rfl⟩
  · have hblank : ¬ Text.isBlank s := fun h => hts ((isBlank_iff_of_spelled hspelled).mp h)
    have hempty : ¬ (ts.map (·.atLine 1)).isEmpty := by simpa using hts
    have hstream : (TokenStream.ofList (ts ++ [Token.eof n])).atLine 1 =
        ⟨ts.map (·.atLine 1), 1⟩ := by
      rw [TokenStream.atLine, tokens_ofList_eof hspelled.isLexical]
    rw [if_neg hblank, if_neg hempty, ← hstream, TokenStream.parse_atLine]
    refine ⟨(TokenStream.ofList (ts ++ [Token.eof n])).parse.1, ?_, rfl⟩
    dsimp only
    cases (TokenStream.ofList (ts ++ [Token.eof n])).parse.1 <;> rfl

/-- **Tokens decide on the tree or the error**, but for lines. -/
theorem parse_cases_of_scan {s s' : String} {ts ts' : List Token} {n n' : Nat}
    (hscan : scan s = .ok (ts ++ [Token.eof n])) (hscan' : scan s' = .ok (ts' ++ [Token.eof n']))
    (hts : ts'.map (·.atLine 1) = ts.map (·.atLine 1)) :
    (∃ e e', parse s = .ok e ∧ parse s' = .ok e' ∧ e'.atLine 1 = e.atLine 1) ∨
      ∃ err err', parse s = .error (.parse err) ∧ parse s' = .error (.parse err') ∧
        err'.atLine 1 = err.atLine 1 := by
  obtain ⟨x, hparse, hx⟩ := parse_eq_of_scan hscan
  obtain ⟨x', hparse', hx'⟩ := parse_eq_of_scan hscan'
  -- without lines, the two parsers have read the same tokens
  rw [hts, ← hx] at hx'
  rw [hparse, hparse']
  cases x with
  | ok e =>
    cases x' with
    | ok e' => exact .inl ⟨e, e', rfl, rfl, Except.ok.inj hx'⟩
    | error _ => cases hx'
  | error err =>
    cases x' with
    | ok _ => cases hx'
    | error err' => exact .inr ⟨err, err', rfl, rfl, Except.error.inj hx'⟩

/-! ### Texts with the same meaning -/

/-- **Two texts that mean the same.** They differ in the lines of what they stand for, if at all. -/
structure SameMeaning (s s' : String) : Prop where
  /-- They have the same tokens. -/
  scan_eq : ∃ ts ts', scan s = .ok ts ∧ scan s' = .ok ts' ∧
    ts'.map (·.atLine 1) = ts.map (·.atLine 1)
  /-- They have trees that are alike, or the same complaint about the same token. -/
  parse_eq : (∃ e e', parse s = .ok e ∧ parse s' = .ok e' ∧ e'.alike e) ∨
    ∃ err err', parse s = .error (.parse err) ∧ parse s' = .error (.parse err') ∧
      err'.near = err.near ∧ err'.detail = err.detail
  /-- They have the same SQL text or fail with the same error, also behind passes over leaves, which
  end in the same state. -/
  compile_eq : ∀ {σ : Type} {passes : List (Pass (StateM σ))} (q : Sql.Quoter) (st : σ),
    (∀ p ∈ passes, ∃ f, p = Pass.ofLeaf f) →
      ∃ x x' st', (compile passes q s).run st = (x, st') ∧
        (compile passes q s').run st = (x', st') ∧
        x'.mapError (CompileError.atLine 1) = x.mapError (CompileError.atLine 1)

/-- Trees that differ in lines only have the same SQL text, or fail with the same error. -/
theorem Sql.text_of_atLine_eq (q : Quoter) {n : Nat} {e e' : Expr}
    (h : e'.atLine n = e.atLine n) :
    ((text q e').mapError CompileError.sql).mapError (CompileError.atLine n) =
      ((text q e).mapError CompileError.sql).mapError (CompileError.atLine n) := by
  -- the line of an error may be changed before or after it is wrapped
  have hsql : ∀ x : Except SqlError String,
      (x.mapError CompileError.sql).mapError (CompileError.atLine n) =
        (x.mapError (SqlError.atLine n)).mapError CompileError.sql := by
    intro x
    cases x <;> rfl
  calc ((text q e').mapError CompileError.sql).mapError (CompileError.atLine n)
      = ((text q (e'.atLine n)).mapError (SqlError.atLine n)).mapError .sql := by
        rw [hsql, text_atLine]
    _ = ((text q (e.atLine n)).mapError (SqlError.atLine n)).mapError .sql := by rw [h]
    _ = ((text q e).mapError CompileError.sql).mapError (CompileError.atLine n) := by
        rw [hsql, text_atLine]

/-- **The meaning of a text is in its tokens.** -/
theorem sameMeaning_of_scan {s s' : String} {ts ts' : List Token} {n n' : Nat}
    (hscan : scan s = .ok (ts ++ [Token.eof n])) (hscan' : scan s' = .ok (ts' ++ [Token.eof n']))
    (hts : ts'.map (·.atLine 1) = ts.map (·.atLine 1)) : SameMeaning s s' := by
  have hcases := parse_cases_of_scan hscan hscan' hts
  refine ⟨⟨_, _, hscan, hscan', ?_⟩, ?_, ?_⟩
  · rw [List.map_append, List.map_append, hts]
    rfl
  · rcases hcases with ⟨e, e', he, he', hee'⟩ | ⟨err, err', herr, herr', heq⟩
    · exact .inl ⟨e, e', he, he', Expr.alike_of_atLine_eq hee'⟩
    · exact .inr ⟨err, err', herr, herr', ParseError.near_eq_of_atLine_eq heq,
        ParseError.detail_eq_of_atLine_eq heq⟩
  · -- passes and writing are run only where there is a tree
    intro σ passes q st hpasses
    rcases hcases with ⟨e, e', he, he', hee'⟩ | ⟨err, err', herr, herr', heq⟩
    · obtain ⟨x, x', st', hx, hx', hxx'⟩ := applyPasses_of_atLine_eq hpasses hee' st
      exact ⟨_, _, st', run_compile q (run_parseWith_of_ok he hx),
        run_compile q (run_parseWith_of_ok he' hx'), Sql.text_of_atLine_eq q hxx'⟩
    · refine ⟨_, _, st, run_compile_of_error q herr, run_compile_of_error q herr', ?_⟩
      exact congrArg (fun err => Except.error (CompileError.parse err)) heq

/-- **Blanks between tokens carry no meaning.** Every text that has tokens has a layout, and with
other blanks between these tokens it means the same. -/
theorem sameMeaning_of_respaced {s : String} {ts : List Token} (h : scan s = .ok ts) :
    (∃ items last, IsLayout s ts items last) ∧
      ∀ items last items' last' s', IsLayout s ts items last → Respaced items items' →
        last'.all Lexer.isSeparator → s'.toList = laid last' items' → SameMeaning s s' := by
  refine ⟨exists_isLayout_of_scan h, ?_⟩
  intro items last items' last' s' hlayout hrespaced hlast hs'
  have hspelled := hrespaced.spelled (hlayout.laidOut h) hlast
  rw [← hs'] at hspelled
  obtain ⟨ts', n', hscan', hts'⟩ := Lexer.tokens_of_spelled hspelled 1
  obtain ⟨n, rfl⟩ := hlayout.tokens_eq
  exact sameMeaning_of_scan h hscan' hts'

/-- The tokens of a range, each behind the blanks of `n in 1..:p`. -/
def rangeItems : List (List Char × Token) :=
  [([], ⟨.identifier, "n", none, 1⟩), ([' '], ⟨.kwIn, "in", none, 1⟩),
    ([' '], ⟨.number, "1", some (.integer 1), 1⟩), ([], ⟨.dotDot, "..", none, 1⟩),
    ([], ⟨.parameter, "p", none, 1⟩)]

/-- The same tokens behind other blanks. -/
def rangeItemsApart : List (List Char × Token) :=
  [(['\t'], ⟨.identifier, "n", none, 1⟩), (['\r', '\n'], ⟨.kwIn, "in", none, 1⟩),
    (['\n'], ⟨.number, "1", some (.integer 1), 1⟩), ([' '], ⟨.dotDot, "..", none, 1⟩),
    ([' '], ⟨.parameter, "p", none, 1⟩)]

/-- Other blanks stand for those that were there, and some stand where there were none. -/
theorem sameMeaning_of_respaced_range :
    SameMeaning "n in 1..:p" "\tn\r\nin\n1 .. :p " := by
  have hscan : scan "n in 1..:p" = .ok (rangeItems.map Prod.snd ++ [Token.eof 1]) :=
    eq_ok_of_toOption (by decide +kernel)
  have hlayout : IsLayout "n in 1..:p" (rangeItems.map Prod.snd ++ [Token.eof 1]) rangeItems [] :=
    ⟨⟨1, rfl⟩, by decide, by decide, by decide⟩
  exact (sameMeaning_of_respaced hscan).2 rangeItems [] rangeItemsApart [' '] _ hlayout
    ⟨rfl, by decide, by decide⟩ rfl (by decide)

end WhereClause
