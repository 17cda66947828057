import WhereClause.Text.CaseTable

/-!
# Upper and lower case

Full Unicode case conversion, independent of any language's conventions. One letter may become
several (`ß` gives `SS`), and the one rule that looks at the surroundings is that of the capital
sigma, which is written `ς` at the end of a word and `σ` elsewhere.
-/

namespace WhereClause.Text

/-- The upper case of one character. -/
def upperChar (c : Char) : List Char :=
  match upperExpansions.lookup c.toNat with
  | some codes => codes.map Char.ofNat
  | none =>
    match upperRuns.findSome? (·.map? c.toNat) with
    | some code => [Char.ofNat code]
    | none => [c]

/-- **Upper case** of a text, character by character. -/
def upper (s : String) : String :=
  String.ofList (s.toList.flatMap upperChar)

/-- The lower case of one character outside any word. The dotted capital I keeps its dot as a
combining mark. -/
def lowerChar (c : Char) : List Char :=
  if c = 'İ' then ['i', '\u0307']
  else
    match lowerRuns.findSome? (·.map? c.toNat) with
    | some code => [Char.ofNat code]
    | none => [c]

/-- Whether the first character that is not passed over is a letter with a case. -/
def meetsCased (cs : List Char) : Bool :=
  match cs.dropWhile caseIgnorable.contains with
  | c :: _ => cased.contains c
  | [] => false

/-- A sigma closes a word when a letter stands somewhere before it and none after it. The text
before is given from its end backwards. -/
def closesWord (before after : List Char) : Bool :=
  meetsCased before && !meetsCased after

/-- Lower case of a text's remaining characters, `before` being those already passed, nearest
first. -/
def lowerFrom (before : List Char) : List Char → List Char
  | [] => []
  | c :: cs =>
    (if c = 'Σ' then [if closesWord before cs then 'ς' else 'σ'] else lowerChar c)
      ++ lowerFrom (c :: before) cs

/-- **Lower case** of a text. -/
def lower (s : String) : String :=
  String.ofList (lowerFrom [] s.toList)

end WhereClause.Text
