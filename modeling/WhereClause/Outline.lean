/-!
# Outlines

Nested record notation: every part of a structure on a line of its own, indented by four blanks
for each level, and followed by a comma.
-/

namespace WhereClause

/-- **An outline.** -/
inductive Outline where
  /-- A text that stands on its line as it is. -/
  | atom (text : String)
  /-- One part in parentheses behind a name. -/
  | wrapped (name : String) (part : Outline)
  /-- Named parts in braces behind a name. -/
  | record (name : String) (fields : List (String × Outline))
  /-- Parts in brackets. -/
  | list (parts : List Outline)

namespace Outline

/-- The blanks at the start of a line. -/
def indent (level : Nat) : String :=
  String.ofList (List.replicate (4 * level) ' ')

/-- Lines between an opening and a closing bracket, `level` being that of the brackets. -/
def enclosed (opening closing : String) (level : Nat) (lines : List String) : String :=
  opening ++ "\n"
    ++ String.join (lines.map fun line => indent (level + 1) ++ line ++ ",\n")
    ++ indent level ++ closing

mutual

/-- The text of an outline whose first line is already indented. -/
def textAt (level : Nat) : Outline → String
  | atom text => text
  | wrapped name part => enclosed (name ++ "(") ")" level [part.textAt (level + 1)]
  | record name fields => enclosed (name ++ " \x7b") "\x7d" level (fieldTexts (level + 1) fields)
  | list [] => "[]"
  | list (part :: parts) =>
    enclosed "[" "]" level (part.textAt (level + 1) :: partTexts (level + 1) parts)

/-- The texts of several outlines. -/
def partTexts (level : Nat) : List Outline → List String
  | [] => []
  | part :: parts => part.textAt level :: partTexts level parts

/-- The texts of named parts. -/
def fieldTexts (level : Nat) : List (String × Outline) → List String
  | [] => []
  | (name, part) :: rest => (name ++ ": " ++ part.textAt level) :: fieldTexts level rest

end

/-- **The text of an outline.** -/
def text (o : Outline) : String :=
  o.textAt 0

end Outline

end WhereClause
