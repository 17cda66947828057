import WhereClause.Token

/-!
# Writing SQL

A sink takes text up to a limit. A write that does not fit leaves the part that does and fails,
and what the sink held before is never changed. Rendering is a sequence of such writes that stops
at the first failure.
-/

namespace WhereClause

/-- **Why an expression cannot be written.** -/
inductive SqlError where
  /-- No literal of this type can be written. -/
  | unsupportedLiteral (typeName : String)
  /-- A list of values stands elsewhere than on the right of `in`. -/
  | unsupportedList
  | invalidUnaryOperator (operator : Token)
  | invalidBinaryOperator (operator : Token)
  /-- The sink is full, or what stands for a quote cannot be written. -/
  | write
deriving DecidableEq

/-- The message of an error. -/
def SqlError.message : SqlError → String
  | unsupportedLiteral typeName => "Literal of type " ++ typeName ++ " is not supported."
  | unsupportedList => "A value list can only be rendered as the right side of 'in'."
  | invalidUnaryOperator operator => "Invalid unary operator: " ++ operator.text
  | invalidBinaryOperator operator => "Invalid binary operator: " ++ operator.text
  | write => "Failed to write SQL: an error occurred when formatting an argument"

namespace Sql

/-- **A sink**: the text written so far, and how many characters it still takes, if that is
limited. -/
structure Sink where
  text : String
  room : Option Nat
deriving DecidableEq

/-- A sink without a limit that holds nothing. -/
def Sink.empty : Sink :=
  ⟨"", none⟩

/-- **Writing to a sink**, with the possibility of failure. -/
abbrev Writer (α : Type) : Type :=
  ExceptT SqlError (StateM Sink) α

/-- Appends a text, or as much of it as there is room for. -/
def write (s : String) : Writer Unit :=
  fun sink =>
    match sink.room with
    | none => (.ok (), ⟨sink.text ++ s, none⟩)
    | some n =>
      if s.length ≤ n then (.ok (), ⟨sink.text ++ s, some (n - s.length)⟩)
      else (.error .write, ⟨sink.text ++ String.ofList (s.toList.take n), some 0⟩)

/-- Runs a writer on a sink, and answers its result and the sink afterwards. -/
def Writer.runOn {α : Type} (w : Writer α) (sink : Sink) : Except SqlError α × Sink :=
  w.run.run sink

/-- **The text that a writer writes** where there is no limit, if it does not fail. -/
def Writer.text (w : Writer Unit) : Except SqlError String :=
  match w.runOn .empty with
  | (.ok _, sink) => .ok sink.text
  | (.error e, _) => .error e

/-! ### Quotes -/

/-- **What is written for a quote inside a string.** -/
abbrev Quoter : Type :=
  Writer Unit

/-- A fixed text for each quote. -/
def Quoter.fixed (s : String) : Quoter :=
  write s

/-- The quote is written twice. -/
def Quoter.doubled : Quoter :=
  fixed "''"

/-- The quote is written behind a backslash. -/
def Quoter.backslash : Quoter :=
  fixed "\\'"

/-- Quotes cannot be written. -/
def Quoter.failing : Quoter :=
  throw .write

end Sql

end WhereClause
