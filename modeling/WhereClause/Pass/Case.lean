import WhereClause.Pass
import WhereClause.Text.Case

/-!
# Renaming identifiers

Passes that change the names of columns and functions. A name that comes out as it went in is
kept, so such a pass leaves untouched whatever it has nothing to do with.
-/

namespace WhereClause.Pass

variable {m : Type → Type} [Monad m]

/-- **Renames every identifier**, called functions included. -/
def rename (f : String → String) : Pass m :=
  ofLeaf fun
    | .identifier name => pure (if f name = name then .keep else .replace (.identifier (f name)))
    | _ => pure .keep

/-- Puts all identifiers into upper case. -/
def upperCase : Pass m := rename Text.upper

/-- Puts all identifiers into lower case. -/
def lowerCase : Pass m := rename Text.lower

end WhereClause.Pass
