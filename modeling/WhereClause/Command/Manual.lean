import WhereClause.Text.Case

/-!
# The manual

The pages that the program shows about its own language.
-/

namespace WhereClause.Manual

/-- The page that lists the others. -/
def overview : String :=
  "TREEXL DOCUMENTATION

Treexl is a small filter-expression language. Expressions compare columns,
literals and named parameters, and compile to SQL WHERE fragments.

DOCUMENTATION CATEGORIES

  syntax            Literals, identifiers, parameters, calls and grouping
  operators         Logical, equality, comparison, membership and unary operators
  sql               How expressions render as SQL and how parameters are collected

QUICK REFERENCE

  status = 'open' and priority >= 2
  owner.name like 'A%'
  id in (1, 4, 10)
  age in 18..65
  created > :since
  not archived = 1 or lower(name) = 'x'

Run 'treexl doc <category>' for detailed documentation.
"

/-- **A page of the manual.** -/
inductive Category where
  | syntaxPage
  | operators
  | sql
deriving DecidableEq

/-- The page with a given name, in whatever case the name is written. -/
def Category.ofName? (name : String) : Option Category :=
  match Text.lower name with
  | "syntax" => some syntaxPage
  | "operators" | "ops" => some operators
  | "sql" | "where" => some sql
  | _ => none

/-- What expressions are built from. -/
def syntaxText : String :=
  "SYNTAX - Building Blocks

LITERALS
  42          Integer
  1.50        Decimal (scale is kept: 1.50 renders as 1.50)
  'text'      String, single quotes only, may span lines
  true false  Booleans (parse, but have no SQL rendering)
  null

IDENTIFIERS
  name
  customer.address.city
    Letters, digits and underscores, not starting with a digit. Dotted paths
    fold into a single name.

PARAMETERS
  :since
    A named placeholder. ':' must be immediately followed by an identifier.

CALLS
  lower(name)
  schema.fn(a, 'b', 3)
    A name followed by '(' is a function call. Arguments may be empty.

GROUPING
  (a = 1 or b = 2) and c = 3

KEYWORDS
  and or not is in like true false null
    Keywords are lower case only. 'AND' is an identifier, and the error
    message says so when it gets in the way.
"

/-- The operators by precedence. -/
def operatorsText : String :=
  "OPERATORS - Lowest to Highest Precedence

  or                          left associative
  and                         left associative
  =  <>  is  in  like         left associative
  >  >=  <  <=                left associative
  not  -                      prefix, right associative

MEMBERSHIP
  x in (1, 2, 3)              value list
  x in 1..10                  inclusive range

  'between' is reserved and rejected: write 'x in 1..10' instead.

NULL CHECKS
  x is null
  x is not null
"

/-- How expressions are written as SQL. -/
def sqlText : String :=
  "SQL - WHERE Rendering

  a = 1 and b <> 'x'          a = 1 and b <> 'x'
  id in (1, 4, 10)            id in (1, 4, 10)
  age in 18..65               age between 18 and 65
  created > :since            created > $\x7bsince\x7d
  not a = 1                   not a = 1
  - -1                        - -1 (never --, which starts a comment)
  (a or b) and c              (a or b) and c

Quotes inside strings are escaped with '' by default, or \\' with
--quote-style backslash.

PARAMETERIZE
  treexl sql --parameterize \"A > 1 and B <> '2'\"
    \x7b\"sql\":\"A > $\x7b_1\x7d and B <> $\x7b_2\x7d\",\"params\":[1,\"2\"]\x7d

  Every literal becomes a parameter named _1, _2, ... in source order.

LIMITS
  Boolean literals and value lists outside 'in' cannot be rendered.
"

/-- The text of a page. -/
def Category.text : Category → String
  | syntaxPage => syntaxText
  | operators => operatorsText
  | sql => sqlText

end WhereClause.Manual
