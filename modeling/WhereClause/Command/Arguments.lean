import WhereClause.Command

/-!
# Command lines

Reads the arguments of the command line. Flags may stand before or after the expression; `--` ends
them, so that an expression may start with a minus sign. A value follows its flag as the next
argument or behind an equals sign. Switches of one letter may be joined. A flag may be given once.
Arguments are read from left to right, and the first mistake, or the first request for help,
decides.
-/

namespace WhereClause

/-- **What a command line asks for.** -/
inductive Request where
  | run (command : Command)
  | version
  | help
  /-- The command line makes no sense. -/
  | misuse
deriving DecidableEq

namespace Arguments

/-! ### Flags and positions -/

/-- **A flag** that a command knows, with the values it takes. A flag without values is a
switch. -/
structure Flag where
  long : String
  short : Option Char
  values : List String

/-- **The arguments read so far**: flags with their values, and the other arguments. -/
structure Given where
  flags : List (String × String)
  positionals : List String

/-- Nothing yet. -/
def Given.none : Given :=
  ⟨[], []⟩

/-- Whether a flag was given. -/
def Given.has (g : Given) (long : String) : Bool :=
  g.flags.any (·.1 == long)

/-- Why reading stops before the end. -/
inductive Stop where
  | help
  | misuse

/-- Takes in a flag with its value. -/
def Given.addFlag (g : Given) (flag : Flag) (value : String) : Except Stop Given :=
  if g.has flag.long then .error .misuse
  else if flag.values.isEmpty || flag.values.contains value then
    .ok { g with flags := g.flags ++ [(flag.long, value)] }
  else
    .error .misuse

/-- Takes in an argument that is no flag, of which there may be at most `limit`. -/
def Given.addPositional (limit : Nat) (g : Given) (arg : String) : Except Stop Given :=
  if g.positionals.length < limit then .ok { g with positionals := g.positionals ++ [arg] }
  else .error .misuse

/-- Whether an argument looks like a flag. A minus sign alone does not. -/
def looksLikeFlag (arg : String) : Bool :=
  match arg.toList with
  | '-' :: _ :: _ => true
  | _ => false

/-- Switches of one letter, joined behind one minus sign. -/
def readShort (flags : List Flag) (g : Given) : List Char → Except Stop Given
  | [] => .ok g
  | c :: cs => do
    if c = 'h' then throw .help
    match flags.find? (·.short == some c) with
    | none => throw .misuse
    | some flag =>
      let g' ← g.addFlag flag ""
      readShort flags g' cs

/-- The name and the value of a flag written with an equals sign. -/
def splitValue (body : List Char) : String × Option String :=
  (String.ofList (body.takeWhile (· != '=')),
    match body.dropWhile (· != '=') with
    | [] => none
    | _ :: value => some (String.ofList value))

/-- Arguments behind `--`, none of which is a flag. -/
def readPlain (limit : Nat) (g : Given) : List String → Except Stop Given
  | [] => .ok g
  | arg :: rest => do
    let g' ← g.addPositional limit arg
    readPlain limit g' rest

/-- A flag of one word, `body` being the argument without its two minus signs. Answers also the
flag itself where its value is still to come. -/
def readLong (flags : List Flag) (g : Given) (body : List Char) :
    Except Stop (Given × Option Flag) := do
  let (name, attached) := splitValue body
  if name == "help" && attached.isNone then throw .help
  match flags.find? (·.long == name), attached with
  | none, _ => throw .misuse
  | some flag, some value =>
    if flag.values.isEmpty then throw .misuse
    return (← g.addFlag flag value, none)
  | some flag, none =>
    if flag.values.isEmpty then return (← g.addFlag flag "", none)
    return (g, some flag)

/-- **Reads the arguments of a command** that knows certain flags and takes at most `limit` other
arguments. A flag may be waiting for its value. -/
def read (flags : List Flag) (limit : Nat) (g : Given) :
    Option Flag → List String → Except Stop Given
  | none, [] => .ok g
  | some _, [] => .error .misuse
  | some flag, arg :: rest => do
    if looksLikeFlag arg then throw .misuse
    let g' ← g.addFlag flag arg
    read flags limit g' none rest
  | none, arg :: rest =>
    match arg.toList with
    | ['-', '-'] => readPlain limit g rest
    | '-' :: '-' :: body => do
      let (g', waiting) ← readLong flags g body
      read flags limit g' waiting rest
    | '-' :: c :: cs => do
      let g' ← readShort flags g (c :: cs)
      read flags limit g' none rest
    | _ => do
      let g' ← g.addPositional limit arg
      read flags limit g' none rest

/-! ### Commands -/

/-- The flags of the command that writes SQL. -/
def sqlFlags : List Flag := [
  ⟨"parameterize", none, []⟩,
  ⟨"pretty", some 'p', []⟩,
  ⟨"quote-style", none, ["double", "backslash"]⟩,
  ⟨"upper-identifiers", none, []⟩]

/-- The command that writes SQL, from its arguments. -/
def sqlCommand (g : Given) : Command :=
  .sql g.positionals.head?
    ⟨g.has "parameterize",
      if g.flags.lookup "quote-style" == some "backslash" then .backslash else .doubled,
      g.has "upper-identifiers"⟩
    (g.has "pretty")

/-- The names of the commands. -/
def commandNames : List String :=
  ["sql", "check", "tokens", "inspect", "docs", "doc", "help"]

/-- What the arguments of a command ask for. -/
def requestOf (name : String) (args : List String) : Request :=
  let build := fun (flags : List Flag) (limit : Nat) (command : Given → Request) =>
    match read flags limit .none none args with
    | .error .help => .help
    | .error .misuse => .misuse
    | .ok g => command g
  match name with
  | "sql" => build sqlFlags 1 fun g => .run (sqlCommand g)
  | "check" => build [] 1 fun g => .run (.check g.positionals.head?)
  | "tokens" => build [] 1 fun g => .run (.tokens g.positionals.head?)
  | "inspect" => build [] 1 fun g => .run (.inspect g.positionals.head?)
  | "docs" => build [] 0 fun _ => .run .docs
  | "doc" => build [] 1 fun g =>
    match g.positionals.head? with
    | some category => .run (.doc category)
    | none => .misuse
  | "help" =>
    match args with
    | [] => .help
    | [topic] => if commandNames.contains topic then .help else .misuse
    | _ => .misuse
  | _ => .misuse

end Arguments

/-- **What a command line asks for.** Before the command only the requests for help and for the
version may stand. -/
def Request.ofArguments : List String → Request
  | [] => .misuse
  | arg :: rest =>
    match arg.toList with
    | '-' :: '-' :: _ =>
      if arg == "--version" then .version
      else if arg == "--help" then .help
      else .misuse
    | '-' :: 'V' :: _ => .version
    | '-' :: 'h' :: _ => .help
    | _ => Arguments.requestOf arg rest

end WhereClause
