import WhereClause.Command.Run

/-!
# The program

Reads the arguments and, where a command asks for it, the input; prints the outcome.
-/

namespace WhereClause

/-- All bytes of a stream. -/
def readAll (stream : IO.FS.Stream) : IO ByteArray := do
  let mut bytes := ByteArray.empty
  repeat
    let chunk ← stream.read 65536
    if chunk.isEmpty then break
    bytes := bytes ++ chunk
  return bytes

/-- The input of a request; a terminal is no input. -/
def inputOf (request : Request) : IO (Option ByteArray) := do
  let stdin ← IO.getStdin
  if !request.readsInput || (← stdin.isTty) then return none
  return some (← readAll stdin)

end WhereClause

def main (args : List String) : IO UInt32 := do
  let request := WhereClause.Request.ofArguments args
  let outcome := request.outcome (← WhereClause.inputOf request)
  IO.print outcome.output
  IO.eprint outcome.errors
  return outcome.exitCode.toUInt32
