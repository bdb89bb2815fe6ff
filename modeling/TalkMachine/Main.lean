import TalkMachine.CommandLine

/-!
# The program

Runs the command line: results to standard output, complaints to standard error.
-/

open TalkMachine in
/-- Runs the program with the arguments it was called with. -/
def main (arguments : List String) : IO UInt32 := do
  let outcome := CommandLine.run arguments
  IO.print outcome.output
  match outcome with
  | .rejected => IO.eprintln "error: the arguments cannot be understood; for help, try '--help'"
  | _ => outcome.errorLine?.forM IO.eprintln
  return outcome.exitCode
