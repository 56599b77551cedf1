import FormulaLang.Formula.Session

/-!
# Command line

Reads the arguments and the standard input, and writes what the session answers.
-/

namespace FormulaLang

/-- A host without custom functions. Its random numbers come from a linear congruential generator. -/
def plainHost : Host UInt64 where
  random := do
    let seed := (← get) * 6364136223846793005 + 1442695040888963407
    set seed
    return Binary64.ofRatio false (seed >>> 11).toNat (2 * Binary64.leadingBit)
  custom handle _ := throw (.raised handle)

/-- Writes an output. -/
def write (o : Session.Output) : IO Unit := do
  let stdout ← IO.getStdout
  stdout.putStr (String.ofList o.out)
  stdout.flush
  let stderr ← IO.getStderr
  stderr.putStr (String.ofList o.err)
  stderr.flush

/-- Answers the lines of the standard input. -/
partial def interact (verbosity : Nat) (current : Option Formula) (seed : UInt64) : IO Unit := do
  write Session.prompt
  let line ← (← IO.getStdin).getLine
  if line.isEmpty then write Session.farewell
  else
    let ((current, output, goesOn), seed) := Session.step plainHost verbosity current line.toList seed
    write output
    if goesOn then interact verbosity current seed

end FormulaLang

open FormulaLang in
/-- Evaluates the formula among the arguments, or answers the standard input line by line. -/
def main (arguments : List String) : IO UInt32 := do
  let seed := (← IO.monoNanosNow).toUInt64
  let (count, rest) := Session.readOptions (arguments.map String.toList)
  let verbosity := Log.verbosity count
  match rest with
  | [] => do
    write Session.greeting
    interact verbosity none seed
    return 0
  | formula :: bindings => do
    let ((output, ending), _) := Session.evaluateOnce plainHost verbosity formula bindings seed
    write output
    match ending with
    | .done => return 0
    | .exit code => return code.toUInt32
    | .fault e => do
      write (Session.Output.ofFault e)
      return 1
