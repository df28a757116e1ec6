import PredictiveParsing.CommandLine

/-!
# Running the programs

The first argument names the program; the others are its own.
-/

section

open PredictiveParsing

/-- Runs a program of the command line. -/
def main (arguments : List String) : IO UInt32 := do
  let some name := arguments.head? | do
    IO.eprintln "usage: calc-parser|lambda-parser|pi-parser [INPUT]..."
    return 2
  let some program := CommandLine.programs.find? fun p => p.name == name | do
    IO.eprintln ("unknown program: " ++ name)
    return 2
  let words := arguments.drop 1
  let stdin ← match CommandLine.request words with
    | .run none => (← IO.getStdin).readBinToEnd
    | _ => pure .empty
  let outcome := program.run words stdin
  IO.print outcome.out
  IO.eprint outcome.err
  return outcome.exit.toUInt32

end
