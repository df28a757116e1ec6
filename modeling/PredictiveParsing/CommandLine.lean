import PredictiveParsing.Languages.Calculator
import PredictiveParsing.Languages.Lambda
import PredictiveParsing.Languages.Pi
import PredictiveParsing.Parsing.Report
import PredictiveParsing.Text.Blank

/-!
# The command line

Each language has a program, which parses the words of its arguments or else all of its standard
input, and writes what it made of it. A program answers the exit status and what goes to the two
output streams.
-/

namespace PredictiveParsing.CommandLine

/-- What the arguments ask for. -/
inductive Request
  | help
  | version
  /-- Nothing, as the option takes no value. -/
  | valueRefused (option value : String)
  /-- The text to parse, or nothing if it is to be read. -/
  | run (input : Option String)
deriving DecidableEq, Repr

/-- The words joined by spaces, if there are any. -/
def joinWords : List String → Option String
  | [] => none
  | words => some (String.intercalate " " words)

/-- What an option with the long name asks for. -/
def longOption? (name : Text) : Option Request :=
  if name = "help".toList then some .help
  else if name = "version".toList then some .version
  else none

/-- What an option with the short name asks for. -/
def shortOption? (name : Char) : Option Request :=
  if name = 'h' then some .help
  else if name = 'V' then some .version
  else none

/-- What a word asks for as an option: one hyphen and short names, all of them known, of which the
first decides, or two hyphens and a long name. An equals sign behind a long name begins a value. -/
def option? : Text → Option Request
  | '-' :: '-' :: word => do
    let name := word.takeWhile (· != '=')
    let request ← longOption? name
    match word.dropWhile (· != '=') with
    | [] => some request
    | _ :: value => some (.valueRefused (String.ofList ('-' :: '-' :: name)) (String.ofList value))
  | '-' :: c :: cs => if (c :: cs).all (shortOption? · |>.isSome) then shortOption? c else none
  | _ => none

/-- What the arguments ask for. Only the first argument can be an option or the two hyphens that end
options; behind it everything is a word of the input, and so is it if it is neither. -/
def request : List String → Request
  | [] => .run none
  | "--" :: words => .run (joinWords words)
  | word :: words => (option? word.toList).getD (.run (joinWords (word :: words)))

/-- What a program leaves behind. -/
structure Outcome where
  exit : Nat
  out : String
  err : String
deriving DecidableEq, Repr

/-- A program of the command line. -/
structure Program where
  name : String
  about : String
  /-- What is written for an input. -/
  process : Text → Except Failure String

/-- The line that answers a request for the version. -/
def Program.version (p : Program) : String :=
  p.name ++ " 0.1.0\n"

/-- The lines that answer a request for help. -/
def Program.help (p : Program) : String :=
  p.about ++ "\n\nUsage: " ++ p.name ++ " [INPUT]...\n\n" ++
    "Arguments:\n  [INPUT]...  Text to parse; read from stdin when omitted\n\n" ++
    "Options:\n  -h, --help     Print help\n  -V, --version  Print version\n"

/-- What is written if an option gets a value. -/
def Program.valueRefused (p : Program) (option value : String) : String :=
  "error: unexpected value '" ++ value ++ "' for '" ++ option ++
    "' found; no more were expected\n\nUsage: " ++ p.name ++ " " ++ option ++ " [INPUT]...\n\n" ++
    "For more information, try '--help'.\n"

/-- Evaluates arithmetic. -/
def calculator : Program where
  name := "calc-parser"
  about := "Evaluates an arithmetic expression"
  process input := do
    let value ← Calculator.evaluate input
    return String.ofList input.trim ++ " = " ++ Decimal.write value ++ "\n"

/-- Shows the structure of lambda terms. -/
def lambda : Program where
  name := "lambda-parser"
  about := "Parses a lambda term and prints its structure"
  process input := do
    let result ← Lambda.parse input
    let term ← result.getValue.mapError Failure.rejected
    return String.ofList input.trim ++ "\n==> " ++ term.inspect ++ " at " ++ toString result.span ++
      "\n"

/-- Prints processes. -/
def pi : Program where
  name := "pi-parser"
  about := "Parses a pi-calculus process"
  process input := do
    let process ← Pi.parseProcess input
    return "Parsing: '" ++ String.ofList input.trimEnd ++ "'\nGives: " ++
      String.ofList process.written ++ "\n"

/-- The programs. -/
def programs : List Program := [calculator, lambda, pi]

/-- Runs a program over an input. -/
def Program.runOn (p : Program) (input : Text) : Outcome :=
  match p.process input with
  | .ok text => ⟨0, text, ""⟩
  | .error (.rejected e) =>
    match e.report input with
    | .ok text => ⟨1, "", text ++ "\n"⟩
    | .error f => ⟨101, "", f.message ++ "\n"⟩
  | .error (.fault f) => ⟨101, "", f.message ++ "\n"⟩
  | .error .exhausted => ⟨134, "", "the input nests too deeply\n"⟩

/-- Runs a program with arguments. The standard input is looked at only if they hold no text. -/
def Program.run (p : Program) (arguments : List String) (stdin : ByteArray) : Outcome :=
  match request arguments with
  | .help => ⟨0, p.help, ""⟩
  | .version => ⟨0, p.version, ""⟩
  | .valueRefused option value => ⟨2, "", p.valueRefused option value⟩
  | .run (some input) => p.runOn input.toList
  | .run none =>
    match String.fromUTF8? stdin with
    | some input => p.runOn input.toList
    | none => ⟨1, "", "error: cannot read input: stream did not contain valid UTF-8\n"⟩

end PredictiveParsing.CommandLine
