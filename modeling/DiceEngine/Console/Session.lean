import DiceEngine.Console.Command
import DiceEngine.Decimal.Fixed
import DiceEngine.Expression.Bounds
import DiceEngine.Expression.Expectation
import DiceEngine.Expression.Transcript
import DiceEngine.Random.ChaCha

/-!
# Sessions of the console

Each line gets an answer, and all rolls of a session draw from one source. Lines that roll nothing
leave the source as it is.
-/

namespace DiceEngine.Console

/-- The answer to a line that asks for help. -/
def helpText : String :=
  "roll|r <expr>     roll and print the total\n" ++
  "verbose|v <expr>  show the kept faces of every term\n" ++
  "full|f <expr>     show every rolled face\n" ++
  "stats|s <expr>    minimum, maximum and expected value\n" ++
  "help|h            this text\n" ++
  "A bare expression or alias name is rolled in the configured mode."

/-- Expected values have three decimals. -/
def expectedFormat : Decimal.Format := { places := 3 }

/-- Bounds and expected value of an expression. -/
def stats (e : Expression) : Except Fault String := do
  let least ← e.minimum
  let greatest ← e.maximum
  let expected ← e.expected
  return e.text ++ ": min " ++ toString least ++ " max " ++ toString greatest ++ " expected " ++
    expectedFormat.text expected

variable {σ : Type} [WordSource σ]

/-- A roll as a mode shows it. -/
def render (mode : Mode) (e : Expression) : Draw σ String :=
  match mode with
  | .total => do return toString (← e.roll)
  | .verbose => do
    let (total, text) ← e.rollBrief
    return text ++ "\n= " ++ toString total
  | .full => do return (← e.rollFull).2

/-- The answer to a line. -/
def answer (c : Config) (line : String) : Draw σ String :=
  match Command.parse c.mode c.aliases line with
  | .ok .help => pure helpText
  | .ok (.roll mode e) => render mode e
  | .ok (.stats e) => stats e
  | .error _ => pure "invalid expression"

/-- The answers to all lines, in order. A fault is an answer, too. -/
def answers (c : Config) : List String → StateM σ (List (Except Fault String))
  | [] => pure []
  | line :: lines => do
    let a ← (answer c line).run
    return a :: (← answers c lines)

/-- What the console prints on a line of its input: nothing on a blank one. -/
def printed (c : Config) (line : String) : Draw σ String := do
  if line.toList.all Text.isBlank then return ""
  else return (← answer c line) ++ "\n"

/-- The lines of a text. A newline ends a line, and so does the end of the text where it does not
follow a newline. -/
def linesOf (input : String) : List String :=
  let parts := input.splitOn "\n"
  if parts.getLast? = some "" then parts.dropLast else parts

/-- All that the console prints on its input, and the fault that ended it, if any. -/
def printedAll (c : Config) : List String → StateM σ (String × Option Fault)
  | [] => pure ("", none)
  | line :: lines => do
    match ← (printed c line).run with
    | .error f => return ("", some f)
    | .ok text =>
      let (rest, f) ← printedAll c lines
      return (text ++ rest, f)

/-- The source of a session. A configured seed goes before any other. -/
def source (c : Config) (otherwise : ChaCha) : ChaCha :=
  match c.seed with
  | some seed => .ofSeed20 seed
  | none => otherwise

end DiceEngine.Console
