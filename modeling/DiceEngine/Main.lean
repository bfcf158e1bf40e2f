import DiceEngine.Console.Session
import DiceEngine.Simulation.ArrayFile
import DiceEngine.Simulation.Report

/-!
# The command line

`console [FILE]` answers the lines of the standard input; the configuration is read from the file,
or else from the one that the variable `DICE_CONSOLE_CONFIG` names. `simulate EXPRESSION [COUNT]`
prints the report of a simulation and writes its histogram to `rolls.npy`.
-/

open DiceEngine

namespace DiceEngine.Program

/-- A stream whose key is taken from the randomness of the system. -/
def freshSource : IO ChaCha := do
  let bytes ← IO.getRandomBytes 32
  let word (i : Nat) : UInt32 :=
    (List.range 4).foldr (fun j w => w <<< 8 ||| (bytes.data.getD (4 * i + j) 0).toUInt32) 0
  return .ofKey 10 (Vector.ofFn fun i => word i)

/-- The text of a configuration file, if it can be read. -/
def textOf (file : String) : IO (Option String) := do
  try
    return some (← IO.FS.readFile file)
  catch _ =>
    return none

/-- Answer the lines of the input one by one. -/
partial def answerLines (c : Console.Config) (input output : IO.FS.Stream) (source : ChaCha) :
    IO UInt32 := do
  let line ← input.getLine
  if line.isEmpty then return 0
  match (Console.printed c line).run source with
  | (.error f, _) =>
    IO.eprintln f.message
    return 1
  | (.ok text, source) =>
    output.putStr text
    output.flush
    answerLines c input output source

def console (args : List String) : IO UInt32 := do
  let file ← match args with
    | file :: _ => pure (some file)
    | [] => IO.getEnv "DICE_CONSOLE_CONFIG"
  let text ← match file with
    | some file => textOf file
    | none => pure none
  let config := Console.Config.load text
  answerLines config (← IO.getStdin) (← IO.getStdout) (Console.source config (← freshSource))

def simulate (args : List String) : IO UInt32 := do
  match Simulation.reportOf args (← freshSource) with
  | .error failure =>
    IO.eprintln failure.message
    return 1
  | .ok report =>
    IO.print report.text
    IO.FS.writeBinFile "rolls.npy" (Simulation.ArrayFile.bytes report.histogram)
    return 0

end DiceEngine.Program

def main (args : List String) : IO UInt32 := do
  match args with
  | "console" :: rest => Program.console rest
  | "simulate" :: rest => Program.simulate rest
  | _ =>
    IO.eprintln "usage: console [FILE] | simulate EXPRESSION [COUNT]"
    return 2
