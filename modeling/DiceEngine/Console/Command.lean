import DiceEngine.Console.Config

/-!
# Command lines

A line asks for help, or begins with a keyword and goes on with an expression, or is an expression.
An expression may be given by its alias, and an alias is looked for first. Letters of keywords may
be of either case.
-/

namespace DiceEngine.Console

/-- What a line asks for. -/
inductive Command where
  | help
  | roll (mode : Mode) (e : Expression)
  | stats (e : Expression)
  deriving DecidableEq, Repr

/-- What is done with the expression behind a keyword. -/
inductive Keyword where
  | roll (mode : Mode)
  | stats
  deriving DecidableEq, Repr

namespace Keyword

/-- The keyword of a word in small letters. -/
def ofWord? : String → Option Keyword
  | "roll" | "r" => some (.roll .total)
  | "verbose" | "v" => some (.roll .verbose)
  | "full" | "f" => some (.roll .full)
  | "stats" | "s" => some .stats
  | _ => none

def command : Keyword → Expression → Command
  | roll mode => .roll mode
  | stats => .stats

end Keyword

namespace Command

/-- What separates a keyword from its expression. -/
def isGap (c : Char) : Bool := c == ' ' || c == '\t' || c == '\r' || c == '\n'

def lowercase (s : List Char) : String := String.ofList (s.map Char.toLower)

/-- The keyword at the start of a line, and the text behind it and the gap that it must have. -/
def keyword? (line : List Char) : Option (Keyword × List Char) := do
  let word := line.takeWhile fun c => !isGap c
  let k ← Keyword.ofWord? (lowercase word)
  match line.drop word.length with
  | [] => none
  | rest => some (k, rest.dropWhile isGap)

/-- The expression with this name, or else the one that the text spells. -/
def expression (aliases : Aliases) (text : List Char) : Except Malformed Expression :=
  match aliases.find? (String.ofList (Text.trim text)) with
  | some e => .ok e
  | none => Expression.parse (String.ofList text)

/-- What a line asks for; bare expressions are rolled in the given mode. -/
def parse (mode : Mode) (aliases : Aliases) (line : String) : Except Malformed Command :=
  let line := Text.trim line.toList
  if lowercase line = "help" || lowercase line = "h" then .ok .help
  else
    match keyword? line with
    | some (k, text) => (expression aliases text).map k.command
    | none => (expression aliases line).map (.roll mode)

end Command

end DiceEngine.Console
