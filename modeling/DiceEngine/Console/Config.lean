import DiceEngine.Expression.Reader
import DiceEngine.Toml.Document

/-!
# Configuration of the console

A configuration is written in TOML: a seed, the mode in which bare expressions are answered, and
names for expressions. Each of the three may be left out, and keys of other names are ignored. A
document with any fault gives no configuration at all: `Config.parse` has no partial result.
-/

namespace DiceEngine.Console

/-- How a roll is answered. -/
inductive Mode where
  /-- With the total alone. -/
  | total
  /-- With the faces that were kept. -/
  | verbose
  /-- With all faces. -/
  | full
  deriving DecidableEq, Repr

namespace Mode

def name : Mode → String
  | total => "total"
  | verbose => "verbose"
  | full => "full"

def ofName? (s : String) : Option Mode :=
  [total, verbose, full].find? fun m => m.name == s

end Mode

/-- Names for expressions, each name at most once. -/
abbrev Aliases := List (String × Expression)

namespace Aliases

def find? (a : Aliases) (name : String) : Option Expression := a.lookup name

def erase (a : Aliases) (name : String) : Aliases := a.filter fun r => r.1 != name

/-- Give an expression a name, which takes the name from any other. -/
def insert (a : Aliases) (name : String) (e : Expression) : Aliases :=
  a.erase name ++ [(name, e)]

end Aliases

structure Config where
  seed : Option UInt64
  mode : Mode
  aliases : Aliases

namespace Config

/-- The configuration of a console that is given none. -/
def default : Config := ⟨none, .total, []⟩

/-- The value of a key that may stand in a document once, or nothing where it is missing. A key that
is repeated is a fault. -/
def single? (key : String) (entries : Toml.Entries) : Option (Option Toml.Value) :=
  match entries.filter fun r => r.1 == key with
  | [] => some none
  | [(_, v)] => some (some v)
  | _ => none

/-- A seed is an integer that is not negative. -/
def seedOf : Toml.Value → Option UInt64
  | .integer n => if 0 ≤ n then some n.toNat.toUInt64 else none
  | _ => none

/-- The mode that the only section of a document names with the last key of its header. -/
def modeOfHeader (d : Toml.Document) : Option Mode :=
  match d.root, d.sections with
  | [], [s] => if s.entries.isEmpty then s.path.getLast?.bind Mode.ofName? else none
  | _, _ => none

/-- A mode is its name, or a table in braces with that name as its only key and an empty table
under it; or else the document has nothing but the header of such a table. -/
def modeOf (d : Toml.Document) : Toml.Value → Option Mode
  | .string s => Mode.ofName? s
  | .table .braces [(name, .table .braces [])] => Mode.ofName? name
  | .table .sections _ => modeOfHeader d
  | .array _ => modeOfHeader d
  | _ => none

/-- Each value is the text of an expression. Of two with the same name the later one counts, but the
earlier one is read all the same. -/
def aliasesOf (v : Toml.Value) : Option Aliases := do
  (← v.entries?).foldlM (fun (aliases : Aliases) (name, v) =>
    match v with
    | .string s => (Expression.parse s).toOption.map (aliases.insert name)
    | _ => none) []

/-- The configuration that a document describes. -/
def ofDocument (d : Toml.Document) : Option Config := do
  let entries ← d.entries
  let seed ← single? "seed" entries
  let mode ← single? "mode" entries
  let aliases ← single? "aliases" entries
  return {
    seed := ← seed.mapM seedOf
    mode := (← mode.mapM (modeOf d)).getD default.mode
    aliases := (← aliases.mapM aliasesOf).getD default.aliases }

/-- The configuration that a text describes. -/
def parse (text : String) : Option Config := do
  ofDocument (← Toml.Document.parse text)

/-- The configuration of a console that is given this text. -/
def load (text : Option String) : Config := (text.bind parse).getD default

end Config

end DiceEngine.Console
