import DiceEngine.Decimal.Shortest
import DiceEngine.Expression.Reader
import DiceEngine.Text.Quoted

/-!
# Exchange of groups and expressions

In data that other programs read and write, a die group or an expression is a string, its canonical
text. Reading goes through the parser, so it takes every spelling, and what is written is canonical.
Lists and maps are read as a whole: the first element that is refused, in the order of a list or of
the keys of a map, is the answer.
-/

namespace DiceEngine.Exchange

/-- Data as it is exchanged. -/
inductive Datum where
  | null
  | boolean (b : Bool)
  | integer (n : Int)
  | decimal (x : Float)
  | string (s : String)
  | sequence (items : List Datum)
  | mapping (entries : List (String × Datum))
  deriving Inhabited

/-- What is wanted where something else is found. -/
inductive Wanted where
  | expressionString
  | sequence
  | mapping
  deriving DecidableEq, Repr

/-- Why data are refused. -/
inductive Refusal where
  | malformed (m : Malformed)
  | wrongType (found : Datum) (wanted : Wanted)

namespace Datum

/-- What a message calls the data. -/
def described : Datum → String
  | null => "null"
  | boolean b => "boolean `" ++ (if b then "true" else "false") ++ "`"
  | integer n => "integer `" ++ toString n ++ "`"
  | decimal x => "floating point `" ++ Decimal.shortestText x ++ "`"
  | string s => "string " ++ Text.quoted s
  | sequence _ => "sequence"
  | mapping _ => "map"

end Datum

def Wanted.described : Wanted → String
  | expressionString => "a dice expression string"
  | sequence => "a sequence"
  | mapping => "a map"

def Refusal.message : Refusal → String
  | malformed m => m.message
  | wrongType found wanted =>
    "invalid type: " ++ found.described ++ ", expected " ++ wanted.described

/-- Read a string by a parser. -/
def readText {α : Type} (parse : String → Except Malformed α) : Datum → Except Refusal α
  | .string s => (parse s).mapError .malformed
  | d => .error (.wrongType d .expressionString)

def readGroup : Datum → Except Refusal DieGroup := readText DieGroup.parse

def readExpression : Datum → Except Refusal Expression := readText Expression.parse

/-- Read every item of a list. -/
def readGroups : Datum → Except Refusal (List DieGroup)
  | .sequence items => items.mapM readGroup
  | d => .error (.wrongType d .sequence)

/-- Read every value of a map, in the order of the keys. -/
def readExpressions : Datum → Except Refusal (List (String × Expression))
  | .mapping entries =>
    (entries.mergeSort fun a b => a.1 ≤ b.1).mapM fun (key, d) => do
      return (key, ← readExpression d)
  | d => .error (.wrongType d .mapping)

def writeGroup (g : DieGroup) : Datum := .string g.text

def writeExpression (e : Expression) : Datum := .string e.text

def writeGroups (gs : List DieGroup) : Datum := .sequence (gs.map writeGroup)

def writeExpressions (es : List (String × Expression)) : Datum :=
  .mapping (es.map fun (key, e) => (key, writeExpression e))

end DiceEngine.Exchange
