import DiceEngine.Toml.Number

/-!
# Values of TOML documents

The value behind the equals sign of a line. A table remembers how it was spelled, as only a table
that grew out of dotted keys can be added to by another dotted key. A date or a time is kept as it is
written, as only its shape is looked at; where a table is wanted it passes for one, whose only entry
is that text.
-/

namespace DiceEngine.Toml

/-- The ways to write a table. -/
inductive Spelling where
  | braces
  | dottedKeys
  | sections
  deriving DecidableEq, Repr

inductive Value where
  | string (text : String)
  | integer (n : Int)
  | float (x : Float)
  | boolean (b : Bool)
  /-- A date or a time, as it is written. -/
  | date (text : String)
  | array (items : List Value)
  | table (spelling : Spelling) (entries : List (String × Value))

/-- Keys with their values, in the order of the document. A key may stand there twice. -/
abbrev Entries := List (String × Value)

namespace Value

/-- The key that the text of a date has where the date passes for a table. -/
def dateKey : String := "$__toml_private_datetime"

/-- What a value holds where a table is wanted. -/
def entries? : Value → Option Entries
  | .table _ entries => some entries
  | .date text => some [(dateKey, .string text)]
  | _ => none

/-- The table of one entry that a path of keys leads into. -/
def atPath : List String → Value → Value
  | [], v => v
  | key :: path, v => .table .dottedKeys [(key, atPath path v)]

/-- Change the first entry with a key. -/
def changeFirst (key : String) (f : Value → Option Value) : Entries → Option Entries
  | [] => none
  | (k, v) :: rest =>
    if k = key then do return (k, ← f v) :: rest
    else do return (k, v) :: (← changeFirst key f rest)

/-- Add a value under a dotted key. A key alone is added even where it stands already; a path goes
through tables that were made by dotted keys, and makes those that are missing. -/
def insert (entries : Entries) : (key : String) → (path : List String) → Value → Option Entries
  | key, [], v => some (entries ++ [(key, v)])
  | key, next :: path, v =>
    if entries.any (·.1 == key) then
      changeFirst key (fun old =>
        match old with
        | .table .dottedKeys inner => (insert inner next path v).map (.table .dottedKeys)
        | _ => none) entries
    else some (entries ++ [(key, atPath (next :: path) v)])

end Value

namespace Reader

/-- The tokens behind a run of blanks. -/
def skipBlanks : List Token → List Token
  | .blanks _ :: ts => ts
  | ts => ts

/-- The tokens behind blanks, newlines and comments. -/
def skipLines : List Token → List Token
  | .blanks _ :: ts => skipLines ts
  | .newline :: ts => skipLines ts
  | .comment :: ts => skipLines ts
  | ts => ts

/-- The tokens behind the end of a line, where the line holds nothing more than a comment. -/
def endLine (ts : List Token) : Option (List Token) :=
  match skipBlanks ts with
  | .comment :: .newline :: ts => some ts
  | .comment :: [] => some []
  | .newline :: ts => some ts
  | [] => some []
  | _ => none

def key : List Token → Option (String × List Token)
  | .bare s :: ts => some (String.ofList s, ts)
  | .quoted s false :: ts => some (String.ofList s, ts)
  | _ => none

/-- A key of at most `limit` parts with periods between them: the first part, the others, and the
tokens behind them and the blanks there. -/
def dottedKey : (limit : Nat) → List Token → Option (String × List String × List Token)
  | 0, _ => none
  | limit + 1, ts => do
    let (first, ts) ← key ts
    match skipBlanks ts with
    | .period :: ts =>
      let (second, path, ts) ← dottedKey limit (skipBlanks ts)
      some (first, second :: path, ts)
    | ts => some (first, [], ts)

/-- A part of a time that may be missing: a mark and a run of characters. The mark does not stand
alone. What is read, and the tokens behind it. -/
def markedPart (mark : Token) (c : Char) (ts : List Token) : Option (List Char × List Token) :=
  match ts with
  | [] => some ([], [])
  | t :: rest =>
    if t = mark then
      match rest with
      | .bare s :: ts => some (c :: s, ts)
      | _ => none
    else some ([], ts)

/-- The minutes and seconds of a time, a fraction of a second and an offset, and the tokens behind
them. -/
def minutes (ts : List Token) : Option (List Char × List Token) :=
  match ts with
  | .bare minute :: .colon :: .bare second :: ts => do
    let (fraction, ts) ← markedPart .period '.' ts
    let (offset, ts) ← markedPart .plus '+' ts
    let (offsetMinute, ts) ← markedPart .colon ':' ts
    some (minute ++ ':' :: second ++ fraction ++ offset ++ offsetMinute, ts)
  | _ => none

/-- A date or a time that begins with a run of characters, and the tokens behind it. A space may
stand between a date and its time. -/
def date (start : List Char) (ts : List Token) : Option (Value × List Token) := do
  let (time, ts) := match ts with
    | .blanks [' '] :: .bare s :: ts => (' ' :: s, ts)
    | ts => ([], ts)
  let (rest, ts) ← match ts with
    | .colon :: ts => do
      let (s, ts) ← minutes ts
      some (':' :: s, ts)
    | ts => some ([], ts)
  some (.date (String.ofList (start ++ time ++ rest)), ts)

/-- Whether a text has the two characters in a row. -/
def hasPair (c d : Char) : List Char → Bool
  | x :: y :: rest => (x == c && y == d) || hasPair c d (y :: rest)
  | _ => false

/-- Whether a run of letters, digits and dashes begins a date or a time: there is a `T` in it, or a
dash that is neither a sign nor belongs to an exponent. -/
def looksLikeDate (s : List Char) : Bool :=
  s.contains 'T' || s.contains 't' ||
    (s.tail.contains '-' && !hasPair 'e' '-' s && !hasPair 'E' '-' s)

def number (s : List Char) (ts : List Token) : Option (Value × List Token) :=
  match s with
  | '0' :: 'x' :: s => (Number.integerIn 16 s).map fun n => (.integer n, ts)
  | '0' :: 'o' :: s => (Number.integerIn 8 s).map fun n => (.integer n, ts)
  | '0' :: 'b' :: s => (Number.integerIn 2 s).map fun n => (.integer n, ts)
  | s =>
    if s.contains 'e' || s.contains 'E' then
      (Number.float s none ts).map fun r => (.float r.1, r.2)
    else
      match ts with
      | .period :: .bare after :: ts =>
        (Number.float s (some after) ts).map fun r => (.float r.1, r.2)
      | .period :: _ => none
      | _ =>
        if s = ['i', 'n', 'f'] then some (.float (1 / 0), ts)
        else if s = ['-', 'i', 'n', 'f'] then some (.float (-1 / 0), ts)
        else if s = ['n', 'a', 'n'] || s = ['-', 'n', 'a', 'n'] then some (.float (0 / 0), ts)
        else (Number.decimalInteger s).map fun n => (.integer n, ts)

def numberOrDate (s : List Char) (ts : List Token) : Option (Value × List Token) :=
  if looksLikeDate s || ts.head? == some .colon then date s ts else number s ts

/-- A value that is written in letters, digits and dashes. -/
def bareValue (s : List Char) (ts : List Token) : Option (Value × List Token) :=
  if s = ['t', 'r', 'u', 'e'] then some (.boolean true, ts)
  else if s = ['f', 'a', 'l', 's', 'e'] then some (.boolean false, ts)
  else if s = ['i', 'n', 'f'] || s = ['n', 'a', 'n'] then numberOrDate s ts
  else
    match s with
    | c :: _ => if c == '-' || c.isDigit then numberOrDate s ts else none
    | [] => none

mutual

/-- A value of at most `limit` levels and items. -/
def value : (limit : Nat) → List Token → Option (Value × List Token)
  | 0, _ => none
  | limit + 1, ts =>
    match ts with
    | .quoted s _ :: ts => some (.string (String.ofList s), ts)
    | .bare s :: ts => bareValue s ts
    | .plus :: .bare s :: ts => number s ts
    | .leftBracket :: ts => (items limit (skipLines ts)).map fun r => (.array r.1, r.2)
    | .leftBrace :: ts =>
      match skipBlanks ts with
      | .rightBrace :: ts => some (.table .braces [], ts)
      | ts => (inlineEntries limit [] ts).map fun r => (.table .braces r.1, r.2)
    | _ => none

/-- The items of an array up to its closing bracket. -/
def items : (limit : Nat) → List Token → Option (List Value × List Token)
  | 0, _ => none
  | limit + 1, ts =>
    match ts with
    | .rightBracket :: ts => some ([], ts)
    | ts => do
      let (v, ts) ← value limit ts
      match skipLines ts with
      | .comma :: ts =>
        let (vs, ts) ← items limit (skipLines ts)
        some (v :: vs, ts)
      | .rightBracket :: ts => some ([v], ts)
      | _ => none

/-- The entries of a table in braces, up to its closing brace, behind those read so far. -/
def inlineEntries : (limit : Nat) → Entries → List Token → Option (Entries × List Token)
  | 0, _, _ => none
  | limit + 1, entries, ts => do
    let (first, path, ts) ← dottedKey limit ts
    match ts with
    | .equals :: ts =>
      let (v, ts) ← value limit (skipBlanks ts)
      let entries ← Value.insert entries first path v
      match skipBlanks ts with
      | .rightBrace :: ts => some (entries, ts)
      | .comma :: ts => inlineEntries limit entries (skipBlanks ts)
      | _ => none
    | _ => none

end

end Reader

end DiceEngine.Toml
