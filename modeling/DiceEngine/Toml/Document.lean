import DiceEngine.Toml.Value

/-!
# TOML documents

A document is a list of entries and, behind them, sections under headers. `Document.entries` makes
it one table: the sections whose paths begin with the same key belong together, and in the items of
an array of tables so do those between one header of the array and the next. Two sections with the
same plain header in one place are refused, and so is a key that is both a table and an array of
tables.

The entries of a document do not merge with its sections: a key that has both is there twice.
-/

namespace DiceEngine.Toml

/-- A header and the entries behind it. -/
structure Section where
  path : List String
  /-- Whether the section is the next item of an array. -/
  inArray : Bool
  entries : Entries

structure Document where
  root : Entries
  sections : List Section

namespace Reader

/-- The path of a header, and the tokens behind its line. -/
def header (limit : Nat) (inArray : Bool) (ts : List Token) :
    Option (List String × List Token) := do
  let (first, path, ts) ← dottedKey limit (skipBlanks ts)
  match ts with
  | .rightBracket :: ts =>
    if inArray then
      match ts with
      | .rightBracket :: ts => do return (first :: path, ← endLine ts)
      | _ => none
    else do return (first :: path, ← endLine ts)
  | _ => none

/-- A line with a key and its value, added to the entries so far. -/
def entry (limit : Nat) (entries : Entries) (ts : List Token) :
    Option (Entries × List Token) := do
  let (first, path, ts) ← dottedKey limit ts
  match ts with
  | .equals :: ts =>
    let (v, ts) ← value limit (skipBlanks ts)
    return (← Value.insert entries first path v, ← endLine ts)
  | _ => none

/-- The lines of at most `limit` entries and headers. The entries are added to the section `current`
or, before the first header, to the document itself. -/
def lines : (limit : Nat) → (root : Entries) → (done : List Section) → (current : Option Section) →
    List Token → Option Document
  | 0, _, _, _, _ => none
  | limit + 1, root, done, current, ts =>
    let closed := match current with
      | some s => s :: done
      | none => done
    match skipLines ts with
    | [] => some ⟨root, closed.reverse⟩
    | .leftBracket :: .leftBracket :: ts => do
      let (path, ts) ← header limit true ts
      lines limit root closed (some ⟨path, true, []⟩) ts
    | .leftBracket :: ts => do
      let (path, ts) ← header limit false ts
      lines limit root closed (some ⟨path, false, []⟩) ts
    | ts =>
      match current with
      | some s => do
        let (entries, ts) ← entry limit s.entries ts
        lines limit root done (some { s with entries }) ts
      | none => do
        let (entries, ts) ← entry limit root ts
        lines limit entries done none ts

end Reader

/-- The document of a text. No part of it takes more steps than there are tokens. -/
def Document.parse (text : String) : Option Document := do
  let ts ← Token.scan text
  Reader.lines (ts.length + 1) [] [] none ts

namespace Section

/-- Whether the section's header names this very place. -/
def isHere (s : Section) : Bool := s.path.isEmpty

/-- The same section seen from inside its first key. -/
def inside (s : Section) : Section := { s with path := s.path.tail }

/-- Cut the sections of an array of tables in front of each of its headers. -/
def items : List Section → List (Section × List Section)
  | [] => []
  | s :: rest =>
    if s.isHere && s.inArray then
      (s, rest.takeWhile fun t => !(t.isHere && t.inArray)) :: items rest
    else items rest

mutual

/-- The table of sections that are no deeper than `limit`. -/
def table : (limit : Nat) → List Section → Option Entries
  | _, [] => some []
  | 0, _ => none
  | limit + 1, s :: rest =>
    match s.path.head? with
    | none => none
    | some key => do
      let (mine, others) := (s :: rest).partition fun t => t.path.head? == some key
      let v ← gather limit (mine.map inside)
      return (key, v) :: (← table limit others)

/-- The value of the sections under one key, seen from inside that key. The first of them decides
whether it is an array of tables. -/
def gather : (limit : Nat) → List Section → Option Value
  | 0, _ => none
  | limit + 1, ss =>
    match ss with
    | [] => none
    | s :: _ =>
      if s.isHere && s.inArray then do
        let vs ← (items ss).mapM fun (s, rest) =>
          if rest.any isHere then none
          else do return .table .sections (s.entries ++ (← table limit rest))
        return .array vs
      else
        let (here, deeper) := ss.partition isHere
        match here with
        | [] => do return .table .sections (← table limit deeper)
        | [h] =>
          if h.inArray then none
          else do return .table .sections (h.entries ++ (← table limit deeper))
        | _ => none

end

/-- More steps than it takes to go through the sections key by key. -/
def steps (ss : List Section) : Nat := ss.foldl (fun n s => n + (2 * s.path.length + 2)) 0

end Section

/-- The document as one table. -/
def Document.entries (d : Document) : Option Entries := do
  return d.root ++ (← Section.table (Section.steps d.sections) d.sections)

end DiceEngine.Toml
