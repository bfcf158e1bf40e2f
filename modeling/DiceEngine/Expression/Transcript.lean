import DiceEngine.Expression.Roll

/-!
# Transcripts

An evaluation that also records what each term showed, and the two texts that are made of the
record. The brief text has a line for each term, with the faces that were kept. The full text has
all faces, a further line where some were chosen, and the total at its end.
-/

namespace DiceEngine

/-- What a term showed. -/
inductive Outcome where
  | literal (value : Int)
  | dice (group : DieGroup) (faces : List Int)
  deriving DecidableEq, Repr

namespace Outcome

/-- What the term counts for. -/
def value : Outcome → Int
  | literal value => value
  | dice g faces => g.keptSum faces

/-- Faces between commas. -/
def listed (faces : List Int) : String := ", ".intercalate (faces.map toString)

/-- The dice of a group as a line names them. -/
def named (g : DieGroup) : String := toString g.quantity ++ "d" ++ toString g.sides

/-- The line of the brief text, behind the operator. -/
def briefLine : Outcome → String
  | literal value => toString value
  | dice g faces =>
    named g ++ ": [" ++ listed (g.kept faces) ++ "] -> " ++ toString (g.keptSum faces)

/-- The lines of the full text; the first one stands behind the operator. -/
def fullLines : Outcome → String × List String
  | literal value => (toString value, [])
  | dice g faces =>
    let header := named g ++ ": [" ++ listed faces ++ "]"
    let value := toString (g.keptSum faces)
    match g.keep with
    | some k =>
      (header, ["  " ++ k.selector.name ++ " " ++ toString k.count ++ " (" ++
        listed (g.kept faces) ++ ") -> " ++ value])
    | none => (header ++ " -> " ++ value, [])

end Outcome

/-- What the terms of an expression showed, each with the operator in front of it. -/
abbrev Record := List (Operator × Outcome)

namespace Record

/-- What stands in front of the line of a term: its operator, but nothing on the first line. -/
def leads (r : Record) : List String :=
  match r with
  | [] => []
  | _ :: rest => "" :: rest.map fun (op, _) => op.symbol.toString ++ " "

def briefLines (r : Record) : List String :=
  r.leads.zipWith (fun lead (_, o) => lead ++ o.briefLine) r

def fullLines (r : Record) : List String :=
  (r.leads.zipWith (fun lead (_, o) => (lead ++ o.fullLines.1) :: o.fullLines.2) r).flatten

/-- The brief text. -/
def brief (r : Record) : String := "\n".intercalate r.briefLines

/-- The full text of a record with this total. -/
def full (r : Record) (total : Int) : String :=
  "\n".intercalate (r.fullLines ++ ["= " ++ toString total])

end Record

variable {σ : Type} [WordSource σ]

/-- Throw what the term has to throw. -/
def Term.outcome : Term → Draw σ Outcome
  | literal value => pure (.literal value)
  | dice g => do return .dice g (← g.throw)

namespace Expression

/-- Let the terms join the total one after another, and record them. -/
def recordOnto (total : Int) : List (Operator × Term) → Draw σ (Int × Record)
  | [] => pure (total, [])
  | (op, t) :: rest => do
    let o ← t.outcome
    let total ← op.apply total o.value
    let (total, r) ← recordOnto total rest
    pure (total, (op, o) :: r)

/-- The total of an expression and the record of its evaluation. -/
def record (e : Expression) : Draw σ (Int × Record) := do
  recordOnto 0 (← e.steps)

/-- The total together with the brief text. -/
def rollBrief (e : Expression) : Draw σ (Int × String) := do
  let (total, r) ← e.record
  return (total, r.brief)

/-- The total together with the full text. -/
def rollFull (e : Expression) : Draw σ (Int × String) := do
  let (total, r) ← e.record
  return (total, r.full total)

end Expression

end DiceEngine
