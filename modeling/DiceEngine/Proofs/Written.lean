import DiceEngine.Proofs.Transcript

/-!
# Texts written in one pass

The texts of an evaluation can be written while its terms are rolled, without a
record: each term is rolled with its faces shown, its lines are put behind the
lines that are there, and its value joins the total
(`Expression.writeBrief`, `Expression.writeFull`). A term that is written knows
how many terms stand in front of it, and leaves out its operator where there
are none.

What one term writes can be told from its outcome (`Term.Writes`), so by
induction on the terms what all of them write is told from the record, in
blocks of lines (`Record.blocks`, `Expression.foldlM_writeTerm`). These are the
lines of the texts, and both ways to come to a text are the same computation
(`Expression.writeBrief_eq`, `Expression.writeFull_eq`).
-/

namespace DiceEngine

/-! ## Lines in blocks -/

/-- The line of the brief text, with none behind it. -/
def Outcome.briefLines (o : Outcome) : String × List String := (o.briefLine, [])

namespace Record

/-- The lines of each outcome, the first of them behind its operator. -/
def blocks (lines : Outcome → String × List String) (r : Record) : List (List String) :=
  r.leads.zipWith (fun lead p => (lead ++ (lines p.2).1) :: (lines p.2).2) r

theorem blocks_cons (lines : Outcome → String × List String) (op : Operator) (o : Outcome)
    (r : Record) : blocks lines ((op, o) :: r) = ((lines o).1 :: (lines o).2) ::
      r.map fun p => (p.1.symbol.toString ++ " " ++ (lines p.2).1) :: (lines p.2).2 := by
  rw [blocks, leads, List.zipWith_cons_cons, List.zipWith_map_left, List.zipWith_self,
    String.empty_append]

theorem briefLines_eq (r : Record) :
    r.briefLines.map (fun line => [line]) = r.blocks Outcome.briefLines := by
  rw [briefLines, List.map_zipWith]
  rfl

theorem flatten_blocks_briefLines (r : Record) :
    (r.blocks Outcome.briefLines).flatten = r.briefLines := by
  rw [← briefLines_eq, ← List.flatMap_def, List.flatMap_singleton']

theorem fullLines_eq (r : Record) : r.fullLines = (r.blocks Outcome.fullLines).flatten := rfl

/-- What stands in front of the first line of a term that has so many terms in front of it. -/
def leadAt (index : Nat) (op : Operator) : String :=
  if 0 < index then op.symbol.toString ++ " " else ""

/-- The blocks of outcomes that have so many outcomes in front of them. -/
def blocksFrom (lines : Outcome → String × List String) (index : Nat) (r : Record) :
    List (List String) :=
  (r.zipIdx index).map fun p => (leadAt p.2 p.1.1 ++ (lines p.1.2).1) :: (lines p.1.2).2

theorem blocksFrom_cons (lines : Outcome → String × List String) (index : Nat) (op : Operator)
    (o : Outcome) (r : Record) : blocksFrom lines index ((op, o) :: r) =
      ((leadAt index op ++ (lines o).1) :: (lines o).2) :: blocksFrom lines (index + 1) r := by
  rw [blocksFrom, List.zipIdx_cons, List.map_cons, blocksFrom]

/-- Behind the first outcome all have their operators. -/
theorem blocksFrom_succ (lines : Outcome → String × List String) (r : Record) : ∀ index : Nat,
    blocksFrom lines (index + 1) r =
      r.map fun p => (p.1.symbol.toString ++ " " ++ (lines p.2).1) :: (lines p.2).2 := by
  induction r with
  | nil => exact fun _ => rfl
  | cons p r ih =>
    intro index
    rw [blocksFrom_cons, ih, leadAt, if_pos (Nat.succ_pos index), List.map_cons]

theorem blocks_eq (lines : Outcome → String × List String) (r : Record) :
    r.blocks lines = r.blocksFrom lines 0 := by
  cases r with
  | nil => rfl
  | cons p r =>
    rw [blocks_cons, blocksFrom_cons, blocksFrom_succ, leadAt, if_neg (Nat.lt_irrefl 0),
      String.empty_append]

end Record

/-! ## Single terms -/

variable {σ : Type} [WordSource σ]

namespace Term

/-- Roll the term, and write its line of the brief text behind this. -/
def writeBrief (lead : String) : Term → Draw σ (Int × List String)
  | literal value => pure (value, [lead ++ toString value])
  | dice g => do
    let (value, faces) ← g.rollShown
    return (value, [lead ++ toString g.quantity ++ "d" ++ toString g.sides ++ ": [" ++
      ", ".intercalate ((g.kept faces).map toString) ++ "] -> " ++ toString value])

/-- Roll the term, and write its lines of the full text, the first one behind this. -/
def writeFull (lead : String) : Term → Draw σ (Int × List String)
  | literal value => pure (value, [lead ++ toString value])
  | dice g => do
    let (value, faces) ← g.rollShown
    let header := lead ++ toString g.quantity ++ "d" ++ toString g.sides ++ ": [" ++
      ", ".intercalate (faces.map toString) ++ "]"
    match g.keep with
    | some k => return (value, [header, "  " ++ k.selector.name ++ " " ++ toString k.count ++
        " (" ++ ", ".intercalate ((g.kept faces).map toString) ++ ") -> " ++ toString value])
    | none => return (value, [header ++ " -> " ++ toString value])

/-- What is written of a term are these lines of its outcome, the first one behind the lead. -/
def Writes (write : String → Term → Draw σ (Int × List String))
    (lines : Outcome → String × List String) : Prop :=
  ∀ lead t, write lead t =
    (fun o => (o.value, (lead ++ (lines o).1) :: (lines o).2)) <$> (t.outcome : Draw σ Outcome)

theorem writes_brief : Writes (writeBrief (σ := σ)) Outcome.briefLines := by
  intro lead t
  cases t with
  | literal v => rfl
  | dice g =>
    rw [writeBrief, outcome, DieGroup.rollShown]
    simp only [bind_assoc, pure_bind, map_bind, map_pure]
    refine bind_congr fun faces => congrArg pure (Prod.ext rfl ?_)
    simp only [Outcome.briefLines, Outcome.briefLine, Outcome.named, Outcome.listed,
      String.append_assoc]

theorem writes_full : Writes (writeFull (σ := σ)) Outcome.fullLines := by
  intro lead t
  cases t with
  | literal v => rfl
  | dice g =>
    rw [writeFull, outcome, DieGroup.rollShown]
    simp only [bind_assoc, pure_bind, map_bind, map_pure]
    refine bind_congr fun faces => ?_
    rcases hk : g.keep with _ | k <;>
    · refine congrArg pure (Prod.ext rfl ?_)
      simp only [Outcome.fullLines, Outcome.named, Outcome.listed, hk, String.append_assoc]

end Term

/-! ## All terms -/

namespace Expression

/-- Write one term, with its place among the terms, behind the lines that are there. -/
def writeTerm (write : String → Term → Draw σ (Int × List String)) (written : Int × List String)
    (step : (Operator × Term) × Nat) : Draw σ (Int × List String) := do
  let (value, lines) ← write (Record.leadAt step.2 step.1.1) step.1.2
  return (← step.1.1.apply written.1 value, written.2 ++ lines)

/-- Write all terms of an expression, one after another. -/
def writeTerms (write : String → Term → Draw σ (Int × List String)) (e : Expression) :
    Draw σ (Int × List String) := do
  (← e.steps).zipIdx.foldlM (writeTerm write) (0, [])

/-- The total together with the brief text, written in one pass. -/
def writeBrief (e : Expression) : Draw σ (Int × String) := do
  let (total, lines) ← e.writeTerms Term.writeBrief
  return (total, "\n".intercalate lines)

/-- The total together with the full text, written in one pass. -/
def writeFull (e : Expression) : Draw σ (Int × String) := do
  let (total, lines) ← e.writeTerms Term.writeFull
  return (total, "\n".intercalate (lines ++ ["= " ++ toString total]))

section Passes

variable {write : String → Term → Draw σ (Int × List String)}
  {lines : Outcome → String × List String} (h : Term.Writes write lines)

include h

/-- The terms write the blocks of their record behind the lines that are there. -/
theorem foldlM_writeTerm (steps : List (Operator × Term)) :
    ∀ (index : Nat) (total : Int) (before : List String),
      (steps.zipIdx index).foldlM (writeTerm write) (total, before) =
        (fun p => (p.1, before ++ (p.2.blocksFrom lines index).flatten)) <$>
          (recordOnto total steps : Draw σ (Int × Record)) := by
  induction steps with
  | nil =>
    intro index total before
    show pure (total, before) = pure (total, before ++ [])
    rw [List.append_nil]
  | cons step steps ih =>
    intro index total before
    obtain ⟨op, t⟩ := step
    rw [List.zipIdx_cons, List.foldlM_cons, writeTerm, recordOnto, h]
    simp only [bind_map_left, bind_assoc, pure_bind, map_bind, map_pure, ih]
    refine bind_congr fun o => bind_congr fun total' => ?_
    rw [← bind_pure_comp]
    refine bind_congr fun p => ?_
    rw [Record.blocksFrom_cons, List.flatten_cons, List.append_assoc]

theorem writeTerms_eq (e : Expression) : (e.writeTerms write : Draw σ (Int × List String)) =
    (fun p => (p.1, (p.2.blocks lines).flatten)) <$> e.record := by
  rw [writeTerms, record, map_bind]
  refine bind_congr fun steps => ?_
  rw [foldlM_writeTerm h]
  simp only [List.nil_append, Record.blocks_eq]

end Passes

/-- To write the brief text in one pass is to record the evaluation and to make it of the record. -/
theorem writeBrief_eq (e : Expression) : (e.writeBrief : Draw σ (Int × String)) = e.rollBrief := by
  rw [writeBrief, writeTerms_eq Term.writes_brief, rollBrief, bind_map_left]
  simp only [Record.flatten_blocks_briefLines]
  rfl

/-- The same of the full text. -/
theorem writeFull_eq (e : Expression) : (e.writeFull : Draw σ (Int × String)) = e.rollFull := by
  rw [writeFull, writeTerms_eq Term.writes_full, rollFull, bind_map_left]
  rfl

end Expression

end DiceEngine
