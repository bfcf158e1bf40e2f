import DiceEngine.Proofs.Choices
import DiceEngine.Proofs.Cost
import DiceEngine.Proofs.Expectation
import DiceEngine.Proofs.ReadBack

/-!
# What the transcripts tell

The two texts of an evaluation are blocks of lines, one block for each term, and
no line of them is broken; so who reads the texts back finds what each outcome of
the record shows (`Record.brief_eq`, `Record.full_eq`). The record of an evaluation
is one of its expression and has its total (`Expression.record_of_run`), and thus
the texts tell the operators, the values, the faces and the total
(`Expression.Told`, `Expression.texts_tell_faces`).
-/

namespace DiceEngine

/-! ## The texts are read back -/

namespace ReadBack

theorem lines_intercalate {ls : List String} (hne : ls ≠ []) (h : ∀ l ∈ ls, '\n' ∉ l.toList) :
    lines ("\n".intercalate ls) = ls.map String.toList := by
  rw [lines, String.toList_intercalate]
  show List.splitOn '\n' (['\n'].intercalate _) = _
  rw [List.splitOn_intercalate _ (List.forall_mem_map.mpr h) (mt List.map_eq_nil_iff.mp hne)]

theorem operator_lead (op : Operator) (line : String) :
    operator (op.symbol.toString ++ " " ++ line).toList = some (op, line.toList) := by
  rw [String.toList_append]
  cases op <;> rfl

/-- Blocks of one line that is not indented and some that are. -/
theorem splitBy_indented {blocks : List (List (List Char))}
    (h : ∀ block ∈ blocks, ∃ line rest, block = line :: rest ∧ indented line = false ∧
      ∀ l ∈ rest, indented l = true) :
    blocks.flatten.splitBy (fun _ line => indented line) = blocks := by
  apply List.splitBy_flatten
  · intro hnil
    obtain ⟨line, rest, heq, -⟩ := h _ hnil
    cases heq
  · intro block hblock
    obtain ⟨line, rest, rfl, -, hrest⟩ := h block hblock
    refine List.Pairwise.isChain (List.pairwise_cons.mpr ⟨hrest, ?_⟩)
    exact List.pairwise_of_forall_mem_list fun _ _ l hl => hrest l hl
  · refine (List.pairwise_of_forall_mem_list fun block hblock next hnext => ?_).isChain
    obtain ⟨line, rest, rfl, -⟩ := h block hblock
    obtain ⟨line', rest', rfl, hline, -⟩ := h next hnext
    exact ⟨List.cons_ne_nil _ _, List.cons_ne_nil _ _, hline⟩

end ReadBack

namespace Record

open ReadBack

/-- The entries of a record whose outcomes show this. -/
def told (view : Outcome → Shown) : Record → List Entry
  | [] => []
  | (_, o) :: r => ⟨none, view o⟩ :: r.map fun p => ⟨some p.1, view p.2⟩

theorem length_blocks (lines : Outcome → String × List String) (r : Record) :
    (r.blocks lines).length = r.length := by
  cases r with
  | nil => rfl
  | cons step r => rw [blocks_cons, List.length_cons, List.length_map, List.length_cons]

theorem length_briefLines (r : Record) : r.briefLines.length = r.length := by
  rw [← length_blocks Outcome.briefLines r, ← briefLines_eq, List.length_map]

section

variable {lines : Outcome → String × List String}

/-- A reader who can read the lines of each outcome can read the lines of a record. -/
theorem entries_blocks {view : Outcome → Shown}
    (h : ∀ o, block (((lines o).1 :: (lines o).2).map String.toList) = some (view o))
    (r : Record) :
    ReadBack.entries ((r.blocks lines).map (List.map String.toList)) = some (r.told view) := by
  cases r with
  | nil => rfl
  | cons step r =>
    obtain ⟨op, o⟩ := step
    have hrest : ∀ p : Operator × Outcome,
        entry (((p.1.symbol.toString ++ " " ++ (lines p.2).1) :: (lines p.2).2).map String.toList) =
          some ⟨some p.1, view p.2⟩ := by
      intro p
      have ho := h p.2
      rw [List.map_cons] at ho ⊢
      rw [entry, operator_lead]
      simp only [Option.bind_eq_bind, Option.bind_some, ho]
    rw [blocks_cons, List.map_cons, List.map_map, ReadBack.entries, h o]
    simp only [Option.bind_eq_bind, Option.bind_some]
    refine Option.bind_eq_some_iff.mpr ⟨_, mapM_map_eq_some hrest r, rfl⟩

/-- A block has the lines of an outcome, with an operator or nothing in front of the first one. -/
theorem exists_of_mem_blocks {r : Record} {block : List String} (h : block ∈ r.blocks lines) :
    ∃ lead o, block = (lead ++ (lines o).1) :: (lines o).2 ∧
      (lead = "" ∨ ∃ op : Operator, lead = op.symbol.toString ++ " ") := by
  cases r with
  | nil => cases h
  | cons step r =>
    obtain ⟨op, o⟩ := step
    rw [blocks_cons, List.mem_cons, List.mem_map] at h
    rcases h with rfl | ⟨p, -, rfl⟩
    · exact ⟨"", o, by rw [String.empty_append], .inl rfl⟩
    · exact ⟨_, p.2, rfl, .inr ⟨p.1, rfl⟩⟩

theorem exists_cons_of_mem_blocks
    (h : ∀ o, indented (lines o).1.toList = false ∧ ∀ l ∈ (lines o).2, indented l.toList = true)
    {r : Record} {block : List String} (hblock : block ∈ r.blocks lines) :
    ∃ line rest, block = line :: rest ∧ indented line.toList = false ∧
      ∀ l ∈ rest, indented l.toList = true := by
  obtain ⟨lead, o, rfl, hlead⟩ := exists_of_mem_blocks hblock
  refine ⟨_, _, rfl, ?_, (h o).2⟩
  rcases hlead with rfl | ⟨op, rfl⟩
  · rw [String.empty_append]
    exact (h o).1
  · rw [String.toList_append, String.toList_append]
    cases op <;> rfl

theorem newline_not_mem_blocks
    (h : ∀ o, ∀ line ∈ (lines o).1 :: (lines o).2, '\n' ∉ line.toList) (r : Record) :
    ∀ line ∈ (r.blocks lines).flatten, '\n' ∉ line.toList := by
  intro line hline
  obtain ⟨block, hblock, hmem⟩ := List.mem_flatten.mp hline
  obtain ⟨lead, o, rfl, hlead⟩ := exists_of_mem_blocks hblock
  obtain ⟨hfirst, hrest⟩ := List.forall_mem_cons.mp (h o)
  rcases List.mem_cons.mp hmem with rfl | hmem
  · refine Outcome.newline_not_mem_append.mpr ⟨?_, hfirst⟩
    rcases hlead with rfl | ⟨op, rfl⟩
    · decide
    · cases op <;> decide
  · exact hrest line hmem

end

theorem brief_eq {r : Record} (h : r ≠ []) :
    lines r.brief = r.briefLines.map String.toList ∧
      ReadBack.brief r.brief = some (r.told Outcome.inBrief) := by
  have hlines : lines r.brief = r.briefLines.map String.toList := by
    rw [brief, lines_intercalate]
    · exact List.ne_nil_of_length_pos (r.length_briefLines ▸ List.length_pos_iff.mpr h)
    · have h := newline_not_mem_blocks Outcome.newline_not_mem_briefLines r
      rwa [flatten_blocks_briefLines] at h
  refine ⟨hlines, ?_⟩
  have hread := r.entries_blocks Outcome.block_brief
  rw [← briefLines_eq, List.map_map] at hread
  rw [ReadBack.brief, hlines, List.map_map]
  exact hread

theorem full_eq (r : Record) (total : Int) :
    lines (r.full total) = r.fullLines.map String.toList ++ [("= " ++ toString total).toList] ∧
      ReadBack.full (r.full total) = some (r.told Outcome.inFull, total) := by
  have hlines : lines (r.full total) =
      r.fullLines.map String.toList ++ [("= " ++ toString total).toList] := by
    rw [full, lines_intercalate, List.map_append, List.map_singleton]
    · exact List.append_ne_nil_of_right_ne_nil _ (List.cons_ne_nil _ _)
    · rw [List.forall_mem_append]
      refine ⟨newline_not_mem_blocks Outcome.newline_not_mem_fullLines r, ?_⟩
      simp only [List.mem_singleton, forall_eq]
      exact newline_not_mem_total total
  refine ⟨hlines, ?_⟩
  have hsplit : (r.fullLines.map String.toList).splitBy (fun _ line => indented line) =
      (r.blocks Outcome.fullLines).map (List.map String.toList) := by
    rw [fullLines_eq, List.map_flatten]
    refine splitBy_indented (List.forall_mem_map.mpr fun block hblock => ?_)
    obtain ⟨line, rest, rfl, hline, hrest⟩ :=
      exists_cons_of_mem_blocks Outcome.indented_fullLines hblock
    exact ⟨_, _, rfl, hline, List.forall_mem_map.mpr hrest⟩
  have hlast : lastTotal ("= " ++ toString total).toList = some total := by
    rw [String.toList_append]
    exact number_toString total
  rw [ReadBack.full, hlines, List.getLast?_concat, List.dropLast_concat, hsplit,
    entries_blocks Outcome.block_full, Option.bind_some, hlast]
  rfl

example : ReadBack.full "2d6: [1, 4]\n  Highest 1 (4) -> 4\n- -12\n= 16" =
    some ([⟨none, .dice [1, 4] (some [4]) 4⟩, ⟨some .sub, .literal (-12)⟩], 16) := by
  decide +kernel

/-! ## What the reader finds -/

/-- The full text shows the faces that were thrown. -/
theorem listed_told (r : Record) : ReadBack.listed (r.told Outcome.inFull) = r.throws := by
  have ho : ∀ o : Outcome, o.inFull.listed = o.throws := fun o => by cases o <;> rfl
  cases r with
  | nil => rfl
  | cons step r =>
    obtain ⟨op, o⟩ := step
    simp only [ReadBack.listed, told, List.flatMap_cons, List.flatMap_map, ho, throws]

/-- The numbers of the lines come to the total of the record. -/
theorem total_told {view : Outcome → Shown} (h : ∀ o, (view o).value = o.value) (o : Outcome)
    (r : Record) : ReadBack.total (told view ((.add, o) :: r)) = total ((.add, o) :: r) := by
  rw [ReadBack.total, told, List.foldl_cons, List.foldl_map, total, List.foldl_cons]
  simp only [Option.getD_none, Option.getD_some, h]

theorem forall_mem_told {view : Outcome → Shown} {P : Shown → Prop} {r : Record}
    (h : ∀ p ∈ r, P (view p.2)) : ∀ entry ∈ r.told view, P entry.shown := by
  cases r with
  | nil => exact fun _ hentry => nomatch hentry
  | cons step r =>
    obtain ⟨op, o⟩ := step
    obtain ⟨hfirst, hrest⟩ := List.forall_mem_cons.mp h
    exact List.forall_mem_cons.mpr ⟨hfirst, List.forall_mem_map.mpr hrest⟩

theorem leads_told (view : Outcome → Shown) (step : Operator × Outcome) (r : Record) :
    (told view (step :: r)).map (fun entry => entry.lead) =
      none :: r.map fun p => some p.1 := by
  obtain ⟨op, o⟩ := step
  rw [told, List.map_cons, List.map_map]
  rfl

/-- What a term shows adds up in either text. -/
theorem addsUp_of_shows {t : Term} {o : Outcome} (h : t.Shows o) :
    o.inBrief.AddsUp ∧ o.inFull.AddsUp := by
  cases h with
  | literal v => exact ⟨trivial, trivial⟩
  | @dice g fs h =>
    have hkept : (g.kept fs).sum = g.keptSum fs := DieGroup.sum_kept h.length
    refine ⟨hkept, ?_⟩
    rw [Outcome.inFull, Shown.AddsUp]
    cases hk : g.keep with
    | none => exact (DieGroup.keptSum_all hk h.length).symm
    | some k => exact hkept

namespace Of

variable {steps : List (Operator × Term)} {r : Record} (h : Of steps r)

include h

theorem map_fst : r.map Prod.fst = steps.map Prod.fst := by
  induction h with
  | nil => rfl
  | cons hstep _ ih => rw [List.map_cons, List.map_cons, hstep.1, ih]

theorem exists_shows : ∀ p ∈ r, ∃ t : Term, t.Shows p.2 := by
  induction h with
  | nil => exact fun _ hp => nomatch hp
  | cons hstep _ ih => exact List.forall_mem_cons.mpr ⟨⟨_, hstep.2⟩, ih⟩

/-- Two lines are written for a group that says how many dice are kept, one line for any other
term. -/
theorem length_fullLines :
    r.fullLines.length = steps.length +
      (steps.flatMap fun step => step.2.groups).countP fun g => g.keep.isSome := by
  have hlines : r.fullLines.length = (r.map fun p => p.2.fullLines.2.length + 1).sum := by
    rw [fullLines_eq, List.length_flatten]
    cases r with
    | nil => rfl
    | cons step r =>
      rw [blocks_cons, List.map_cons, List.map_map]
      rfl
  rw [hlines]
  clear hlines
  induction h with
  | nil => rfl
  | @cons step shown steps r hstep _ ih =>
    have hcount : shown.2.fullLines.2.length = step.2.groups.countP fun g => g.keep.isSome := by
      obtain ⟨op, t⟩ := step
      obtain ⟨op', o⟩ := shown
      cases hstep.2 with
      | literal v => rfl
      | @dice g fs hg =>
        rw [Term.groups, List.countP_singleton, Outcome.fullLines]
        rcases g.keep with _ | k <;> rfl
    rw [List.map_cons, List.sum_cons, ih, hcount, List.flatMap_cons, List.countP_append,
      List.length_cons]
    omega

end Of

end Record

/-! ## The record of an evaluation -/

variable {σ : Type} [WordSource σ]

/-- A total that is in range is the one of unbounded integers. -/
theorem Operator.ending_combine (op : Operator) (a b : Int) :
    Draw.Ending (fun _ => True) (· = op.combine a b) (op.apply a b) := by
  cases h : op.apply a b with
  | error f => trivial
  | ok total =>
    cases op with
    | add => exact (Total.add_eq_ok_iff.mp h).2.symm
    | sub => exact (Total.sub_eq_ok_iff.mp h).2.symm

theorem Term.ends_shows (t : Term) :
    Draw.Ends (fun _ => True) t.Shows (t.outcome : Draw σ Outcome) := by
  cases t with
  | literal v => exact Draw.Ends.pure (.literal v)
  | dice g =>
    refine (g.ends_throw fun _ hs => Draw.ends_face_any trivial trivial hs).bind fun fs h => ?_
    exact Draw.Ends.pure (.dice h)

namespace Expression

/-- What is recorded of some terms is a record of them, and its values come to the total. -/
theorem ends_recordOnto_of (steps : List (Operator × Term)) : ∀ total : Int,
    Draw.Ends (fun _ => True) (fun p => Record.Of steps p.2 ∧ p.1 = total + p.2.total)
      (recordOnto total steps : Draw σ (Int × Record)) := by
  induction steps with
  | nil => exact fun total => Draw.Ends.pure ⟨.nil, (Int.add_zero total).symm⟩
  | cons step steps ih =>
    intro total
    obtain ⟨op, t⟩ := step
    refine t.ends_shows.bind fun o ho => ?_
    refine (Draw.Ends.lift (op.ending_combine total o.value)).bind fun total' htotal => ?_
    refine (ih total').bind fun p hp => Draw.Ends.pure ⟨.cons ⟨rfl, ho⟩ hp.1, ?_⟩
    rw [Record.total_cons, hp.2, htotal]
    cases op with
    | add => simp only [Operator.combine]; omega
    | sub => simp only [Operator.combine]; omega

variable {e : Expression} {s s' : σ} {total : Int} {r : Record}

/-- A record that an evaluation comes to is one of its expression, with that total. -/
theorem record_of_run (h : e.record.run s = (.ok (total, r), s')) :
    ∃ steps, e.steps = .ok steps ∧ Record.Of steps r ∧ total = r.total := by
  cases hs : e.steps with
  | error f =>
    rw [record, hs] at h
    cases h
  | ok steps =>
    have hend := ends_recordOnto_of steps 0 s
    rw [record, hs] at h
    have h' : (recordOnto 0 steps).run s = (.ok (total, r), s') := h
    rw [h'] at hend
    exact ⟨steps, rfl, hend.1, hend.2.trans (Int.zero_add _)⟩

/-- The faces of a record are those that the groups show from the same source. -/
theorem throws_of_record (h : e.record.run s = (.ok (total, r), s')) :
    (Draw.throws e.groups).run s = (.ok r.throws, s') := by
  obtain ⟨steps, hs, -⟩ := record_of_run h
  exact run_throws_of_record (steps_eq_ok_iff.mp hs).1 h fun f _ => nofun

/-! ## What the texts of an evaluation tell -/

/-- The two texts of an evaluation with this record and this total, as they are read back. -/
structure Told (e : Expression) (r : Record) (total : Int) (brief full : String) : Prop where
  /-- The record has the operators of the expression, and for each term its number or faces of all
  its dice. -/
  record : ∃ steps, e.steps = .ok steps ∧ Record.Of steps r
  /-- The brief text has a line for each term. -/
  briefLines : (ReadBack.lines brief).length = e.terms.length
  /-- The full text has a further line for each group that says how many dice are kept, and the last
  line. -/
  fullLines : (ReadBack.lines full).length =
    e.terms.length + e.groups.countP (fun g => g.keep.isSome) + 1
  last : (ReadBack.lines full).getLast? = some ("= " ++ toString total).toList
  /-- The brief text shows the faces that are kept. -/
  brief : ReadBack.brief brief = some (r.told Outcome.inBrief)
  /-- The full text shows all faces, and those that are kept where the group says so. -/
  full : ReadBack.full full = some (r.told Outcome.inFull, total)
  /-- No operator stands in front of the first line, and those of the expression in front of the
  others. -/
  leads : ∀ view, (r.told view).map (fun entry => entry.lead) = none :: e.operators.map some
  briefTotal : ReadBack.total (r.told Outcome.inBrief) = total
  fullTotal : ReadBack.total (r.told Outcome.inFull) = total
  addsUp : ∀ entry ∈ r.told Outcome.inBrief ++ r.told Outcome.inFull, entry.shown.AddsUp

theorem told_of_record (h : e.record.run s = (.ok (total, r), s')) :
    e.Told r total r.brief (r.full total) := by
  obtain ⟨steps, hs, hof, htotal⟩ := record_of_run h
  have hfst : steps.map Prod.fst = .add :: e.operators := map_fst_of_steps hs
  have hsnd : steps.map Prod.snd = e.terms := map_snd_of_steps hs
  have hgroups : e.groups = steps.flatMap fun step => step.2.groups := by
    rw [groups, ← hsnd, List.flatMap_map]
  have hlength : r.length = e.terms.length := by
    rw [← hof.length_eq, ← hsnd, List.length_map]
  have hops : r.map Prod.fst = .add :: e.operators := hof.map_fst.trans hfst
  -- The first term is added to nothing, so its line needs no operator.
  obtain ⟨⟨op, o⟩, r', hr, hop, hrest⟩ := List.map_eq_cons_iff.mp hops
  obtain rfl : op = .add := hop
  have hne : r ≠ [] := hr ▸ List.cons_ne_nil _ _
  obtain ⟨hbriefLines, hbrief⟩ := Record.brief_eq hne
  obtain ⟨hfullLines, hfull⟩ := r.full_eq total
  have hvalue : ∀ o : Outcome, o.inBrief.value = o.value ∧ o.inFull.value = o.value :=
    fun o => by cases o <;> exact ⟨rfl, rfl⟩
  constructor
  case record => exact ⟨steps, hs, hof⟩
  case briefLines => rw [hbriefLines, List.length_map, r.length_briefLines, hlength]
  case fullLines =>
    rw [hfullLines, List.length_append, List.length_map, hof.length_fullLines, hof.length_eq,
      hlength, hgroups]
    rfl
  case last => rw [hfullLines, List.getLast?_concat]
  case brief => exact hbrief
  case full => exact hfull
  case leads =>
    intro view
    rw [hr, Record.leads_told, ← hrest, List.map_map]
    rfl
  case briefTotal => rw [htotal, hr, Record.total_told fun o => (hvalue o).1]
  case fullTotal => rw [htotal, hr, Record.total_told fun o => (hvalue o).2]
  case addsUp =>
    refine List.forall_mem_append.mpr ⟨Record.forall_mem_told fun p hp => ?_,
      Record.forall_mem_told fun p hp => ?_⟩
    · obtain ⟨t, ht⟩ := hof.exists_shows p hp
      exact (Record.addsUp_of_shows ht).1
    · obtain ⟨t, ht⟩ := hof.exists_shows p hp
      exact (Record.addsUp_of_shows ht).2

/-- The texts of an evaluation tell how it came to its total: a reader finds the operators and the
values of the terms, which come to the total, the faces that are kept, and in the full text all
faces. Whenever the expression comes to the same full text again, the same faces were thrown. -/
theorem texts_tell_faces (h : e.roll.run s = (.ok total, s')) : ∃ r brief full,
    e.rollBrief.run s = (.ok (total, brief), s') ∧ e.rollFull.run s = (.ok (total, full), s') ∧
      (Draw.throws e.groups).run s = (.ok r.throws, s') ∧ e.Told r total brief full ∧
      ∀ (τ : Type) [WordSource τ] (t t' : τ) (total' : Int),
        e.rollFull.run t = (.ok (total', full), t') →
          total' = total ∧ (Draw.throws e.groups).run t = (.ok r.throws, t') := by
  rw [← fst_record] at h
  obtain ⟨r, hrecord⟩ := Draw.run_of_map_fst h
  refine ⟨r, r.brief, r.full total, ?_, ?_, throws_of_record hrecord, told_of_record hrecord, ?_⟩
  · exact Draw.run_bind_eq_ok_iff.mpr ⟨_, _, hrecord, rfl⟩
  · exact Draw.run_bind_eq_ok_iff.mpr ⟨_, _, hrecord, rfl⟩
  · intro τ _ t t' total' hrun
    obtain ⟨⟨total'', r'⟩, t'', hrecord', hpure⟩ := Draw.run_bind_eq_ok_iff.mp hrun
    have hend : ((.ok (total'', r'.full total''), t'') : Except Fault (Int × String) × τ) =
        (.ok (total', r.full total), t') := hpure
    rw [Prod.mk.injEq, Except.ok.injEq, Prod.mk.injEq] at hend
    obtain ⟨⟨rfl, htext⟩, rfl⟩ := hend
    have hread := (told_of_record hrecord').full
    rw [htext, (told_of_record hrecord).full, Option.some.injEq, Prod.mk.injEq] at hread
    refine ⟨hread.2.symm, ?_⟩
    rw [throws_of_record hrecord', ← r'.listed_told, ← hread.1, r.listed_told]

/-- A negative number behind an operator, a group of which one die is kept, and a face of two
digits. -/
theorem texts_tell_faces_negative_number :
    let e : Expression := ⟨[
      .dice ⟨2, 6, some ⟨.highest, 1⟩, by decide, by decide, by decide, by decide, by decide⟩,
      .literal (-12),
      .dice ⟨1, 100, none, by decide, by decide, by decide, by decide, by decide⟩], [.sub, .add], 3⟩
    let words : List UInt64 := [0, 0x8000000000000000, 0x8000000000000000, 7]
    let brief := "2d6: [4] -> 4\n- -12\n+ 1d100: [51] -> 51"
    let full := "2d6: [1, 4]\n  Highest 1 (4) -> 4\n- -12\n+ 1d100: [51] -> 51\n= 67"
    e.roll.run words = (.ok 67, [7]) ∧ ∃ r, e.rollBrief.run words = (.ok (67, brief), [7]) ∧
      e.rollFull.run words = (.ok (67, full), [7]) ∧
      (Draw.throws e.groups).run words = (.ok r.throws, [7]) ∧ e.Told r 67 brief full := by
  intro e words brief full
  let g : DieGroup := ⟨2, 6, some ⟨.highest, 1⟩, by decide, by decide, by decide, by decide,
    by decide⟩
  let g' : DieGroup := ⟨1, 100, none, by decide, by decide, by decide, by decide, by decide⟩
  let r : Record := [(.add, .dice g [1, 4]), (.sub, .literal (-12)), (.add, .dice g' [51])]
  have hsum : g.keptSum [1, 4] = 4 := by
    rw [DieGroup.keptSum_highest rfl rfl, DieGroup.ascending_eq (.refl _) (by decide)]
    rfl
  have hsum' : g'.keptSum [51] = 51 := DieGroup.keptSum_all rfl rfl
  have hkept : g.kept [1, 4] = [4] := by rw [DieGroup.kept_eq_singleton rfl rfl, hsum]
  have hkept' : g'.kept [51] = [51] := by rw [DieGroup.kept_eq_singleton rfl rfl, hsum']
  have hfirst : ((Term.dice g).outcome : Draw (List UInt64) Outcome).run words =
      (.ok (.dice g [1, 4]), [0x8000000000000000, 7]) := by
    show (Outcome.dice g <$> Draw.faces 6 2).run words = _
    rfl
  have hlast : ((Term.dice g').outcome : Draw (List UInt64) Outcome).run [0x8000000000000000, 7] =
      (.ok (.dice g' [51]), [7]) := by
    show (Outcome.dice g' <$> Draw.faces 100 1).run _ = _
    rfl
  have htotal : Total.add 0 (g.keptSum [1, 4]) = .ok 4 := by rw [hsum]; rfl
  have htotal' : Total.add 16 (g'.keptSum [51]) = .ok 67 := by rw [hsum']; rfl
  have hsteps : e.steps = .ok [(.add, .dice g), (.sub, .literal (-12)), (.add, .dice g')] := rfl
  have hrecord : e.record.run words = (.ok (67, r), [7]) := by
    rw [record, hsteps]
    exact run_recordOnto_of_apply hfirst htotal
      (run_recordOnto_of_apply rfl rfl (run_recordOnto_of_apply hlast htotal' rfl))
  have hrun : e.roll.run words = (.ok 67, [7]) := by
    rw [← fst_record, Draw.run_map, hrecord]
    rfl
  have hbriefText : r.brief = brief := by
    simp only [r, Record.brief, Record.briefLines, Record.leads, List.map_cons, List.map_nil,
      List.zipWith_cons_cons, List.zipWith_nil_left, Outcome.briefLine, hkept, hsum, hkept', hsum']
    decide +kernel
  have hfullText : r.full 67 = full := by
    simp only [r, Record.full, Record.fullLines, Record.leads, List.map_cons, List.map_nil,
      List.zipWith_cons_cons, List.zipWith_nil_left, Outcome.fullLines, hkept, hsum, hsum']
    decide +kernel
  obtain ⟨r', brief', full', hbrief', hfull', hthrows, htold, -⟩ := texts_tell_faces hrun
  have hbrief : e.rollBrief.run words = (.ok (67, brief), [7]) :=
    Draw.run_bind_eq_ok_iff.mpr ⟨_, _, hrecord, by rw [← hbriefText]; rfl⟩
  have hfull : e.rollFull.run words = (.ok (67, full), [7]) :=
    Draw.run_bind_eq_ok_iff.mpr ⟨_, _, hrecord, by rw [← hfullText]; rfl⟩
  rw [hbrief, Prod.mk.injEq, Except.ok.injEq, Prod.mk.injEq] at hbrief'
  rw [hfull, Prod.mk.injEq, Except.ok.injEq, Prod.mk.injEq] at hfull'
  rw [← hbrief'.1.2, ← hfull'.1.2] at htold
  exact ⟨hrun, r', hbrief, hfull, hthrows, htold⟩

end Expression

end DiceEngine
