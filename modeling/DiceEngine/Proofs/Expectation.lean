import DiceEngine.Expression.Expectation
import DiceEngine.Expression.Transcript
import DiceEngine.Proofs.OrderStatistic

/-!
# Expected totals are averages

An expression shows a record of outcomes, one for each term, and all records it
can show (`Expression.records`) are equally likely: each of them is listed
(`Expression.mem_records`) once (`Expression.nodup_records`). The expected value
of a group is the average value of its throws (`DieGroup.expected_eq_ok`), and
by induction on the terms the expected total is the average total of the records
(`Expression.expected_eq_average`).
-/

namespace DiceEngine

open DieGroup (ascending ascending_perm length_ascending)

namespace DieGroup

theorem mem_faceVectors_iff {g : DieGroup} {faces : List Int} :
    faces ∈ faceVectors g.sides g.quantity ↔ g.IsThrow faces :=
  mem_faceVectors.trans ⟨fun ⟨hl, hr⟩ => ⟨hl, hr⟩, fun h => ⟨h.length, h.range⟩⟩

/-- Where as many dice count as are thrown, every face counts. -/
theorem keptSum_whole {g : DieGroup} {faces : List Int} (h : g.keepCount = g.quantity)
    (hl : faces.length = g.quantity) : g.keptSum faces = faces.sum := by
  have hsum : (ascending faces).sum = faces.sum := (ascending_perm faces).sum_eq
  rcases hk : g.keep with _ | ⟨_ | _, count⟩
  · exact keptSum_all hk hl
  · have hcount : count = g.quantity := by rw [keepCount, hk] at h; exact h
    rw [keptSum_lowest hk, hcount, ← hl, ← length_ascending, List.take_length, hsum]
  · have hcount : count = g.quantity := by rw [keepCount, hk] at h; exact h
    rw [keptSum_highest hk hl, hcount, Nat.sub_self, List.drop_zero, hsum]

theorem expectedAll_eq (g : DieGroup) (h : g.keepCount = g.quantity) : (g.expectedAll : ℚ) =
    average (faceVectors g.sides g.quantity) fun faces => g.keptSum faces := by
  have hsum : average (faceVectors g.sides g.quantity) (fun faces => (g.keptSum faces : ℚ)) =
      average (faceVectors g.sides g.quantity) fun faces => (faces.sum : Int) :=
    average_congr fun faces hf => by rw [keptSum_whole h (mem_faceVectors.mp hf).1]
  rw [hsum, average_sum_faceVectors g.sides_pos, expectedAll]
  push_cast
  ring

/-- A group of which all dice count takes no row of coefficients. -/
theorem expected_whole {g : DieGroup} (h : g.keepCount = g.quantity) :
    (g.expected : Except Fault ℚ) = .ok g.expectedAll := by
  rcases hk : g.keep with _ | ⟨selector, count⟩
  · rw [expected, hk]
  · have hcount : count = g.quantity := by rw [keepCount, hk] at h; exact h
    rw [expected, hk]
    exact if_neg (by rw [hcount]; exact Nat.lt_irrefl _)

/-- The expected value of a group is the average value of its throws. -/
theorem expected_eq_ok (g : DieGroup) : (g.expected : Except Fault ℚ) =
    .ok (average (faceVectors g.sides g.quantity) fun faces => g.keptSum faces) := by
  have hq : g.quantity ≤ 125 := Nat.le_trans g.quantity_le (by decide)
  by_cases hall : g.keepCount = g.quantity
  · rw [expected_whole hall, expectedAll_eq g hall]
  rcases hk : g.keep with _ | ⟨selector, count⟩
  · exact absurd (by rw [keepCount, hk]) hall
  have hlt : count < g.quantity := by
    rw [keepCount, hk] at hall
    exact Nat.lt_of_le_of_ne (g.count_le _ hk) hall
  have hmin : min count g.quantity = count := Nat.min_eq_left (Nat.le_of_lt hlt)
  rw [expected, hk]
  simp only [if_pos hlt]
  cases selector with
  | highest =>
    simp only
    rw [OrderStatistic.expectedHighest_eq_ok hq, hmin]
    refine congrArg Except.ok (average_congr fun faces hf => ?_)
    rw [keptSum_highest hk (mem_faceVectors.mp hf).1]
  | lowest =>
    simp only
    rw [OrderStatistic.expectedLowest_eq_ok hq, hmin]
    refine congrArg Except.ok (average_congr fun faces hf => ?_)
    rw [keptSum_lowest hk]

end DieGroup

namespace Term

/-- What a term can show. -/
inductive Shows : Term → Outcome → Prop where
  | literal (value : Int) : Shows (.literal value) (.literal value)
  | dice {g : DieGroup} {faces : List Int} (h : g.IsThrow faces) : Shows (.dice g) (.dice g faces)

/-- The outcomes of a term. -/
def outcomes : Term → List Outcome
  | literal value => [.literal value]
  | dice g => (faceVectors g.sides g.quantity).map (Outcome.dice g)

theorem mem_outcomes {t : Term} {o : Outcome} : o ∈ t.outcomes ↔ t.Shows o := by
  cases t with
  | literal value =>
    rw [outcomes, List.mem_singleton]
    exact ⟨fun h => h ▸ .literal value, fun h => by cases h; rfl⟩
  | dice g =>
    rw [outcomes, List.mem_map]
    constructor
    · rintro ⟨faces, hf, rfl⟩
      exact .dice (DieGroup.mem_faceVectors_iff.mp hf)
    · intro h
      cases h with
      | dice h => exact ⟨_, DieGroup.mem_faceVectors_iff.mpr h, rfl⟩

theorem nodup_outcomes (t : Term) : t.outcomes.Nodup := by
  cases t with
  | literal value => exact List.nodup_singleton _
  | dice g => exact (nodup_faceVectors g.sides g.quantity).map fun _ _ h => (Outcome.dice.inj h).2

theorem outcomes_ne_nil (t : Term) : t.outcomes ≠ [] := by
  cases t with
  | literal value => exact List.cons_ne_nil _ _
  | dice g => exact mt List.map_eq_nil_iff.mp (faceVectors_ne_nil g.sides_pos g.quantity)

/-- The expected value of a term is the average value of its outcomes. -/
theorem expected_eq_ok (t : Term) :
    (t.expected : Except Fault ℚ) = .ok (average t.outcomes fun o => o.value) := by
  cases t with
  | literal value =>
    rw [outcomes, average, List.map_singleton, List.sum_singleton, List.length_singleton,
      Nat.cast_one, div_one]
    rfl
  | dice g =>
    rw [expected, g.expected_eq_ok, outcomes, average, average, List.map_map, List.length_map]
    rfl

end Term

namespace Record

/-- The records of some terms, each with its operator. -/
def all : List (Operator × Term) → List Record
  | [] => [[]]
  | (op, t) :: steps => t.outcomes.flatMap fun o => (all steps).map ((op, o) :: ·)

/-- A record of these terms: the same operators, and for each term something it can show. -/
def Of (steps : List (Operator × Term)) (r : Record) : Prop :=
  List.Forall₂ (fun step shown => shown.1 = step.1 ∧ step.2.Shows shown.2) steps r

theorem mem_all {steps : List (Operator × Term)} : ∀ {r : Record}, r ∈ all steps ↔ Of steps r := by
  induction steps with
  | nil =>
    intro r
    rw [all, List.mem_singleton, Of, List.forall₂_nil_left_iff]
  | cons step steps ih =>
    intro r
    obtain ⟨op, t⟩ := step
    simp only [all, List.mem_flatMap, List.mem_map, Of, List.forall₂_cons_left_iff, ih,
      Term.mem_outcomes]
    constructor
    · rintro ⟨o, ho, r, hr, rfl⟩
      exact ⟨(op, o), r, ⟨rfl, ho⟩, hr, rfl⟩
    · rintro ⟨⟨op', o⟩, r, ⟨hop, ho⟩, hr, rfl⟩
      cases hop
      exact ⟨o, ho, r, hr, rfl⟩

theorem nodup_all (steps : List (Operator × Term)) : (all steps).Nodup := by
  induction steps with
  | nil => exact List.nodup_singleton _
  | cons step steps ih =>
    obtain ⟨op, t⟩ := step
    rw [all, List.nodup_flatMap]
    refine ⟨fun o _ => ih.map List.cons_injective, t.nodup_outcomes.imp fun hne => ?_⟩
    intro r hr hr'
    obtain ⟨_, _, rfl⟩ := List.mem_map.mp hr
    obtain ⟨_, _, heq⟩ := List.mem_map.mp hr'
    exact hne (Prod.mk.inj (List.cons.inj heq).1).2.symm

theorem all_ne_nil (steps : List (Operator × Term)) : all steps ≠ [] := by
  induction steps with
  | nil => exact List.cons_ne_nil _ _
  | cons step steps ih =>
    obtain ⟨op, t⟩ := step
    obtain ⟨o, ho⟩ := List.exists_mem_of_ne_nil _ t.outcomes_ne_nil
    obtain ⟨r, hr⟩ := List.exists_mem_of_ne_nil _ ih
    exact List.ne_nil_of_mem
      (List.mem_flatMap.mpr ⟨o, ho, List.mem_map.mpr ⟨r, hr, rfl⟩⟩)

/-- The total of a record: its values, folded in integers of any size. -/
def total (r : Record) : Int := r.foldl (fun total (op, o) => op.combine total o.value) 0

theorem foldl_combine (r : Record) : ∀ a : Int,
    r.foldl (fun total (op, o) => op.combine total o.value) a = a + r.total := by
  induction r with
  | nil => exact fun a => (Int.add_zero a).symm
  | cons shown r ih =>
    intro a
    obtain ⟨op, o⟩ := shown
    rw [total, List.foldl_cons, List.foldl_cons, ih, ih]
    cases op with
    | add => simp only [Operator.combine]; omega
    | sub => simp only [Operator.combine]; omega

theorem total_cons (op : Operator) (o : Outcome) (r : Record) :
    total ((op, o) :: r) = op.combine 0 o.value + r.total := by
  rw [total, List.foldl_cons, foldl_combine]

end Record

namespace Expression

theorem average_combine (op : Operator) {β : Type} {xs : List β} (hx : xs ≠ []) (f : β → Int)
    (a : ℚ) : average xs (fun x => a + (op.combine 0 (f x) : Int)) =
      op.combine a (average xs fun x => f x) := by
  cases op with
  | add =>
    simp only [Operator.combine, zero_add]
    rw [average_add, average_const hx]
  | sub =>
    simp only [Operator.combine, zero_sub, Int.cast_neg, ← sub_eq_add_neg]
    rw [average_sub, average_const hx]

/-- A term joins the expected total. -/
def joinExpected (total : ℚ) (step : Operator × Term) : Except Fault ℚ := do
  return step.1.combine total (← step.2.expected)

theorem expected_eq (e : Expression) : (e.expected : Except Fault ℚ) =
    e.steps >>= fun steps => steps.foldlM joinExpected ((0 : Nat) : ℚ) := rfl

theorem joinExpected_eq_ok (total : ℚ) (op : Operator) (t : Term) : joinExpected total (op, t) =
    .ok (op.combine total (average t.outcomes fun o => o.value)) := by
  rw [joinExpected, t.expected_eq_ok]
  rfl

/-- The terms of an expected total, one after another. -/
theorem foldlM_joinExpected (steps : List (Operator × Term)) : ∀ total : ℚ,
    steps.foldlM joinExpected total =
      .ok (total + average (Record.all steps) fun r => r.total) := by
  induction steps with
  | nil =>
    intro total
    have hzero : average (Record.all []) (fun r => (r.total : ℚ)) = 0 := by
      simp [average, Record.all, Record.total]
    rw [hzero, add_zero]
    rfl
  | cons step steps ih =>
    intro total
    obtain ⟨op, t⟩ := step
    rw [List.foldlM_cons, joinExpected_eq_ok]
    refine (ih _).trans (congrArg Except.ok ?_)
    rw [← average_combine op t.outcomes_ne_nil, Record.all, average_pairs]
    simp only [Record.total_cons, Int.cast_add, average_add,
      average_const (Record.all_ne_nil steps), average_const t.outcomes_ne_nil]
    exact add_assoc _ _ _

/-- The terms of an expression, each with the operator in front of it. -/
def records (e : Expression) : List Record := Record.all ((Operator.add :: e.operators).zip e.terms)

theorem mem_records {e : Expression} {r : Record} :
    r ∈ e.records ↔ Record.Of ((Operator.add :: e.operators).zip e.terms) r :=
  Record.mem_all

theorem nodup_records (e : Expression) : e.records.Nodup :=
  Record.nodup_all _

/-- The expected total, where it is computed without rounding, is the average total of all that the
dice can show. -/
theorem expected_eq_average {e : Expression} (h : e.isComplete = true) :
    (e.expected : Except Fault ℚ) = .ok (average e.records fun r => r.total) := by
  rw [expected_eq, steps, if_pos h]
  refine (foldlM_joinExpected _ _).trans (congrArg Except.ok ?_)
  rw [Nat.cast_zero, zero_add, records]

/-- Of two coins the higher, less one coin, and four: eight records. -/
theorem expected_eq_average_coins :
    let e : Expression := ⟨[
      .dice ⟨2, 2, some ⟨.highest, 1⟩, by decide, by decide, by decide, by decide, by decide⟩,
      .dice ⟨1, 2, none, by decide, by decide, by decide, by decide, by decide⟩,
      .literal 4], [.sub, .add], 3⟩
    e.isComplete = true ∧ (e.expected : Except Fault ℚ) = .ok (average e.records fun r => r.total) ∧
      average e.records (fun r => r.total) = 17 / 4 := by
  intro e
  have hc : e.isComplete = true := by decide
  have haverage := expected_eq_average hc
  have hexpected : (e.expected : Except Fault ℚ) = .ok (17 / 4) := by decide +kernel
  exact ⟨hc, haverage, Except.ok.inj (haverage.symm.trans hexpected)⟩

end Expression

end DiceEngine
