import DiceEngine.Proofs.Bounds
import DiceEngine.Proofs.Building
import DiceEngine.Proofs.Fairness
import DiceEngine.Simulation.Histogram

/-!
# Attained totals

Every total between the bounds of an expression comes from some words, one for
each die. A group shows every value between its bounds (`DieGroup.exists_throw`):
the dice that count share out the value, and the others stay out of their way at
the other end of the sorted faces. What a total needs of the last term leaves a
total for the terms before it that lies between their bounds again
(`exists_join`), so by induction on the terms the words of one after another make
a list for the whole (`exists_words_foldlM`).
-/

namespace DiceEngine

/-! ## Values of throws -/

namespace DieGroup

/-- Some faces share out a value. -/
theorem exists_faces_sum {sides : Nat} (hs : 1 ≤ sides) : ∀ {count : Nat} {v : Int},
    (count : Int) ≤ v → v ≤ count * sides →
    ∃ fs : List Int, fs.length = count ∧ (∀ f ∈ fs, 1 ≤ f ∧ f ≤ sides) ∧ fs.sum = v := by
  intro count
  induction count with
  | zero =>
    intro v hl hh
    refine ⟨[], rfl, List.forall_mem_nil _, ?_⟩
    rw [List.sum_nil]
    omega
  | succ count ih =>
    intro v hl hh
    -- The first die shows as much as leaves one for each of the others.
    have hcount : (count : Int) ≤ count * sides := by
      exact_mod_cast Nat.le_mul_of_pos_right count hs
    have hsucc : ((count + 1 : Nat) : Int) * sides = count * sides + sides := by
      push_cast
      ring
    rw [hsucc] at hh
    obtain ⟨fs, hlen, hrange, hsum⟩ := ih (v := v - min (sides : Int) (v - count)) (by omega)
      (by omega)
    refine ⟨min (sides : Int) (v - count) :: fs, by rw [List.length_cons, hlen], ?_, ?_⟩
    · intro f hf
      rcases List.mem_cons.mp hf with rfl | hf
      · omega
      · exact hrange f hf
    · rw [List.sum_cons, hsum]
      omega

variable {g : DieGroup}

theorem IsThrow.append {fs fs' : List Int} (hl : fs.length + fs'.length = g.quantity)
    (hr : ∀ f ∈ fs, 1 ≤ f ∧ f ≤ g.sides) (hr' : ∀ f ∈ fs', 1 ≤ f ∧ f ≤ g.sides) :
    g.IsThrow (fs ++ fs') where
  length := by rw [List.length_append, hl]
  range f hf := (List.mem_append.mp hf).elim (hr f) (hr' f)

/-- A group shows every value between its bounds. -/
theorem exists_throw {v : Int} (hl : g.low ≤ v) (hh : v ≤ g.high) :
    ∃ fs, g.IsThrow fs ∧ g.keptSum fs = v := by
  have hs := g.sides_pos
  have hk := g.keepCount_le
  obtain ⟨fs, hlen, hrange, hsum⟩ := @exists_faces_sum g.sides hs g.keepCount v hl hh
  -- The other dice all show one face, the last or the first.
  have hothers : ∀ face : Int, 1 ≤ face ∧ face ≤ g.sides →
      ∀ f ∈ List.replicate (g.quantity - g.keepCount) face, 1 ≤ f ∧ f ≤ g.sides :=
    fun face hface f hf => (List.eq_of_mem_replicate hf).symm ▸ hface
  rcases hkeep : g.keep with _ | ⟨_ | _, count⟩
  case none =>
    have hcount : g.keepCount = g.quantity := by rw [keepCount, hkeep]
    exact ⟨fs, ⟨hlen.trans hcount, hrange⟩, (keptSum_all hkeep (hlen.trans hcount)).trans hsum⟩
  case some.lowest =>
    have hcount : g.keepCount = count := by rw [keepCount, hkeep]
    have hlast := hothers g.sides (by omega)
    have hthrow : g.IsThrow (fs ++ List.replicate (g.quantity - g.keepCount) (g.sides : Int)) := by
      refine .append ?_ hrange hlast
      rw [hlen, List.length_replicate]
      omega
    refine ⟨_, hthrow, ?_⟩
    have hsorted : ∀ a ∈ fs, ∀ b ∈ List.replicate (g.quantity - g.keepCount) (g.sides : Int),
        a ≤ b := fun a ha b hb => (List.eq_of_mem_replicate hb).symm ▸ (hrange a ha).2
    rw [keptSum_lowest hkeep, ascending_append hsorted, ← hcount, ← hlen, ← length_ascending fs,
      List.take_left, (ascending_perm fs).sum_eq, hsum]
  case some.highest =>
    have hcount : g.keepCount = count := by rw [keepCount, hkeep]
    have hfirst := hothers 1 (by omega)
    have hthrow : g.IsThrow (List.replicate (g.quantity - g.keepCount) 1 ++ fs) := by
      refine .append ?_ hfirst hrange
      rw [hlen, List.length_replicate]
      omega
    refine ⟨_, hthrow, ?_⟩
    have hsorted : ∀ a ∈ List.replicate (g.quantity - g.keepCount) (1 : Int), ∀ b ∈ fs,
        a ≤ b := fun a ha b hb => (List.eq_of_mem_replicate ha).symm ▸ (hrange b hb).1
    have hdrop : g.quantity - count =
        (ascending (List.replicate (g.quantity - g.keepCount) (1 : Int))).length := by
      rw [length_ascending, List.length_replicate, hcount]
    rw [keptSum_highest hkeep hthrow.length, ascending_append hsorted, hdrop, List.drop_left,
      (ascending_perm fs).sum_eq, hsum]

/-- How far apart the bounds of a group are: each die that counts may show any of its sides in the
place of the first. -/
def spread (g : DieGroup) : Nat := g.keepCount * (g.sides - 1)

theorem high_sub_low (g : DieGroup) : g.high - g.low = g.spread := by
  obtain ⟨more, hmore⟩ := Nat.exists_eq_add_of_le g.sides_pos
  rw [high, low, spread, hmore, Nat.add_sub_cancel_left]
  push_cast
  ring

/-- For every throw there are words, each accepted by its die, that are rolled as it. -/
theorem exists_words_throw {fs : List Int} (h : g.IsThrow fs) :
    ∃ ws, List.Forall₂ (Draw.Chooses g.sides) ws fs := by
  have hchosen : ∃ ws, List.Forall₂ (fun f w => Draw.Chooses g.sides w f) fs ws := by
    refine exists_forall₂ fun f hf => ?_
    have hrange := h.range f hf
    obtain ⟨face, rfl⟩ := Int.eq_ofNat_of_zero_le (show 0 ≤ f by omega)
    have hface : 1 ≤ face ∧ face ≤ g.sides := by omega
    obtain ⟨w, hw⟩ := Draw.exists_faceOf g.sides_pos g.sides_le_size hface.1 hface.2
    exact ⟨w, by rw [Draw.Chooses, hw]; rfl⟩
  obtain ⟨ws, hws⟩ := hchosen
  exact ⟨ws, hws.flip⟩

end DieGroup

/-! ## Terms -/

namespace Term

/-- The numbers of sides of the dice of a term, one for each die. -/
def diceSides : Term → List Nat
  | literal _ => []
  | dice g => List.replicate g.quantity g.sides

theorem length_diceSides (t : Term) : t.diceSides.length = t.diceCount := by
  cases t with
  | literal v => rfl
  | dice g => exact List.length_replicate

/-- The die groups of a term: one or none. -/
def groups : Term → List DieGroup
  | literal _ => []
  | dice g => [g]

/-- The bounds of a term are as far apart as those of its dice. -/
theorem high_sub_low (t : Term) : t.high - t.low = ((t.groups.map DieGroup.spread).sum : Nat) := by
  cases t with
  | literal v => exact Int.sub_self v
  | dice g =>
    simp only [groups, List.map_singleton, List.sum_singleton]
    exact g.high_sub_low

/-- The least value of a term is not above the greatest, and not far below it either. -/
theorem spread_bounds (t : Term) : 0 ≤ t.high - t.low ∧ t.high - t.low ≤ 99 * t.diceCount := by
  rw [high_sub_low]
  cases t with
  | literal v => simp only [groups, diceCount, List.map_nil, List.sum_nil]; omega
  | dice g =>
    have hle : g.spread ≤ g.quantity * 99 :=
      Nat.mul_le_mul g.keepCount_le (Nat.sub_le_sub_right g.sides_le 1)
    simp only [groups, diceCount, List.map_singleton, List.sum_singleton]
    omega

theorem low_le_high (t : Term) : t.low ≤ t.high := Int.sub_nonneg.mp t.spread_bounds.1

end Term

namespace Draw

/-- Each word is accepted by the die that it is drawn for. -/
def AllAccepted (sides : List Nat) (ws : List UInt64) : Prop :=
  List.Forall₂ (fun s w => (faceOf s w).isSome) sides ws

theorem AllAccepted.append {sides sides' : List Nat} {ws ws' : List UInt64}
    (h : AllAccepted sides ws) (h' : AllAccepted sides' ws') :
    AllAccepted (sides ++ sides') (ws ++ ws') :=
  List.rel_append h h'

end Draw

/-- A term shows every value between its bounds, on words that its dice accept. -/
theorem Term.exists_words {t : Term} {v : Int} (hl : t.low ≤ v) (hh : v ≤ t.high) :
    ∃ ws, Draw.AllAccepted t.diceSides ws ∧
      ∀ rest, (t.roll : Draw (List UInt64) Int).run (ws ++ rest) = (.ok v, rest) := by
  cases t with
  | literal value =>
    obtain rfl : value = v := Int.le_antisymm hl hh
    exact ⟨[], .nil, fun _ => rfl⟩
  | dice g =>
    obtain ⟨fs, hthrow, hv⟩ := DieGroup.exists_throw hl hh
    obtain ⟨ws, hws⟩ := DieGroup.exists_words_throw hthrow
    refine ⟨ws, ?_, fun rest => ?_⟩
    · rw [Draw.AllAccepted, diceSides, ← hthrow.length, ← hws.length_eq]
      refine List.forall₂_of_length_eq_of_get List.length_replicate fun i hi hi' => ?_
      have hsides : (List.replicate ws.length g.sides).get ⟨i, hi⟩ = g.sides :=
        List.getElem_replicate hi
      rw [hsides]
      exact Draw.isSome_of_forall₂ hws _ (List.get_mem ws ⟨i, hi'⟩)
    · have hrun := Draw.run_faces hws rest
      rw [hthrow.length] at hrun
      rw [Term.roll, DieGroup.roll, Draw.run_bind, DieGroup.throw, hrun]
      exact Prod.ext (congrArg Except.ok hv) rfl

/-! ## Expressions -/

namespace Expression

/-- The numbers of sides of all dice, in the order in which they are thrown. -/
def diceSides (e : Expression) : List Nat := e.terms.flatMap Term.diceSides

/-- The die groups, in the order in which they are thrown. -/
def groups (e : Expression) : List DieGroup := e.terms.flatMap Term.groups

/-- A total between the bounds behind a term leaves a total between the bounds before it. -/
theorem exists_join {op : Operator} {t : Term} {lo hi lo' hi' total' : Int} (h : lo ≤ hi)
    (hlow : joinLow lo (op, t) = .ok lo') (hhigh : joinHigh hi (op, t) = .ok hi')
    (hl : lo' ≤ total') (hh : total' ≤ hi') :
    ∃ total v, (lo ≤ total ∧ total ≤ hi) ∧ (t.low ≤ v ∧ v ≤ t.high) ∧
      op.apply total v = .ok total' := by
  have ht := t.low_le_high
  cases op with
  | add =>
    obtain ⟨hrl, rfl⟩ := Total.add_eq_ok_iff.mp hlow
    obtain ⟨hrh, rfl⟩ := Total.add_eq_ok_iff.mp hhigh
    change lo + t.low ≤ total' at hl
    change total' ≤ hi + t.high at hh
    have hsum : min hi (total' - t.low) + (total' - min hi (total' - t.low)) = total' := by omega
    refine ⟨min hi (total' - t.low), total' - min hi (total' - t.low), by omega, by omega, ?_⟩
    refine Total.add_eq_ok_iff.mpr ⟨?_, hsum⟩
    rw [hsum]
    exact inRange_between hrl hrh hl hh
  | sub =>
    obtain ⟨hrl, rfl⟩ := Total.sub_eq_ok_iff.mp hlow
    obtain ⟨hrh, rfl⟩ := Total.sub_eq_ok_iff.mp hhigh
    change lo - t.high ≤ total' at hl
    change total' ≤ hi - t.low at hh
    have hdiff : min hi (total' + t.high) - (min hi (total' + t.high) - total') = total' := by
      omega
    refine ⟨min hi (total' + t.high), min hi (total' + t.high) - total', by omega, by omega, ?_⟩
    refine Total.sub_eq_ok_iff.mpr ⟨?_, hdiff⟩
    rw [hdiff]
    exact inRange_between hrl hrh hl hh

/-- The terms of an evaluation, one after another: whatever total between the bounds is wanted
behind them, there is one before them from which words lead to it. -/
theorem exists_words_foldlM (steps : List (Operator × Term)) : ∀ {lo hi lo' hi' total' : Int},
    lo ≤ hi → steps.foldlM joinLow lo = .ok lo' → steps.foldlM joinHigh hi = .ok hi' →
    lo' ≤ total' → total' ≤ hi' →
    ∃ total ws, (lo ≤ total ∧ total ≤ hi) ∧
      Draw.AllAccepted (steps.flatMap fun step => step.2.diceSides) ws ∧
      (steps.foldlM join total : Draw (List UInt64) Int).run ws = (.ok total', []) := by
  induction steps with
  | nil =>
    intro lo hi lo' hi' total' _ hlow hhigh hl hh
    cases hlow
    cases hhigh
    exact ⟨total', [], ⟨hl, hh⟩, .nil, rfl⟩
  | cons step steps ih =>
    intro lo hi lo' hi' total' h hlow hhigh hl hh
    obtain ⟨op, t⟩ := step
    rw [List.foldlM_cons] at hlow hhigh
    obtain ⟨lo₁, hlow₁, hlow⟩ := bind_eq_ok_iff.mp hlow
    obtain ⟨hi₁, hhigh₁, hhigh⟩ := bind_eq_ok_iff.mp hhigh
    obtain ⟨_, _, hle, hle'⟩ := join_between (Int.le_refl lo) h hlow₁ hhigh₁
      ⟨Int.le_refl _, t.low_le_high⟩
    obtain ⟨total₁, ws', ⟨hl₁, hh₁⟩, hacc', hrun'⟩ := ih (Int.le_trans hle hle') hlow hhigh hl hh
    obtain ⟨total, v, htotal, ⟨hv, hv'⟩, happly⟩ := exists_join h hlow₁ hhigh₁ hl₁ hh₁
    obtain ⟨ws, hacc, hrun⟩ := t.exists_words hv hv'
    refine ⟨total, ws ++ ws', htotal, hacc.append hacc', ?_⟩
    rw [List.foldlM_cons, join, bind_assoc, Draw.run_bind, hrun]
    simp only
    rw [happly]
    exact hrun'

/-- Each term moves the bounds apart by its spread. -/
theorem sum_moves (steps : List (Operator × Term)) :
    (steps.map moveHigh).sum - (steps.map moveLow).sum =
      (steps.map fun step => step.2.high - step.2.low).sum := by
  induction steps with
  | nil => rfl
  | cons step steps ih =>
    obtain ⟨op, t⟩ := step
    cases op <;> simp only [List.map_cons, List.sum_cons, ← ih, moveLow, moveHigh] <;> omega

section Whole

variable {e : Expression} {lo hi : Int} (hlo : e.minimum = .ok lo) (hhi : e.maximum = .ok hi)

include hlo hhi

/-- The bounds are as far apart as the terms move them. -/
theorem spread_eq : hi - lo = (e.terms.map fun t => t.high - t.low).sum := by
  obtain ⟨steps, hs, -⟩ := exists_steps_of_bounds hlo hhi
  have hterms : steps.map (fun step => step.2.high - step.2.low) =
      e.terms.map fun t => t.high - t.low := by
    rw [← map_snd_of_steps hs, List.map_map]
    rfl
  rw [(minimum_eq_sum hs hlo).2, (maximum_eq_sum hs hhi).2, sum_moves, hterms]

/-- A hundred dice move the bounds by less than ten thousand. -/
theorem spread_le (hw : e.WellFormed) : 0 ≤ hi - lo ∧ hi - lo ≤ 9900 := by
  have hsum : ∀ ts : List Term, 0 ≤ (ts.map fun t => t.high - t.low).sum ∧
      (ts.map fun t => t.high - t.low).sum ≤ 99 * (ts.map Term.diceCount).sum := by
    intro ts
    induction ts with
    | nil => exact ⟨Int.le_refl 0, Int.le_refl 0⟩
    | cons t ts ih =>
      have ht := t.spread_bounds
      simp only [List.map_cons, List.sum_cons]
      omega
  have hterms := hsum e.terms
  have hcap : e.diceCount ≤ 100 := hw.capped
  rw [← spread_eq hlo hhi, ← hw.counted] at hterms
  omega

end Whole

theorem inRange_of_small {n : Int} (hl : 0 ≤ n) (hh : n ≤ 9902) : Total.InRange n :=
  ⟨Int.le_trans (by decide) hl, Int.le_trans hh (by decide)⟩

section Narrow

variable {lo hi : Int} (h : 0 ≤ hi - lo ∧ hi - lo ≤ 9900)

include h

/-- The histogram of bounds that are not far apart. -/
theorem emptyHistogram_eq : Simulation.emptyHistogram lo hi =
    .ok (lo :: List.replicate (hi - lo + 1).toNat 0).toArray := by
  have hwidth : Total.sub hi lo = .ok (hi - lo) :=
    Total.sub_eq_ok_iff.mpr ⟨inRange_of_small h.1 (by omega), rfl⟩
  have hsize : Total.add (hi - lo) 2 = .ok (hi - lo + 2) :=
    Total.add_eq_ok_iff.mpr ⟨inRange_of_small (by omega) (by omega), rfl⟩
  rw [Simulation.emptyHistogram, hwidth]
  simp only [Bind.bind, Except.bind, hsize]
  rw [show (hi - lo + 2).toNat - 1 = (hi - lo + 1).toNat by omega, ← List.toArray_replicate,
    List.append_toArray]
  rfl

/-- The place of a total between them. -/
theorem slot_eq {total : Int} (hl : lo ≤ total) (hh : total ≤ hi) :
    Simulation.slot lo total = .ok (total - lo + 1) := by
  have hplace : Total.sub total lo = .ok (total - lo) :=
    Total.sub_eq_ok_iff.mpr ⟨inRange_of_small (by omega) (by omega), rfl⟩
  rw [Simulation.slot, hplace]
  exact Total.add_eq_ok_iff.mpr ⟨inRange_of_small (by omega) (by omega), rfl⟩

/-- The histogram has as many places as there are totals and one more, and a total for each place
behind the first. -/
theorem exists_emptyHistogram : ∃ counts, Simulation.emptyHistogram lo hi = .ok counts ∧
    counts.size = hi - lo + 2 ∧
    ∀ i : Nat, 1 ≤ i → i < counts.size → Simulation.slot lo (lo + (i - 1)) = .ok i := by
  have hsize : ((lo :: List.replicate (hi - lo + 1).toNat 0).toArray.size : Int) = hi - lo + 2 := by
    rw [List.size_toArray, List.length_cons, List.length_replicate]
    omega
  refine ⟨_, emptyHistogram_eq h, hsize, fun i hi' hi'' => ?_⟩
  rw [slot_eq h (by omega) (by omega)]
  congr 1
  omega

end Narrow

/-- Some words are rolled as the total: one for each die, each of them accepted by its die, and
all of them drawn. -/
def Attains (e : Expression) (t : Int) : Prop :=
  ∃ ws : List UInt64, ws.length = e.diceCount ∧ Draw.AllAccepted e.diceSides ws ∧
    (e.roll : Draw (List UInt64) Int).run ws = (.ok t, [])

/-- The totals that are attained are all those between the bounds, so every counter of a histogram
has a total that it counts. -/
theorem attains_iff_between {e : Expression} {lo hi : Int} (hw : e.WellFormed)
    (hlo : e.minimum = .ok lo) (hhi : e.maximum = .ok hi) :
    (∀ t, e.Attains t ↔ lo ≤ t ∧ t ≤ hi) ∧
      ∃ counts, Simulation.emptyHistogram lo hi = .ok counts ∧ counts.size = hi - lo + 2 ∧
        ∀ i : Nat, 1 ≤ i → i < counts.size → ∃ t, Simulation.slot lo t = .ok i ∧ e.Attains t := by
  obtain ⟨steps, hs, hlow, hhigh⟩ := exists_steps_of_bounds hlo hhi
  have hattains : ∀ t, e.Attains t ↔ lo ≤ t ∧ t ≤ hi := by
    intro t
    constructor
    · rintro ⟨ws, -, -, hrun⟩
      have hends := ends_roll (fun _ => Draw.ends_face) hlo hhi ws
      rw [hrun] at hends
      exact hends
    · rintro ⟨hl, hh⟩
      obtain ⟨total, ws, htotal, hacc, hrun⟩ :=
        exists_words_foldlM steps (Int.le_refl 0) hlow hhigh hl hh
      obtain rfl : total = 0 := Int.le_antisymm htotal.2 htotal.1
      have hsides : e.diceSides = steps.flatMap fun step => step.2.diceSides := by
        rw [diceSides, ← map_snd_of_steps hs, List.flatMap_map]
      have hlength : e.diceSides.length = e.diceCount := by
        simp only [diceSides, List.length_flatMap, Term.length_diceSides, hw.counted]
      rw [← hsides] at hacc
      exact ⟨ws, hacc.length_eq.symm.trans hlength, hacc, by rw [roll_eq, hs]; exact hrun⟩
  obtain ⟨counts, hcounts, hsize, hslot⟩ := exists_emptyHistogram (spread_le hlo hhi hw)
  refine ⟨hattains, counts, hcounts, hsize, fun i hi hi' => ?_⟩
  exact ⟨lo + (i - 1), hslot i hi hi', (hattains _).mpr (by omega)⟩

/-- The higher of two dice, less a die, and three dice of which none counts. -/
theorem attains_iff_between_advantage :
    let e : Expression := ⟨[
      .dice ⟨2, 20, some ⟨.highest, 1⟩, by decide, by decide, by decide, by decide, by decide⟩,
      .dice ⟨1, 4, none, by decide, by decide, by decide, by decide, by decide⟩,
      .dice ⟨3, 6, some ⟨.lowest, 0⟩, by decide, by decide, by decide, by decide, by decide⟩],
      [.sub, .add], 6⟩
    e.WellFormed ∧ e.minimum = .ok (-3) ∧ e.maximum = .ok 19 ∧
      (∀ t, e.Attains t ↔ -3 ≤ t ∧ t ≤ 19) ∧
      ∃ counts, Simulation.emptyHistogram (-3) 19 = .ok counts ∧ counts.size = (19 - -3 + 2 : Int) ∧
        ∀ i : Nat, 1 ≤ i → i < counts.size →
          ∃ t, Simulation.slot (-3) t = .ok i ∧ e.Attains t := by
  have hw : Expression.WellFormed ⟨[
      .dice ⟨2, 20, some ⟨.highest, 1⟩, by decide, by decide, by decide, by decide, by decide⟩,
      .dice ⟨1, 4, none, by decide, by decide, by decide, by decide, by decide⟩,
      .dice ⟨3, 6, some ⟨.lowest, 0⟩, by decide, by decide, by decide, by decide, by decide⟩],
      [.sub, .add], 6⟩ := ⟨.inr rfl, rfl, by decide⟩
  exact ⟨hw, rfl, rfl, attains_iff_between hw rfl rfl⟩

end Expression

end DiceEngine
