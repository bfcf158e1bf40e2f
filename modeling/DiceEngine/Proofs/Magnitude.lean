import DiceEngine.Proofs.Attained
import DiceEngine.Proofs.Canonical

/-!
# How far totals reach

A term of a text moves a total by no more than three digits can say, and by a
hundred for each die (`Term.reach`). Dice are at most a hundred in one
expression, so only the number of its terms matters, and with up to 2^50 of them
no bound overflows (`Expression.exists_bounds`).
-/

namespace DiceEngine

/-- How far a term that can be written moves a total at most. -/
def Term.reach (t : Term) : Nat := 999 + 100 * t.diceCount

theorem Term.Writable.bounds {t : Term} (h : t.Writable) : 0 ≤ t.low ∧ t.high ≤ t.reach := by
  cases t with
  | literal v =>
    refine ⟨h.1, ?_⟩
    have hv : v ≤ 999 := h.2
    simp only [high, reach, diceCount]
    omega
  | dice g =>
    have hvalue : g.keepCount * g.sides ≤ g.quantity * 100 :=
      Nat.mul_le_mul g.keepCount_le g.sides_le
    have hhigh : g.high = ((g.keepCount * g.sides : Nat) : Int) := by
      rw [DieGroup.high]
      push_cast
      rfl
    refine ⟨Int.natCast_nonneg _, ?_⟩
    simp only [high, reach, diceCount, hhigh]
    omega

theorem Total.inRange_of_natAbs_le {n : Int} (h : (n.natAbs : Int) ≤ greatest) : InRange n := by
  have hleast : least = -greatest - 1 := rfl
  rw [InRange, hleast]
  omega

theorem Operator.exists_apply_ok (op : Operator) {total v : Int} {reach : Nat}
    (hv : 0 ≤ v ∧ v ≤ reach) (h : (total.natAbs : Int) + reach ≤ Total.greatest) :
    ∃ total', op.apply total v = .ok total' ∧ total'.natAbs ≤ total.natAbs + reach := by
  cases op with
  | add =>
    refine ⟨total + v, Total.add_eq_ok_iff.mpr ⟨Total.inRange_of_natAbs_le ?_, rfl⟩, ?_⟩ <;> omega
  | sub =>
    refine ⟨total - v, Total.sub_eq_ok_iff.mpr ⟨Total.inRange_of_natAbs_le ?_, rfl⟩, ?_⟩ <;> omega

namespace Expression

/-- The terms to come can be written, and there is room for all that they reach. -/
def HasRoom (steps : List (Operator × Term)) (total : Int) : Prop :=
  (∀ step ∈ steps, step.2.Writable) ∧
    (total.natAbs : Int) + (steps.map fun step => step.2.reach).sum ≤ Total.greatest

/-- A term moves both running bounds, and leaves room for the terms behind it. -/
theorem HasRoom.exists_joins_ok {step : Operator × Term} {steps : List (Operator × Term)}
    {total : Int} (h : HasRoom (step :: steps) total) :
    (∃ total', joinLow total step = .ok total' ∧ HasRoom steps total') ∧
      ∃ total', joinHigh total step = .ok total' ∧ HasRoom steps total' := by
  obtain ⟨op, t⟩ := step
  obtain ⟨hwritable, hroom⟩ := h
  obtain ⟨ht, hsteps⟩ := List.forall_mem_cons.mp hwritable
  simp only [List.map_cons, List.sum_cons] at hroom
  have happly : ∀ v : Int, 0 ≤ v ∧ v ≤ t.reach →
      ∃ total', op.apply total v = .ok total' ∧ HasRoom steps total' := by
    intro v hv
    have hfits : (total.natAbs : Int) + t.reach ≤ Total.greatest := by omega
    obtain ⟨total', hok, hle⟩ := op.exists_apply_ok hv hfits
    exact ⟨total', hok, hsteps, by omega⟩
  have hb := ht.bounds
  have hle := t.low_le_high
  have hlow := happly t.low ⟨hb.1, Int.le_trans hle hb.2⟩
  have hhigh := happly t.high ⟨Int.le_trans hb.1 hle, hb.2⟩
  cases op with
  | add => exact ⟨hlow, hhigh⟩
  | sub => exact ⟨hhigh, hlow⟩

/-- The terms of a text together reach no further than their number and a hundred dice allow. -/
theorem sum_reach {e : Expression} (h : e.WellFormed) :
    (e.terms.map Term.reach).sum ≤ 999 * e.terms.length + 10000 := by
  have hsum : ∀ ts : List Term, (ts.map Term.reach).sum =
      999 * ts.length + 100 * (ts.map Term.diceCount).sum := by
    intro ts
    induction ts with
    | nil => rfl
    | cons t ts ih =>
      simp only [List.map_cons, List.sum_cons, List.length_cons, ih, Term.reach]
      omega
  have hcap : e.diceCount ≤ 100 := h.capped
  rw [hsum, ← h.counted]
  omega

/-- What is read of a text of up to 2^50 terms has both bounds. -/
theorem exists_bounds {text : String} {e : Expression} (h : parse text = .ok e)
    (hl : e.terms.length ≤ 2 ^ 50) : ∃ lo hi, e.minimum = .ok lo ∧ e.maximum = .ok hi := by
  obtain ⟨⟨hspelled, hw⟩, hc⟩ := parse_eq_ok_iff.mp h
  have hs := steps_eq_ok_iff.mpr ⟨hc, rfl⟩
  generalize (Operator.add :: e.operators).zip e.terms = steps at hs
  have hterms := map_snd_of_steps hs
  have hroom : HasRoom steps 0 := by
    refine ⟨fun step hstep => hspelled.writable step.2 (hterms ▸ List.mem_map_of_mem hstep), ?_⟩
    have hreach := sum_reach hw
    rw [← hterms, List.map_map, List.length_map] at hreach
    have hlength : steps.length ≤ 2 ^ 50 := by rwa [← hterms, List.length_map] at hl
    have hsum : (steps.map fun step => step.2.reach).sum ≤ 999 * 2 ^ 50 + 10000 :=
      Nat.le_trans hreach (by omega)
    show (0 : Int) + _ ≤ 0x7fffffffffffffff
    omega
  obtain ⟨lo, hlo, -⟩ := exists_foldlM_ok (fun _ _ _ h => h.exists_joins_ok.1) steps 0 hroom
  obtain ⟨hi, hhi, -⟩ := exists_foldlM_ok (fun _ _ _ h => h.exists_joins_ok.2) steps 0 hroom
  refine ⟨lo, hi, ?_, ?_⟩
  · rw [minimum_eq, hs]
    exact hlo
  · rw [maximum_eq, hs]
    exact hhi

end Expression

end DiceEngine
