import DiceEngine.Proofs.Counted
import DiceEngine.Proofs.Magnitude
import DiceEngine.Proofs.Supply
import DiceEngine.Simulation.Totals
import Mathlib.Algebra.BigOperators.Ring.Finset

/-!
# Simulations lose no roll

A simulation whose generators supply all dice has a total for each roll, between
the bounds of the expression (`totalsOnto_of_supplies`). The histogram has a
counter for each total between the bounds, behind an entry that is none, so the
counters together have counted every roll (`tally_entries`), and none of them
has counted more than all of them (`exists_histogram`). This is `no_roll_lost`.
-/

namespace DiceEngine.Simulation

variable {lo hi : Int} {ts : List Int}

/-! ## Histograms -/

/-- The histogram of so many totals between these bounds. -/
structure Tally (lo hi : Int) (rolls : Nat) (counts : Array Int) : Prop where
  size : counts.size = hi - lo + 2
  /-- The first entry is no counter. -/
  header : counts[0]? = some lo
  nonneg : ∀ c ∈ counts.toList.tail, 0 ≤ c
  sum : counts.toList.tail.sum = rolls

/-- The counters of some places have together counted the totals that belong there. -/
theorem sum_count {n : Nat} (hts : ∀ t ∈ ts, lo ≤ t ∧ t < lo + n) :
    ((List.range n).map fun j : Nat => (ts.count (lo + j) : Int)).sum = ts.length := by
  have hplaces : ∀ t ∈ (ts : Multiset Int), t ∈ (Finset.range n).image fun j : Nat => lo + j := by
    intro t ht
    have hbetween := hts t ht
    exact Finset.mem_image.mpr ⟨(t - lo).toNat, Finset.mem_range.mpr (by omega), by omega⟩
  have hcard := Multiset.sum_count_eq_card hplaces
  rw [Finset.sum_image fun i _ j _ hij => by simpa using hij] at hcard
  simp only [Multiset.coe_count, Multiset.coe_card] at hcard
  rw [← hcard, Nat.cast_sum, ← List.toFinset_range, List.sum_toFinset _ List.nodup_range]

theorem not_mem_below (hts : ∀ t ∈ ts, lo ≤ t ∧ t ≤ hi) : lo - 1 ∉ ts := by
  intro hbelow
  have := hts _ hbelow
  omega

theorem tally_entries (h : lo ≤ hi) (hts : ∀ t ∈ ts, lo ≤ t ∧ t ≤ hi) :
    Tally lo hi ts.length (entries lo hi ts) where
  size := size_entries h ts
  header := ((countsExactly_entries_iff h).mpr (not_mem_below hts)).header
  nonneg c hc := by
    rw [tail_entries h] at hc
    obtain ⟨j, -, rfl⟩ := List.mem_map.mp hc
    exact Int.natCast_nonneg _
  sum := by
    rw [tail_entries h]
    apply sum_count
    intro t ht
    have := hts t ht
    omega

/-- The histogram of totals between the bounds has counted them all. -/
theorem exists_histogram {e : Expression} (hlo : e.minimum = .ok lo) (hhi : e.maximum = .ok hi)
    (hw : 0 ≤ hi - lo ∧ hi - lo ≤ 9900)
    (hts : ∀ t ∈ ts, lo ≤ t ∧ t ≤ hi) (hroom : (ts.length : Int) ≤ Total.greatest) :
    ∃ counts, histogram e ts = .ok counts ∧ Tally lo hi ts.length counts := by
  have hslots : ∀ t ∈ ts, Total.InRange (t - lo) ∧ Total.InRange (t - lo + 1) := by
    intro t ht
    have := hts t ht
    exact ⟨Expression.inRange_of_small (by omega) (by omega),
      Expression.inRange_of_small (by omega) (by omega)⟩
  have hfits : Fits (entries lo hi ts) := by
    refine fits_entries (inRange_minimum hlo) (not_mem_below hts) fun t _ _ => ?_
    have hcount : ts.count t ≤ ts.length := List.count_le_length
    omega
  refine ⟨entries lo hi ts, ?_, tally_entries (by omega) hts⟩
  rw [histogram_eq hlo hhi hw hslots, if_pos hfits]

/-! ## Totals -/

/-- Rolls whose generators supply their dice have totals between the bounds. -/
theorem totalsOnto_of_supplies {e : Expression} (hlo : e.minimum = .ok lo)
    (hhi : e.maximum = .ok hi) : ∀ (count : Nat) (done : List Int) (master : ChaCha),
    (∀ i < count, ∃ s', Draw.Supplies (generator (behind^[i] master)) e.diceSides s') →
    ∃ ts, totalsOnto e count done master = (.ok (done.reverse ++ ts), behind^[count] master) ∧
      ts.length = count ∧ ∀ t ∈ ts, lo ≤ t ∧ t ≤ hi := by
  intro count
  induction count with
  | zero => exact fun done _ _ => ⟨[], by rw [List.append_nil]; rfl, rfl, List.forall_mem_nil _⟩
  | succ count ih =>
    intro done master h
    obtain ⟨s', hs'⟩ := h 0 (Nat.succ_pos count)
    obtain ⟨t, hrun, hbetween⟩ := Expression.run_roll_of_supplies hlo hhi hs'
    have htotal : totalOf e master = .ok t := congrArg Prod.fst hrun
    obtain ⟨ts, hrest, hlength, hts⟩ := ih (t :: done) (behind master) fun i hi =>
      h (i + 1) (Nat.succ_lt_succ hi)
    refine ⟨t :: ts, ?_, congrArg (· + 1) hlength, List.forall_mem_cons.mpr ⟨hbetween, hts⟩⟩
    rw [totalsOnto, htotal]
    simp only [hrest, List.reverse_cons, List.append_assoc, List.singleton_append]
    rfl

/-- Where the generators of a simulation supply their dice, there are as many totals as rolls, each
between the bounds, and the histogram of them has counted every roll. -/
theorem no_roll_lost {text : String} {e : Expression} (h : Expression.parse text = .ok e)
    (hl : e.terms.length ≤ 2 ^ 50) (count : UInt32) (master : ChaCha)
    (hends : ∀ i < count.toNat,
      ∃ s', Draw.Supplies (generator (behind^[i] master)) e.diceSides s') :
    ∃ ts lo hi counts, totals e count.toNat master = (.ok ts, behind^[count.toNat] master) ∧
      ts.length = count.toNat ∧ e.minimum = .ok lo ∧ e.maximum = .ok hi ∧
      (∀ t ∈ ts, lo ≤ t ∧ t ≤ hi) ∧
      histogram e ts = .ok counts ∧ Tally lo hi count.toNat counts := by
  obtain ⟨lo, hi, hlo, hhi⟩ := Expression.exists_bounds h hl
  have hw := Expression.spread_le hlo hhi (Expression.parse_eq_ok_iff.mp h).1.2
  obtain ⟨ts, htotals, hlength, hts⟩ := totalsOnto_of_supplies hlo hhi _ [] _ hends
  have hroom : (ts.length : Int) ≤ Total.greatest := by
    have hcount := count.toNat_lt
    rw [hlength]
    show _ ≤ (0x7fffffffffffffff : Int)
    omega
  obtain ⟨counts, hcounts, htally⟩ := exists_histogram hlo hhi hw hts hroom
  exact ⟨ts, lo, hi, counts, htotals, hlength, hlo, hhi, hts, hcounts, hlength ▸ htally⟩

/-- Dice with four sides accept every word. -/
theorem no_roll_lost_four_sides :
    let e := Expression.ofParts [.dice ⟨2, 4, none, by decide, by decide, by decide, by decide,
      by decide⟩, .literal 9] [.sub]
    Expression.parse "2d4 - 9" = .ok e ∧ (∀ i < UInt32.toNat 1000, ∃ s',
      Draw.Supplies (generator (behind^[i] (ChaCha.ofSeed20 7))) e.diceSides s') ∧
    ∃ ts lo hi counts, totals e 1000 (ChaCha.ofSeed20 7) =
        (.ok ts, behind^[1000] (ChaCha.ofSeed20 7)) ∧
      ts.length = 1000 ∧ e.minimum = .ok lo ∧ e.maximum = .ok hi ∧
      (∀ t ∈ ts, lo ≤ t ∧ t ≤ hi) ∧ histogram e ts = .ok counts ∧ Tally lo hi 1000 counts := by
  intro e
  have h : Expression.parse "2d4 - 9" = .ok e := by decide +kernel
  have hface : ∀ s : Xoshiro, ∃ face, Draw.Gets 4 s face s.advance := by
    intro s
    have hproduct : s.word.toNat * 4 % UInt64.size ≤ Draw.acceptedUpTo 4 :=
      Nat.le_of_lt_succ (Nat.mod_lt _ (by decide))
    exact ⟨_, [], s.word, ⟨_, rfl, rfl⟩, List.forall_mem_nil _, if_pos hproduct⟩
  have hends : ∀ i < UInt32.toNat 1000, ∃ s',
      Draw.Supplies (generator (behind^[i] (ChaCha.ofSeed20 7))) e.diceSides s' := by
    intro i _
    obtain ⟨f, hf⟩ := hface (generator (behind^[i] (ChaCha.ofSeed20 7)))
    obtain ⟨f', hf'⟩ := hface (generator (behind^[i] (ChaCha.ofSeed20 7))).advance
    exact ⟨_, f, _, hf, f', _, hf', rfl⟩
  exact ⟨h, hends, no_roll_lost h (by decide) 1000 (ChaCha.ofSeed20 7) hends⟩

end DiceEngine.Simulation
