import DiceEngine.Expression.Reader
import DiceEngine.Proofs.Attained

/-!
# What a histogram counts

Each entry of a histogram counts the totals of its place, and the place of a
total is the same all along. So counting more totals adds to each entry how
often its total is among them (`added`), whatever their order, and fails exactly
where an entry would leave the range of totals: one total is
`countAt_eq`, and a list of them `foldlM_countAt`.

The first entry is the least total, and its place belongs to the total one
below. Where this total occurs it is counted there, on top of the least total;
every other total that is out of the bounds changes nothing (`entries_filter`).
So the counts are exact where it does not occur (`countsExactly_entries_iff`).
-/

namespace DiceEngine.Simulation

open Expression (emptyHistogram_eq)

variable {lo hi t : Int} {ts : List Int} {counts : Array Int}

/-- The least total of an expression is a total. -/
theorem inRange_minimum {e : Expression} (h : e.minimum = .ok lo) : Total.InRange lo := by
  obtain ⟨steps, hs, -⟩ := Expression.bind_eq_ok_iff.mp h
  exact (Expression.minimum_eq_sum hs h).1

/-! ## Counting some totals -/

/-- A histogram in which some more totals are counted. The entry at place `i` belongs to the total
that is `i` above the one below the least. -/
def added (lo : Int) (ts : List Int) (counts : Array Int) : Array Int :=
  counts.mapIdx fun i c => c + ts.count (lo - 1 + i)

/-- Every entry is in the range of totals. -/
def Fits (counts : Array Int) : Prop := ∀ i (h : i < counts.size), Total.InRange counts[i]

instance : Decidable (Fits counts) := inferInstanceAs (Decidable (∀ i, ∀ _ : i < _, _))

theorem size_added (lo : Int) (ts : List Int) (counts : Array Int) :
    (added lo ts counts).size = counts.size := Array.size_mapIdx

theorem getElem_added {i : Nat} (h : i < (added lo ts counts).size) :
    (added lo ts counts)[i] =
      getElem counts i (size_added lo ts counts ▸ h) + ts.count (lo - 1 + i) :=
  Array.getElem_mapIdx _

theorem added_nil (lo : Int) (counts : Array Int) : added lo [] counts = counts :=
  Array.ext (size_added _ _ _) fun i _ _ => by
    rw [getElem_added, List.count_nil]
    omega

/-- The totals may be counted one after another. -/
theorem added_cons (lo t : Int) (ts : List Int) (counts : Array Int) :
    added lo (t :: ts) counts = added lo ts (added lo [t] counts) :=
  Array.ext (by simp only [size_added]) fun i _ _ => by
    simp only [getElem_added, List.count_cons, List.count_nil]
    omega

/-- What is in range with more totals counted is in range before they are. -/
theorem Fits.of_added (h : Fits counts) (hmore : Fits (added lo (t :: ts) counts)) :
    Fits (added lo [t] counts) := by
  rw [added_cons] at hmore
  intro i hi
  have hstart := h i (size_added lo [t] counts ▸ hi)
  have hend := hmore i (by rwa [size_added])
  rw [getElem_added] at hend
  rw [getElem_added] at hend ⊢
  exact Expression.inRange_between hstart hend (by omega) (by omega)

/-- A total that has a place adds one to the entry there. -/
theorem added_place {i : Nat} (hi : i < counts.size) (ht : t = lo - 1 + i) :
    added lo [t] counts = counts.set i (counts[i] + 1) := by
  refine Array.ext (by rw [size_added, Array.size_set]) fun j _ hj => ?_
  rw [getElem_added, Array.getElem_set, List.count_singleton]
  simp only [beq_iff_eq]
  by_cases hij : i = j
  · subst hij
    rw [if_pos ht, if_pos rfl, Nat.cast_one]
  · rw [if_neg (by omega), if_neg hij, Nat.cast_zero, Int.add_zero]

/-- A total without a place adds nothing. -/
theorem added_nowhere (ht : ∀ i < counts.size, t ≠ lo - 1 + i) :
    added lo [t] counts = counts := by
  refine Array.ext (size_added _ _ _) fun i _ hi => ?_
  rw [getElem_added, List.count_singleton]
  simp only [beq_iff_eq]
  rw [if_neg (ht i hi), Nat.cast_zero, Int.add_zero]

theorem fits_set {i : Nat} {c : Int} (h : Fits counts) (hi : i < counts.size) :
    Fits (counts.set i c) ↔ Total.InRange c := by
  constructor
  · intro hset
    have hc := hset i (by rwa [Array.size_set])
    rwa [Array.getElem_set_self] at hc
  · intro hc j hj
    rw [Array.getElem_set]
    split
    · exact hc
    · exact h j _

/-- One total more, at the place where it belongs. -/
theorem countAt_eq (h : Fits counts) (lo t : Int) : countAt counts (t - lo + 1) =
    if Fits (added lo [t] counts) then .ok (added lo [t] counts) else .error .addOverflow := by
  rw [countAt]
  split
  · next hplace =>
    obtain ⟨hi, hsize⟩ := hplace
    have hfits := fits_set h hsize (c := counts[(t - lo + 1).toNat] + 1)
    rw [added_place hsize (by omega), Total.add]
    by_cases hone : Total.InRange (counts[(t - lo + 1).toNat] + 1)
    · rw [if_pos hone, if_pos (hfits.mpr hone)]
      rfl
    · rw [if_neg hone, if_neg fun hall => hone (hfits.mp hall)]
      rfl
  · next hplace =>
    rw [added_nowhere fun i hi ht => hplace ⟨by omega, by omega⟩, if_pos h]

/-- Some more totals, one after another. Once an entry is out of range, no total brings it back. -/
theorem foldlM_countAt (lo : Int) (ts : List Int) : ∀ {counts : Array Int}, Fits counts →
    (∀ t ∈ ts, slot lo t = .ok (t - lo + 1)) →
    ts.foldlM (fun counts t => do countAt counts (← slot lo t)) counts =
      if Fits (added lo ts counts) then .ok (added lo ts counts) else .error .addOverflow := by
  induction ts with
  | nil =>
    intro counts h _
    rw [added_nil, if_pos h]
    rfl
  | cons t ts ih =>
    intro counts h hslot
    obtain ⟨ht, hts⟩ := List.forall_mem_cons.mp hslot
    rw [List.foldlM_cons, ht]
    show countAt counts (t - lo + 1) >>= _ = _
    rw [countAt_eq h]
    by_cases hfirst : Fits (added lo [t] counts)
    · rw [if_pos hfirst, added_cons lo t ts]
      exact ih hfirst hts
    · rw [if_neg hfirst, if_neg fun hall => hfirst (h.of_added hall)]
      rfl

/-! ## Histograms -/

/-- The histogram of some totals: the least total and a counter for each total from the least to
the greatest. -/
structure CountsExactly (lo hi : Int) (ts : List Int) (counts : Array Int) : Prop where
  size : counts.size = hi - lo + 2
  header : counts[0]? = some lo
  counter : ∀ j : Nat, lo + j ≤ hi → counts[1 + j]? = some (ts.count (lo + j) : Int)

/-- The entries that counting some totals comes to. -/
def entries (lo hi : Int) (ts : List Int) : Array Int :=
  added lo ts (lo :: List.replicate (hi - lo + 1).toNat 0).toArray

theorem size_entries (h : lo ≤ hi) (ts : List Int) : (entries lo hi ts).size = hi - lo + 2 := by
  rw [entries, size_added, List.size_toArray, List.length_cons, List.length_replicate]
  omega

/-- The first entry also counts the total one below the least. -/
theorem getElem?_entries_zero (lo hi : Int) (ts : List Int) :
    (entries lo hi ts)[0]? = some (lo + ts.count (lo - 1)) := by
  rw [entries, added, Array.getElem?_mapIdx, List.getElem?_toArray, List.getElem?_cons_zero]
  simp

theorem getElem?_entries_succ {j : Nat} (hj : lo + j ≤ hi) (ts : List Int) :
    (entries lo hi ts)[1 + j]? = some (ts.count (lo + j) : Int) := by
  have hplace : lo - 1 + (1 + j : Nat) = lo + j := by omega
  rw [entries, added, Array.getElem?_mapIdx, List.getElem?_toArray, Nat.add_comm 1 j,
    List.getElem?_cons_succ, List.getElem?_replicate, if_pos (by omega), ← Nat.add_comm 1 j,
    Option.map_some, hplace, Int.zero_add]

/-- Nothing overflows where the first entry and each counter are in range. -/
theorem fits_entries_iff : Fits (entries lo hi ts) ↔ Total.InRange (lo + ts.count (lo - 1)) ∧
    ∀ t, lo ≤ t → t ≤ hi → (ts.count t : Int) ≤ Total.greatest := by
  constructor
  · intro hfits
    have hentry : ∀ {i : Nat} {c : Int}, (entries lo hi ts)[i]? = some c → Total.InRange c := by
      intro i c hc
      obtain ⟨hi, rfl⟩ := Array.getElem?_eq_some_iff.mp hc
      exact hfits i hi
    refine ⟨hentry (getElem?_entries_zero lo hi ts), fun t hl hh => ?_⟩
    have hj : lo + (t - lo).toNat = t := by omega
    have hcounter := hentry (getElem?_entries_succ (hj.symm ▸ hh : lo + (t - lo).toNat ≤ hi) ts)
    rw [hj] at hcounter
    exact hcounter.2
  · rintro ⟨hheader, hcounters⟩ i hplace
    rcases i with _ | j
    · have hfirst := getElem?_entries_zero lo hi ts
      rw [Array.getElem?_eq_getElem hplace, Option.some.injEq] at hfirst
      rwa [hfirst]
    · have hj : lo + j ≤ hi := by
        rw [entries, size_added, List.size_toArray, List.length_cons, List.length_replicate]
          at hplace
        omega
      have hcounter := getElem?_entries_succ hj ts
      rw [Nat.add_comm, Array.getElem?_eq_getElem hplace, Option.some.injEq] at hcounter
      rw [hcounter]
      exact ⟨Int.le_trans (by decide) (Int.natCast_nonneg _), hcounters _ (by omega) hj⟩

theorem fits_entries (hlo : Total.InRange lo) (hbelow : lo - 1 ∉ ts)
    (hroom : ∀ t, lo ≤ t → t ≤ hi → (ts.count t : Int) ≤ Total.greatest) :
    Fits (entries lo hi ts) := by
  refine fits_entries_iff.mpr ⟨?_, hroom⟩
  rwa [List.count_eq_zero.mpr hbelow, Nat.cast_zero, Int.add_zero]

/-- Other totals have no entry. -/
theorem entries_filter (h : lo ≤ hi) (ts : List Int) :
    entries lo hi (ts.filter fun t => lo - 1 ≤ t ∧ t ≤ hi) = entries lo hi ts := by
  refine Array.ext (by simp only [entries, size_added]) fun i _ hi => ?_
  have hsize := size_entries h ts
  simp only [entries, getElem_added]
  rw [List.count_filter (by simp only [decide_eq_true_eq]; omega)]

/-- Behind the first entry stand the counters. -/
theorem tail_entries (h : lo ≤ hi) (ts : List Int) : (entries lo hi ts).toList.tail =
    (List.range (hi - lo + 1).toNat).map fun j : Nat => (ts.count (lo + j) : Int) := by
  have hsize := size_entries h ts
  have hlength : (entries lo hi ts).toList.tail.length = (hi - lo + 1).toNat := by
    rw [List.length_tail, Array.length_toList]
    omega
  refine List.ext_getElem (by simp only [hlength, List.length_map, List.length_range])
    fun j hj _ => ?_
  have hentry := getElem?_entries_succ (j := j) (by omega : lo + j ≤ hi) ts
  rw [Nat.add_comm, Array.getElem?_eq_getElem (by omega), Option.some.injEq] at hentry
  rw [List.getElem_tail, Array.getElem_toList, hentry, List.getElem_map, List.getElem_range]

theorem countsExactly_entries_iff (h : lo ≤ hi) :
    CountsExactly lo hi ts (entries lo hi ts) ↔ lo - 1 ∉ ts := by
  constructor
  · intro hexact
    have hheader := hexact.header
    rw [getElem?_entries_zero, Option.some.injEq] at hheader
    exact List.count_eq_zero.mp (by omega)
  · intro hbelow
    refine ⟨size_entries h ts, ?_, fun j hj => getElem?_entries_succ hj ts⟩
    rw [getElem?_entries_zero, List.count_eq_zero.mpr hbelow, Nat.cast_zero, Int.add_zero]

/-- The histogram of some totals, or the one fault that counting them comes to. -/
theorem histogram_eq {e : Expression} (hlo : e.minimum = .ok lo) (hhi : e.maximum = .ok hi)
    (hspread : 0 ≤ hi - lo ∧ hi - lo ≤ 9900)
    (hts : ∀ t ∈ ts, Total.InRange (t - lo) ∧ Total.InRange (t - lo + 1)) : histogram e ts =
      if Fits (entries lo hi ts) then .ok (entries lo hi ts) else .error .addOverflow := by
  have hslot : ∀ t ∈ ts, slot lo t = .ok (t - lo + 1) := by
    intro t ht
    have hplace : Total.sub t lo = .ok (t - lo) := Total.sub_eq_ok_iff.mpr ⟨(hts t ht).1, rfl⟩
    rw [slot, hplace]
    exact Total.add_eq_ok_iff.mpr ⟨(hts t ht).2, rfl⟩
  have hempty : Fits (entries lo hi []) :=
    fits_entries (inRange_minimum hlo) List.not_mem_nil fun _ _ _ => by
      rw [List.count_nil]
      decide
  rw [entries, added_nil] at hempty
  rw [histogram, hlo, hhi]
  show (emptyHistogram lo hi >>= _) = _
  rw [emptyHistogram_eq hspread]
  exact foldlM_countAt lo ts hempty hslot

/-- A histogram counts the totals between the bounds exactly, but its first entry is the least total
only where no total is one below: such totals are counted there. Those further away change nothing.
A counter is a total itself, so it would be out of range for more than `Total.greatest` equal ones. -/
theorem counts_iff_no_total_below {e : Expression} (hw : e.WellFormed) (hlo : e.minimum = .ok lo)
    (hhi : e.maximum = .ok hi)
    (hts : ∀ t ∈ ts, Total.InRange (t - lo) ∧ Total.InRange (t - lo + 1)) :
    histogram e ts =
        (if Fits (entries lo hi ts) then .ok (entries lo hi ts) else .error .addOverflow) ∧
      histogram e (ts.filter fun t => lo - 1 ≤ t ∧ t ≤ hi) = histogram e ts ∧
      ((∃ counts, histogram e ts = .ok counts ∧ CountsExactly lo hi ts counts) ↔
        lo - 1 ∉ ts ∧ ∀ t, lo ≤ t → t ≤ hi → (ts.count t : Int) ≤ Total.greatest) := by
  have hspread := Expression.spread_le hlo hhi hw
  have hle : lo ≤ hi := Int.sub_nonneg.mp hspread.1
  have heq := histogram_eq hlo hhi hspread hts
  refine ⟨heq, ?_, ?_⟩
  · rw [heq, histogram_eq hlo hhi hspread fun t ht => hts t (List.mem_of_mem_filter ht),
      entries_filter hle]
  · rw [heq]
    constructor
    · rintro ⟨counts, hcounts, hexact⟩
      split at hcounts
      · next hfits =>
        cases hcounts
        exact ⟨(countsExactly_entries_iff hle).mp hexact, (fits_entries_iff.mp hfits).2⟩
      · cases hcounts
    · rintro ⟨hbelow, hroom⟩
      have hfits : Fits (entries lo hi ts) := fits_entries (inRange_minimum hlo) hbelow hroom
      rw [if_pos hfits]
      exact ⟨_, rfl, (countsExactly_entries_iff hle).mpr hbelow⟩

/-- Totals on either side of the bounds and between them, and the furthest that have a place. -/
theorem counts_iff_no_total_below_far :
    let e : Expression := ⟨[.dice ⟨1, 4, none, by decide, by decide, by decide, by decide,
      by decide⟩, .literal 1], [.add], 1⟩
    let ts : List Int := [5, 0, 2, 6, 5, 9223372036854775807, -9223372036854775806]
    e.WellFormed ∧ e.minimum = .ok 2 ∧ e.maximum = .ok 5 ∧
      (∀ t ∈ ts, Total.InRange (t - 2) ∧ Total.InRange (t - 2 + 1)) ∧
      histogram e ts =
        (if Fits (entries 2 5 ts) then .ok (entries 2 5 ts) else .error .addOverflow) ∧
      histogram e (ts.filter fun t => 2 - 1 ≤ t ∧ t ≤ 5) = histogram e ts ∧
      ((∃ counts, histogram e ts = .ok counts ∧ CountsExactly 2 5 ts counts) ↔
        2 - 1 ∉ ts ∧ ∀ t, 2 ≤ t → t ≤ 5 → (ts.count t : Int) ≤ Total.greatest) := by
  intro e ts
  have hw : e.WellFormed := ⟨.inr rfl, rfl, by decide⟩
  have hts : ∀ t ∈ ts, Total.InRange (t - 2) ∧ Total.InRange (t - 2 + 1) := by decide
  exact ⟨hw, rfl, rfl, hts, counts_iff_no_total_below hw rfl rfl hts⟩

/-- The total one below the least is counted in the first entry. -/
theorem first_entry_counts_total_below :
    let e : Expression := ⟨[.dice ⟨1, 4, none, by decide, by decide, by decide, by decide,
      by decide⟩, .literal 1], [.add], 1⟩
    Expression.parse "1d4 + 1" = .ok e ∧ e.minimum = .ok 2 ∧ e.maximum = .ok 5 ∧
      (Total.InRange (1 - 2) ∧ Total.InRange (1 - 2 + 1)) ∧
      histogram e [1] = .ok #[3, 0, 0, 0, 0] ∧
      ¬ ∃ counts, histogram e [1] = .ok counts ∧ CountsExactly 2 5 [1] counts := by
  intro e
  have hcounts : histogram e [1] = .ok #[3, 0, 0, 0, 0] := by rfl
  refine ⟨by decide +kernel, rfl, rfl, by decide, hcounts, ?_⟩
  rintro ⟨counts, hok, hexact⟩
  rw [hcounts, Except.ok.injEq] at hok
  subst hok
  exact absurd hexact.header (by decide)

end DiceEngine.Simulation
