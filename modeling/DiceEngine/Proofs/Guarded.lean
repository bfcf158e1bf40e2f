import DiceEngine.Proofs.Overflow
import DiceEngine.Proofs.Ranks

/-!
# Order statistics with every place looked at

Order statistics are computed without a look at their places: a difference
below zero would be zero, and what is looked up behind the end of a list would
be zero too. The computations here give up instead, where a difference is below
zero (`difference`) or a place is not there. They never do: they come to what
the others come to (`guardedMass_eq`, `guardedAt_eq`). What does fail is a row of
coefficients that overflows, and that is every row from 126 on
(`fails_from_126`).
-/

namespace DiceEngine.OrderStatistic

variable {α : Type} [Add α] [Sub α] [Mul α] [Div α] [NatCast α]

/-! ## Guarded computations -/

/-- A difference that is not below zero. -/
def difference (a b : Nat) : Option Nat := if b ≤ a then some (a - b) else none

/-- The masses of a face, unless a difference of places or faces is below zero. -/
def guardedMass (row : List α) (sides face : Nat) : Option (List α) := do
  let n ← difference row.length 1
  let above ← difference sides face
  let below ← difference face 1
  row.zipIdx.mapM fun entry => do
    let rest ← difference n entry.2
    some (entry.1 *
      (power ((above : α) / (sides : α)) entry.2 * power ((face : α) / (sides : α)) rest -
        power (((above + 1 : Nat) : α) / (sides : α)) entry.2 *
          power ((below : α) / (sides : α)) rest))

/-- What a face adds to the expected sum of the dice at some ranks, unless one of the ranks has no
running sum. -/
def guardedShare (row : List α) (sides : Nat) (ranks : List Nat) (face : Nat) : Option α := do
  let masses ← guardedMass row sides face
  let chances ← ranks.mapM fun k => (runningSums ((0 : Nat) : α) masses)[k]?
  some ((face : α) * sum chances)

/-- The expected sum of the dice at some ranks, face by face. -/
def guardedAt (row : List α) (sides : Nat) (ranks : List Nat) : Option α := do
  let shares ← (List.range' 1 sides).mapM (guardedShare row sides ranks)
  some (sum shares)

/-- The expected sum of the `keep` highest of `n` dice, with every place looked at. -/
def guardedHighest (n sides keep : Nat) : Except Fault (Option α) := do
  let row ← coefficients n
  .ok (guardedAt row sides (List.range (min keep n)))

/-- The expected sum of the `keep` lowest of `n` dice, with every place looked at. -/
def guardedLowest (n sides keep : Nat) : Except Fault (Option α) := do
  let row ← coefficients n
  .ok ((List.range' 1 (min keep n)).mapM (difference n) >>= guardedAt row sides)

/-! ## They never give up -/

theorem difference_eq_some {a b : Nat} (h : b ≤ a) : difference a b = some (a - b) := if_pos h

/-- Where every member of a list has a result, the list has one. -/
theorem mapM_eq_some {β γ : Type} {f : β → Option γ} {g : β → γ} {xs : List β}
    (h : ∀ x ∈ xs, f x = some (g x)) : xs.mapM f = some (xs.map g) := by
  induction xs with
  | nil => rfl
  | cons x xs ih =>
    obtain ⟨hx, hxs⟩ := List.forall_mem_cons.mp h
    rw [List.mapM_cons, hx, ih hxs]
    rfl

omit [Sub α] [Mul α] [Div α] [NatCast α] in
theorem length_runningSums {xs : List α} : ∀ start : α,
    (runningSums start xs).length = xs.length := by
  induction xs with
  | nil => exact fun _ => rfl
  | cons x xs ih => exact fun start => congrArg (· + 1) (ih (start + x))

omit [Add α] in
theorem length_faceMass (row : List α) (sides face : Nat) : (faceMass row sides face).length = row.length := List.length_mapIdx

omit [Add α] in
/-- A face of the dice and the places of a row leave no difference below zero. -/
theorem guardedMass_eq {row : List α} {sides face : Nat} (hrow : row ≠ []) (h1 : 1 ≤ face)
    (hf : face ≤ sides) : guardedMass row sides face = some (faceMass row sides face) := by
  have hlength := List.length_pos_iff.mpr hrow
  rw [guardedMass, difference_eq_some hlength, difference_eq_some hf, difference_eq_some h1]
  show List.mapM _ _ = _
  rw [faceMass, List.mapIdx_eq_zipIdx_map]
  refine mapM_eq_some fun entry hentry => ?_
  have hplace : entry.2 ≤ row.length - 1 := by
    have := List.snd_lt_of_mem_zipIdx hentry
    omega
  rw [difference_eq_some hplace]
  rfl

/-- The places of a list are there to be looked up. -/
theorem lookups_eq_some {β : Type} {xs : List β} {places : List Nat} (d : β)
    (h : ∀ k ∈ places, k < xs.length) :
    places.mapM (fun k => xs[k]?) = some (places.map fun k => xs.getD k d) := by
  refine mapM_eq_some fun k hk => ?_
  rw [List.getD_eq_getElem?_getD, List.getElem?_eq_getElem (h k hk), Option.getD_some]

theorem guardedShare_eq {row : List α} {sides face : Nat} {ranks : List Nat} (hrow : row ≠ [])
    (hranks : ∀ k ∈ ranks, k < row.length) (h1 : 1 ≤ face) (hf : face ≤ sides) :
    guardedShare row sides ranks face = some ((face : α) * sum (ranks.map fun k =>
      (runningSums ((0 : Nat) : α) (faceMass row sides face)).getD k ((0 : Nat) : α))) := by
  have hplaces : ∀ k ∈ ranks,
      k < (runningSums ((0 : Nat) : α) (faceMass row sides face)).length := by
    rw [length_runningSums, length_faceMass]
    exact hranks
  simp only [guardedShare, guardedMass_eq hrow h1 hf, Option.bind_eq_bind, Option.bind_some,
    lookups_eq_some ((0 : Nat) : α) hplaces]

/-- Ranks that a row has leave no place without a running sum. -/
theorem guardedAt_eq {row : List α} {ranks : List Nat} (sides : Nat) (hrow : row ≠ [])
    (hranks : ∀ k ∈ ranks, k < row.length) :
    guardedAt row sides ranks = some (expectedAt row sides ranks) := by
  rw [guardedAt, mapM_eq_some fun face hface => ?_]
  · rfl
  · rw [List.mem_range'_1] at hface
    exact guardedShare_eq hrow hranks hface.1 (by omega)

/-! ## What fails -/

/-- A computation about `n` dice comes to a result where there are fewer than `first` of
them, and where there are not a product overflows. -/
def OverflowsFrom {β : Type} (first n : Nat) (x : Except Fault β) : Prop :=
  ((∃ b, x = .ok b) ↔ n < first) ∧ (x = .error .mulOverflow ↔ first ≤ n)

namespace OverflowsFrom

variable {β γ : Type} {first n : Nat} {x : Except Fault β}

/-- A computation has one outcome, so two implications are enough. -/
theorem intro (hok : n < first → ∃ b, x = .ok b) (herror : first ≤ n → x = .error .mulOverflow) :
    OverflowsFrom first n x := by
  refine ⟨⟨fun ⟨b, hb⟩ => ?_, hok⟩, ⟨fun h => ?_, herror⟩⟩
  · refine Nat.lt_of_not_le fun hn => ?_
    rw [herror hn] at hb
    cases hb
  · refine Nat.le_of_not_lt fun hn => ?_
    obtain ⟨b, hb⟩ := hok hn
    rw [hb] at h
    cases h

/-- What is made of the result cannot overflow. -/
theorem bind_ok (h : OverflowsFrom first n x) (f : β → γ) :
    OverflowsFrom first n (x >>= fun b => .ok (f b)) := by
  refine .intro (fun hn => ?_) fun hn => ?_
  · obtain ⟨b, rfl⟩ := h.1.mpr hn
    exact ⟨f b, rfl⟩
  · rw [h.2.mpr hn]
    rfl

end OverflowsFrom

omit [Add α] [Sub α] [Mul α] [Div α] in
theorem coefficients_overflowsFrom (n : Nat) :
    OverflowsFrom 126 n (coefficients n : Except Fault (List α)) :=
  .intro (fun hn => ⟨_, coefficients_eq_map (Nat.le_of_lt_succ hn)⟩) coefficients_eq_error

omit [Add α] [Sub α] [Mul α] [Div α] in
/-- The coefficients are one more than the dice. -/
theorem length_of_coefficients {n : Nat} {row : List α} (h : coefficients n = .ok row) :
    row.length = n + 1 := by
  have hn := (coefficients_overflowsFrom n).1.mp ⟨row, h⟩
  rw [coefficients_eq_map (Nat.le_of_lt_succ hn)] at h
  cases h
  rw [List.length_map, List.length_range]

theorem guardedHighest_eq (n sides keep : Nat) : guardedHighest n sides keep =
    (expectedHighest n sides keep : Except Fault α).map some := by
  rw [guardedHighest, expectedHighest]
  cases hrow : (coefficients n : Except Fault (List α)) with
  | error f => rfl
  | ok row =>
    have hlength := length_of_coefficients hrow
    refine congrArg Except.ok (guardedAt_eq sides (List.ne_nil_of_length_eq_add_one hlength) ?_)
    intro k hk
    have := lt_of_mem_highest hk
    omega

theorem guardedLowest_eq (n sides keep : Nat) : guardedLowest n sides keep =
    (expectedLowest n sides keep : Except Fault α).map some := by
  have hranks : (List.range' 1 (min keep n)).mapM (difference n) =
      some ((List.range' 1 (min keep n)).map (n - ·)) := by
    refine mapM_eq_some fun k hk => difference_eq_some ?_
    rw [List.mem_range'_1] at hk
    omega
  rw [guardedLowest, expectedLowest, hranks]
  cases hrow : (coefficients n : Except Fault (List α)) with
  | error f => rfl
  | ok row =>
    have hlength := length_of_coefficients hrow
    refine congrArg Except.ok (guardedAt_eq sides (List.ne_nil_of_length_eq_add_one hlength) ?_)
    intro k hk
    have := lt_of_mem_lowest hk
    omega

/-- Up to 125 dice there are coefficients and both expected sums, whatever the sides and the dice
kept; from 126 dice on there is none of them, as a product overflows. That is all that can fail: no
place is looked up that is not there, and no difference is below zero. -/
theorem fails_from_126 (n sides keep : Nat) :
    OverflowsFrom 126 n (coefficients n : Except Fault (List α)) ∧
      OverflowsFrom 126 n (expectedHighest n sides keep : Except Fault α) ∧
      OverflowsFrom 126 n (expectedLowest n sides keep : Except Fault α) ∧
      guardedHighest n sides keep = (expectedHighest n sides keep : Except Fault α).map some ∧
      guardedLowest n sides keep = (expectedLowest n sides keep : Except Fault α).map some := by
  have hrow := coefficients_overflowsFrom (α := α) n
  exact ⟨hrow, hrow.bind_ok _, hrow.bind_ok _, guardedHighest_eq n sides keep,
    guardedLowest_eq n sides keep⟩

end DiceEngine.OrderStatistic
