import DiceEngine.Proofs.Supply
import DiceEngine.Simulation.Totals
import Mathlib.Algebra.Ring.Nat

/-!
# Rolls of a simulation do not depend on each other

Each roll of a simulation takes 32 bytes from the master stream, whatever it
rolls, and meets the generator that these bytes seed (`generator_iterate`). So a
simulation is its first rolls and, from the master stream that they leave, the
others (`totals_add`), and another expression meets the same generators
(`rolls_independent`).
-/

namespace DiceEngine

/-! ## Bytes of the master stream -/

namespace ChaCha

/-- The word at a place behind this one, in the block that holds it. -/
def wordAt (s : ChaCha) (n : Nat) : UInt64 :=
  (block s.doubleRounds s.key ((s.position + n) / 8)).get (Fin.ofNat 8 (s.position + n))

/-- The byte at a place behind this one. A word has eight of them, the low one first. -/
def byteAt (s : ChaCha) (k : Nat) : UInt8 := UInt8.ofNat ((s.wordAt (k / 8)).toNat / 256 ^ (k % 8))

theorem word_advance (s : ChaCha) (n : Nat) : (advance^[n] s).word = s.wordAt n := word_iterate s n

end ChaCha

/-- The number of some bytes, the low one first. -/
def numberOf (bytes : List UInt8) : Nat := bytes.foldr (fun b n => b.toNat + 256 * n) 0

theorem numberOf_digits {count : Nat} : ∀ {n : Nat}, n < 256 ^ count →
    numberOf ((List.range count).map fun b => UInt8.ofNat (n / 256 ^ b)) = n := by
  induction count with
  | zero =>
    intro n hn
    exact (Nat.lt_one_iff.mp hn).symm
  | succ count ih =>
    intro n hn
    have hrest := ih (n := n / 256) (by rw [Nat.pow_succ] at hn; omega)
    have hdigits : ((List.range count).map fun b => UInt8.ofNat (n / 256 ^ (b + 1))) =
        (List.range count).map fun b => UInt8.ofNat (n / 256 / 256 ^ b) := by
      refine List.map_congr_left fun b _ => ?_
      rw [Nat.div_div_eq_div_mul, Nat.pow_succ']
    rw [List.range_succ_eq_map, List.map_cons, List.map_map]
    show (UInt8.ofNat (n / 256 ^ 0)).toNat + 256 * numberOf _ = n
    rw [show ((fun b => UInt8.ofNat (n / 256 ^ b)) ∘ Nat.succ) =
      fun b => UInt8.ofNat (n / 256 ^ (b + 1)) from rfl, hdigits, hrest, UInt8.toNat_ofNat']
    omega

/-- The state that 32 bytes seed, eight for each word. -/
def Xoshiro.ofBytes (bytes : List UInt8) : Xoshiro :=
  .ofWords (UInt64.ofNat (numberOf (bytes.take 8)))
    (UInt64.ofNat (numberOf ((bytes.drop 8).take 8)))
    (UInt64.ofNat (numberOf ((bytes.drop 16).take 8)))
    (UInt64.ofNat (numberOf ((bytes.drop 24).take 8)))

namespace Simulation

/-- The 32 bytes of the master stream behind those of so many rolls. -/
def chunk (master : ChaCha) (i : Nat) : List UInt8 :=
  (List.range 32).map fun j => master.byteAt (32 * i + j)

/-- Eight bytes of the stream are a word. -/
theorem word_of_bytes (s : ChaCha) (n : Nat) :
    UInt64.ofNat (numberOf ((List.range 8).map fun b => s.byteAt (8 * n + b))) = s.wordAt n := by
  have hbytes : ((List.range 8).map fun b => s.byteAt (8 * n + b)) =
      (List.range 8).map fun b => UInt8.ofNat ((s.wordAt n).toNat / 256 ^ b) := by
    refine List.map_congr_left fun b hb => ?_
    have hb := List.mem_range.mp hb
    rw [ChaCha.byteAt, show (8 * n + b) / 8 = n by omega, show (8 * n + b) % 8 = b by omega]
  rw [hbytes, numberOf_digits (s.wordAt n).toNat_lt, UInt64.ofNat_toNat]

theorem ofBytes_chunk (master : ChaCha) (i : Nat) : Xoshiro.ofBytes (chunk master i) =
    .ofWords (master.wordAt (4 * i)) (master.wordAt (4 * i + 1)) (master.wordAt (4 * i + 2))
      (master.wordAt (4 * i + 3)) := by
  have hword : ∀ j, UInt64.ofNat (numberOf ((List.range 8).map fun b =>
      master.byteAt (32 * i + (8 * j + b)))) = master.wordAt (4 * i + j) := by
    intro j
    rw [← word_of_bytes]
    simp only [show ∀ b, 32 * i + (8 * j + b) = 8 * (4 * i + j) + b by omega]
  rw [← hword 1, ← hword 2, ← hword 3, show 4 * i = 4 * i + 0 from rfl, ← hword 0]
  rfl

/-- Every roll moves the master stream on by four words. -/
theorem behind_iterate (master : ChaCha) (i : Nat) :
    behind^[i] master = ChaCha.advance^[4 * i] master := by
  rw [Function.iterate_mul]
  rfl

/-- The generator of a roll is seeded with its own bytes of the master stream. -/
theorem generator_iterate (master : ChaCha) (i : Nat) :
    generator (behind^[i] master) = Xoshiro.ofBytes (chunk master i) := by
  rw [ofBytes_chunk, behind_iterate]
  simp only [← ChaCha.word_advance, Function.iterate_succ_apply']
  rfl

/-! ## Rolls -/

/-- The result of a roll by itself: its own bytes seed a generator for it. -/
def rollAt (e : Expression) (master : ChaCha) (i : Nat) : Except Fault Int :=
  (e.roll.run (Xoshiro.ofBytes (chunk master i))).1

theorem totalOf_iterate (e : Expression) (master : ChaCha) (i : Nat) :
    totalOf e (behind^[i] master) = rollAt e master i := by
  rw [totalOf, generator_iterate, rollAt]

section Totals

variable {e : Expression} {master left : ChaCha}

/-- The totals behind some others are those of a simulation of their own. -/
theorem totalsOnto_eq {count : Nat} : ∀ (done : List Int) (master : ChaCha),
    totalsOnto e count done master =
      ((totals e count master).1.map (done.reverse ++ ·), (totals e count master).2) := by
  induction count with
  | zero =>
    intro done master
    show (Except.ok done.reverse, master) = (Except.ok (done.reverse ++ []), master)
    rw [List.append_nil]
  | succ count ih =>
    intro done master
    simp only [totals, totalsOnto]
    cases totalOf e master with
    | error f => rfl
    | ok t =>
      simp only [ih (t :: done), ih [t]]
      cases (totals e count (behind master)).1 <;> simp [Except.map]

theorem totals_of_ok {t : Int} (h : totalOf e master = .ok t) (count : Nat) :
    totals e (count + 1) master = ((totals e count (behind master)).1.map (t :: ·),
      (totals e count (behind master)).2) := by
  rw [totals, totalsOnto, h]
  exact totalsOnto_eq [t] (behind master)

theorem totals_of_error {f : Fault} (h : totalOf e master = .error f) (count : Nat) :
    totals e (count + 1) master = (.error f, behind master) := by
  rw [totals, totalsOnto, h]

/-- A first roll and the others. -/
theorem totals_succ_eq_ok_iff {count : Nat} {ts : List Int} :
    totals e (count + 1) master = (.ok ts, left) ↔ ∃ t ts', totalOf e master = .ok t ∧
      totals e count (behind master) = (.ok ts', left) ∧ ts = t :: ts' := by
  cases ht : totalOf e master with
  | error f =>
    rw [totals_of_error ht]
    exact ⟨nofun, nofun⟩
  | ok t =>
    rw [totals_of_ok ht]
    generalize totals e count (behind master) = rest
    obtain ⟨_ | ts', left'⟩ := rest
    · exact ⟨nofun, nofun⟩
    · constructor
      · intro h
        cases h
        exact ⟨t, ts', rfl, rfl, rfl⟩
      · intro h
        obtain ⟨_, _, heq, hrest, rfl⟩ := h
        cases heq
        cases hrest
        rfl

theorem totals_succ_eq_error_iff {count : Nat} {f : Fault} :
    totals e (count + 1) master = (.error f, left) ↔
      (totalOf e master = .error f ∧ behind master = left) ∨
      ∃ t, totalOf e master = .ok t ∧ totals e count (behind master) = (.error f, left) := by
  cases ht : totalOf e master with
  | error f' =>
    rw [totals_of_error ht, Prod.mk.injEq]
    simp
  | ok t =>
    rw [totals_of_ok ht]
    generalize totals e count (behind master) = rest
    obtain ⟨_ | ts', left'⟩ := rest <;> simp [Except.map]

/-- The others are rolled from the master stream that the first ones leave. -/
theorem totals_add {a : Nat} (b : Nat) : ∀ {master : ChaCha} {ts : List Int},
    totals e a master = (.ok ts, left) →
    totals e (a + b) master = ((totals e b left).1.map (ts ++ ·), (totals e b left).2) := by
  induction a with
  | zero =>
    intro master ts h
    cases h
    rw [Nat.zero_add]
    exact totalsOnto_eq [] _
  | succ a ih =>
    intro master ts h
    obtain ⟨t, ts', ht, hrest, rfl⟩ := totals_succ_eq_ok_iff.mp h
    rw [Nat.add_right_comm, totals_of_ok ht, ih hrest]
    cases (totals e b left).1 <;> rfl

/-- A fault of the first rolls ends the simulation. -/
theorem totals_add_of_error {a : Nat} (b : Nat) {f : Fault} : ∀ {master : ChaCha},
    totals e a master = (.error f, left) → totals e (a + b) master = (.error f, left) := by
  induction a with
  | zero => exact fun h => nomatch h
  | succ a ih =>
    intro master h
    rw [Nat.add_right_comm]
    refine totals_succ_eq_error_iff.mpr ((totals_succ_eq_error_iff.mp h).imp_right fun hrest => ?_)
    obtain ⟨t, ht, hrest⟩ := hrest
    exact ⟨t, ht, ih hrest⟩

/-- Every total is that of its own generator. -/
theorem totals_eq_ok {count : Nat} : ∀ {master : ChaCha} {ts : List Int},
    totals e count master = (.ok ts, left) → left = behind^[count] master ∧ ts.length = count ∧
      ∀ i t, ts[i]? = some t → totalOf e (behind^[i] master) = .ok t := by
  induction count with
  | zero =>
    intro master ts h
    cases h
    exact ⟨rfl, rfl, nofun⟩
  | succ count ih =>
    intro master ts h
    obtain ⟨t, ts', ht, hrest, rfl⟩ := totals_succ_eq_ok_iff.mp h
    obtain ⟨hleft, hlength, hts⟩ := ih hrest
    refine ⟨hleft, congrArg (· + 1) hlength, fun i t' hi => ?_⟩
    cases i with
    | zero =>
      cases hi
      exact ht
    | succ i => exact hts i t' hi

theorem exists_totals_iff {count : Nat} : ∀ {master : ChaCha},
    (∃ ts left, totals e count master = (.ok ts, left)) ↔
      ∀ i < count, ∃ t, totalOf e (behind^[i] master) = .ok t := by
  induction count with
  | zero => exact fun {master} => ⟨fun _ => nofun, fun _ => ⟨[], master, rfl⟩⟩
  | succ count ih =>
    intro master
    simp only [Nat.forall_lt_succ_left, Function.iterate_succ_apply, Function.iterate_zero_apply,
      ← ih, totals_succ_eq_ok_iff]
    constructor
    · intro h
      obtain ⟨_, left, t, ts, ht, hrest, -⟩ := h
      exact ⟨⟨t, ht⟩, ts, left, hrest⟩
    · intro h
      obtain ⟨⟨t, ht⟩, ts, left, hrest⟩ := h
      exact ⟨t :: ts, left, t, ts, ht, hrest, rfl⟩

end Totals

/-- What the rolls of an expression have to do with each other and with those of others. -/
structure Independent (e : Expression) (master : ChaCha) : Prop where
  /-- There are totals where every roll by itself has one. -/
  ends_iff : ∀ count, (∃ ts left, totals e count master = (.ok ts, left)) ↔
    ∀ i < count, ∃ t, rollAt e master i = .ok t
  /-- Each total is that of the generator which its own bytes seed, and four words for each roll are
  gone, whatever is rolled. -/
  rolls : ∀ count ts left, totals e count master = (.ok ts, left) →
    left = ChaCha.advance^[4 * count] master ∧ ts.length = count ∧
      ∀ i t, ts[i]? = some t → rollAt e master i = .ok t
  more : ∀ a b ts left, totals e a master = (.ok ts, left) →
    totals e (a + b) master = ((totals e b left).1.map (ts ++ ·), (totals e b left).2)
  stopped : ∀ a b f left, totals e a master = (.error f, left) →
    totals e (a + b) master = (.error f, left)
  /-- Another expression leaves the same master stream. -/
  left_eq : ∀ e' count ts ts' left left', totals e count master = (.ok ts, left) →
    totals e' count master = (.ok ts', left') → left' = left

/-- Simulated rolls depend neither on each other nor on how many there are, and which generators
they meet does not depend on the expression. -/
theorem rolls_independent (e : Expression) (master : ChaCha) : Independent e master where
  ends_iff count := by
    simp only [← totalOf_iterate]
    exact exists_totals_iff
  rolls count ts left h := by
    simp only [← totalOf_iterate, ← behind_iterate]
    exact totals_eq_ok h
  more a b ts left h := totals_add b h
  stopped a b f left h := totals_add_of_error b h
  left_eq e' count ts ts' left left' h h' := by
    rw [(totals_eq_ok h).1, (totals_eq_ok h').1]

end Simulation

end DiceEngine
