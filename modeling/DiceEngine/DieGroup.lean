import DiceEngine.Fault

/-!
# Die groups

A die group throws some dice of one kind and adds up the faces it keeps: all of them, or the
lowest or the highest few. Its limits are part of its type, and `create` is the one way to make a
group of numbers that are not known to respect them.

* `kept` shows which of the faces thrown are kept, in the order of the throw;
* `keptSum` is the value of a throw.
-/

namespace DiceEngine

/-- Which end of the sorted faces is kept. -/
inductive Selector where
  | lowest
  | highest
  deriving DecidableEq, Repr

namespace Selector

/-- The character that selects the end in an expression. -/
def symbol : Selector → Char
  | lowest => 'v'
  | highest => '^'

/-- The name of the end in a transcript. -/
def name : Selector → String
  | lowest => "Lowest"
  | highest => "Highest"

end Selector

/-- Keep only `count` dice, from one end of the sorted faces. -/
structure Keep where
  selector : Selector
  count : Nat
  deriving DecidableEq, Repr

/-- At most 99 dice with the same number of sides, at most 100, of which all or a few are kept. -/
structure DieGroup where
  quantity : Nat
  sides : Nat
  keep : Option Keep
  quantity_pos : 1 ≤ quantity
  quantity_le : quantity ≤ 99
  sides_pos : 1 ≤ sides
  sides_le : sides ≤ 100
  count_le : ∀ k ∈ keep, k.count ≤ quantity
  deriving DecidableEq, Repr

namespace DieGroup

/-- The group of these numbers. A count of kept dice beyond the quantity means all dice; any other
number out of its limits is a fault, the quantity being looked at first. -/
def create (quantity sides : Nat) (keep : Option Keep) : Except Fault DieGroup :=
  if hq : quantity = 0 then .error .noDice
  else if hq' : 99 < quantity then .error (.tooManyDice quantity)
  else if hs : sides = 0 then .error .noSides
  else if hs' : 100 < sides then .error (.tooManySides sides)
  else .ok {
    quantity, sides
    keep := keep.map fun k => { k with count := min k.count quantity }
    quantity_pos := by omega
    quantity_le := by omega
    sides_pos := by omega
    sides_le := by omega
    count_le := by
      intro k hk
      obtain ⟨k', _, rfl⟩ := Option.map_eq_some_iff.1 hk
      exact Nat.min_le_right _ _ }

/-- How many dice count for the value. -/
def keepCount (g : DieGroup) : Nat :=
  match g.keep with
  | some k => k.count
  | none => g.quantity

/-- The least value of a throw: every kept die shows one. -/
def low (g : DieGroup) : Int := g.keepCount

/-- The greatest value of a throw: every kept die shows its last face. -/
def high (g : DieGroup) : Int := g.keepCount * g.sides

/-- From which place up to which the faces of a throw, sorted, are kept. -/
def keptRange (g : DieGroup) : Nat × Nat :=
  match g.keep with
  | some ⟨.lowest, count⟩ => (0, count)
  | some ⟨.highest, count⟩ => (g.quantity - count, g.quantity)
  | none => (0, g.quantity)

/-- The value of a throw. -/
def keptSum (g : DieGroup) (faces : List Int) : Int :=
  ((faces.mergeSort (· ≤ ·)).extract g.keptRange.1 g.keptRange.2).foldl (· + ·) 0

/-- The faces that the group keeps of any number of faces, in their given order. Of equal faces
the earlier one counts as the lower. -/
def kept (g : DieGroup) (faces : List Int) : List Int :=
  let ranked := faces.zipIdx.mergeSort fun a b => a.1 ≤ b.1
  let chosen := match g.keep with
    | some ⟨.lowest, count⟩ => ranked.take count
    | some ⟨.highest, count⟩ => ranked.drop (ranked.length - count)
    | none => ranked
  (chosen.mergeSort fun a b => a.2 ≤ b.2).map (·.1)

/-- The text of a group, as an expression holds it. -/
def text (g : DieGroup) : String :=
  toString g.quantity ++ "d" ++ toString g.sides ++
    match g.keep with
    | some k => k.selector.symbol.toString ++ toString k.count
    | none => ""

end DieGroup

end DiceEngine
