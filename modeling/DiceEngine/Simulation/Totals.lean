import DiceEngine.Expression.Roll
import DiceEngine.Random.ChaCha
import DiceEngine.Random.Xoshiro

/-!
# Simulated totals

Many rolls of one expression. Each roll has a generator of its own, seeded with the next four words
of a master stream, so that no roll changes what another one meets.
-/

namespace DiceEngine.Simulation

/-- The generator that the next four words of the master stream seed. -/
def generator (master : ChaCha) : Xoshiro :=
  .ofWords master.word master.advance.word master.advance.advance.word
    master.advance.advance.advance.word

/-- The master stream behind the seed of one generator. -/
def behind (master : ChaCha) : ChaCha := master.advance.advance.advance.advance

/-- The total of one roll with the next generator. -/
def totalOf (e : Expression) (master : ChaCha) : Except Fault Int :=
  (e.roll.run (generator master)).1

/-- The totals of `count` more rolls behind those that are `done`, the last of them first, and the
master stream that is left. A fault of a roll ends the simulation. -/
def totalsOnto (e : Expression) : (count : Nat) → (done : List Int) → (master : ChaCha) →
    Except Fault (List Int) × ChaCha
  | 0, done, master => (.ok done.reverse, master)
  | count + 1, done, master =>
    match totalOf e master with
    | .ok total => totalsOnto e count (total :: done) (behind master)
    | .error f => (.error f, behind master)

/-- The totals of some rolls, and the master stream that is left. -/
def totals (e : Expression) (count : Nat) (master : ChaCha) :
    Except Fault (List Int) × ChaCha :=
  totalsOnto e count [] master

end DiceEngine.Simulation
