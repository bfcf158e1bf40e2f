import DiceEngine.Main
import DiceEngine.Exchange
import DiceEngine.Random.Xoshiro
import DiceEngine.Simulation.ArrayFile
import DiceEngine.Proofs.Expectation
import DiceEngine.Proofs.Attained
import DiceEngine.Proofs.Modes
import DiceEngine.Proofs.Canonical
import DiceEngine.Proofs.Edit
import DiceEngine.Proofs.Magnitude
import DiceEngine.Proofs.Supply
import DiceEngine.Proofs.Safety
import DiceEngine.Proofs.Simulated
import DiceEngine.Proofs.CommandLine
import DiceEngine.Proofs.Sessions
import DiceEngine.Proofs.Counted
import DiceEngine.Proofs.Split
import DiceEngine.Proofs.Overflow
import DiceEngine.Proofs.Guarded
import DiceEngine.Proofs.Opposite
import DiceEngine.Proofs.Between
import DiceEngine.Proofs.Spread
import DiceEngine.Proofs.Cost
import DiceEngine.Proofs.Told
import DiceEngine.Proofs.Capped
import DiceEngine.Proofs.ReadBack
import DiceEngine.Proofs.Joined
import DiceEngine.Proofs.SingleGroup
import DiceEngine.Proofs.Distinct
import DiceEngine.Proofs.Classified
import DiceEngine.Proofs.Configured
import DiceEngine.Proofs.ByteOrder
import DiceEngine.Proofs.Exchanged
import DiceEngine.Proofs.Independent
import DiceEngine.Proofs.Masses
import DiceEngine.Proofs.Raised
