/-!
# Files of numbers

The file that a histogram is written to: one dimension of signed numbers of 64 bits, low byte first,
behind the header of the NPY format.
-/

namespace DiceEngine.Simulation.ArrayFile

/-- What stands in front of the description of an array: the name and the version of the format. -/
def magic : List UInt8 := [0x93, 0x4e, 0x55, 0x4d, 0x50, 0x59, 1, 0]

/-- The bytes of a number, the low one first. -/
def littleEndian (width : Nat) (n : Int) : List UInt8 :=
  (List.range width).map fun i => (n / Nat.pow 256 i % 256).toNat.toUInt8

/-- The description of an array of so many numbers. Blanks and a newline make the header a multiple
of 64 bytes long. -/
def description (count : Nat) : String :=
  let text := "\x7b'descr': '<i8', 'fortran_order': False, 'shape': (" ++ toString count ++ ",), \x7d"
  let length := magic.length + 2 + text.length + 1
  text.pushn ' ' ((64 - length % 64) % 64) ++ "\n"

/-- The content of the file. -/
def bytes (numbers : Array Int) : ByteArray :=
  let text := description numbers.size
  let header := ByteArray.mk (magic ++ littleEndian 2 text.length).toArray ++ text.toUTF8
  numbers.foldl (fun bytes n => bytes ++ ByteArray.mk (littleEndian 8 n).toArray) header

end DiceEngine.Simulation.ArrayFile
