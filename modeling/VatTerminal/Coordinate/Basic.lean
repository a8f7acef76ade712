/-! # Numbers on the wire

A number from 0 to 92 is one byte, offset by 32. A larger one is introduced by
30 and follows as two digits of six bits, each offset by 32. Rows are counted
from the bottom line on the wire and from the top line everywhere else.
-/

namespace VatTerminal.Coordinate

def zero : UInt8 := 32

/-- Introduces the form of two digits. -/
def escapeLead : UInt8 := 30

/-- The smallest number that does not fit the form of one byte. -/
def singleByteLimit : Int := 93

def maxCoordinate : Nat := 2147483647

/-- An extent as a coordinate; one beyond the range of coordinates counts as the largest. -/
def ofExtent (n : Nat) : Int := (min n maxCoordinate : Nat)

/-- From a row counted from the bottom to one counted from the top, and back. -/
def flipRow (rows : Nat) (row : Int) : Int := ofExtent rows - row - 1

/-- A byte as a digit, before it is cut to six bits. -/
def digitOf (b : UInt8) : Int := (b.toNat : Int) - 32

/-- A number as a digit byte: the low eight bits of the number offset by 32. -/
def digitByte (x : Int) : UInt8 := UInt8.ofInt (x + 32)

/-- The number of two digits, each cut to six bits. -/
def join (high low : Int) : Int := high % 64 * 64 + low % 64

def isShort (x : Int) : Bool := decide (0 ≤ x) && decide (x < singleByteLimit)

theorem join_nonneg (h l : Int) : 0 ≤ join h l := by unfold join; omega

theorem join_lt (h l : Int) : join h l < 4096 := by unfold join; omega

end VatTerminal.Coordinate
