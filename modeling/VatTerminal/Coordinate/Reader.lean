import VatTerminal.Coordinate.Basic

/-! # Reading numbers

A number is read a byte at a time, so that one split across deliveries is
picked up where it stopped. `read` reads a whole number off the front of some
bytes; `readX`, `readY` and `readXY` name what the number stands for.
-/

namespace VatTerminal.Coordinate

inductive Reader where
  | start
  | high
  | low (high : Int)
  deriving DecidableEq

namespace Reader

def push : Reader → UInt8 → Reader × Option Int
  | start, b => if b = escapeLead then (high, none) else (start, some (digitOf b))
  | high, b => (low (digitOf b), none)
  | low h, b => (start, some (join h (digitOf b)))

def isPending : Reader → Bool
  | start => false
  | high | low _ => true

/-- Push bytes until a number is complete, and give back what follows it. -/
def read (r : Reader) : List UInt8 → Option Int × List UInt8
  | [] => (none, [])
  | b :: bs =>
    match r.push b with
    | (_, some x) => (some x, bs)
    | (r, none) => r.read bs

end Reader

/-- A column or a count, or nothing where the bytes end first. -/
def readX (bytes : List UInt8) : Option Int × List UInt8 := Reader.start.read bytes

def readY (rows : Nat) (bytes : List UInt8) : Option Int × List UInt8 :=
  let (y, rest) := readX bytes
  (y.map (flipRow rows), rest)

def readXY (rows : Nat) (bytes : List UInt8) : Option (Int × Int) × List UInt8 :=
  match readX bytes with
  | (none, rest) => (none, rest)
  | (some x, rest) =>
    let (y, rest) := readY rows rest
    (y.map (x, ·), rest)

end VatTerminal.Coordinate
