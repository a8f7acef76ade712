import VatTerminal.Coordinate.Basic

/-! # Writing numbers

`writeX` writes what the reader reads. `sendX` writes large numbers as two
digits without the lead, a form that some hosts depend on and that the reader
does not understand. A `Writer` is bound to one of the forms and to a height.
-/

namespace VatTerminal.Coordinate

def writeX (x : Int) : List UInt8 :=
  if isShort x then [digitByte x]
  else [escapeLead, digitByte (x / 64 % 64), digitByte (x % 64)]

def writeY (rows : Nat) (y : Int) : List UInt8 := writeX (flipRow rows y)

def sendX (x : Int) : List UInt8 :=
  if isShort x then [digitByte x] else [digitByte (x / 64), digitByte x]

def sendY (rows : Nat) (y : Int) : List UInt8 := sendX (flipRow rows y)

structure Writer where
  rows : Nat
  escapeWide : Bool
  deriving DecidableEq

namespace Writer

def putX (w : Writer) (x : Int) : List UInt8 := if w.escapeWide then writeX x else sendX x

/-- A row counted from the top. -/
def putY (w : Writer) (y : Int) : List UInt8 := w.putX (flipRow w.rows y)

end Writer

end VatTerminal.Coordinate
