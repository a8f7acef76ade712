import VatTerminal.Screen.Update
import VatTerminal.Coordinate.Writer

/-! # Terminal sessions

The state of a terminal next to its screen: the cursor, which may rest one
past the last column, the saved place, the window, the modes, the bug and the
mouse. A session never holds a screen; it is handed the extents of one.
-/

namespace VatTerminal

structure Mouse where
  mask : UInt8 := 0
  /-- Where the last press that counted happened. -/
  pressPoint : Option Point := none
  pointer : Option Point := none
  /-- A button of the gesture has been released. -/
  releasing : Bool := false
  keyWithButton : Bool := false
  deriving DecidableEq

/-- The rows between which the host types, both included. -/
structure Window where
  top : Nat
  bottom : Nat
  deriving DecidableEq

structure Session where
  cursor : Place := {}
  saved : Place := {}
  window : Window
  positioned : Bool := false
  reverse : Bool := false
  coordinates : Bool := false
  bug : Option Place := none
  mouse : Mouse := {}
  escapeWide : Bool := false
  deriving DecidableEq

namespace Session

def fullWindow (size : Size) : Window := { top := 0, bottom := size.lastRow }

def initial (size : Size) (escapeWide : Bool) : Session :=
  { window := fullWindow size, escapeWide }

/-- Every field as it was at first, apart from the form of large numbers. -/
def resetEmulation (s : Session) (size : Size) : Session := initial size s.escapeWide

def writer (s : Session) (size : Size) : Coordinate.Writer :=
  { rows := size.rows, escapeWide := s.escapeWide }

def columnIndex (size : Size) (x : Int) : Nat := min x.toNat size.lastColumn

def rowIndex (size : Size) (y : Int) : Nat :=
  min (Coordinate.flipRow size.rows y).toNat size.lastRow

def placeOf (size : Size) (x y : Int) : Place :=
  { col := columnIndex size x, row := rowIndex size y }

end Session

end VatTerminal
