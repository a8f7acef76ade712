import VatTerminal.Screen.Basic

/-! # Updates of a screen

Everything that can be done to a screen, as a value and as a function. An
update that fails leaves the screen as it was.
-/

namespace VatTerminal.Screen

/-- Show a character in a cell. The highlight stays. -/
def write (reversed : Bool) (cell : Cell) (c : Char) : Cell :=
  { cell with char := c, reversed }

def setChar (s : Screen) (row col : Nat) (c : Char) (reversed : Bool) : Screen :=
  { s with grid := s.grid.modify row fun line => line.modify col fun cell => write reversed cell c }

/-- Put characters over the cells of a line from `col` on, up to the end of the line. -/
def overwrite (reversed : Bool) (col : Nat) (text : List Char) (line : Line) : Line :=
  line.take col ++ List.zipWith (write reversed) (line.drop col) text ++
    line.drop (col + text.length)

def setString (s : Screen) (row col : Nat) (text : List Char) (reversed : Bool) : Screen :=
  { s with grid := s.grid.modify row (overwrite reversed col text) }

def clear (s : Screen) : Screen :=
  { s with grid := s.grid.map fun line => line.map fun _ => {} }

def blankRow (s : Screen) (row : Nat) : Screen :=
  { s with grid := s.grid.modify row fun line => line.map fun _ => {} }

/-- Push a blank row in; the last row is lost. -/
def pushRow (s : Screen) (row : Nat) : Screen :=
  { s with grid := (s.grid.dropLast).insertIdx row (blankLine s.size.columns) }

/-- Put the cells of `source` from `left` to `right` over those of `line`. -/
def splice (left right : Nat) (line source : Line) : Line :=
  line.take left ++ (source.take (right + 1)).drop left ++ line.drop (right + 1)

/-- Give every row of the region its cells from the row that `origin` names, or blank ones. -/
def moveRows (s : Screen) (r : Region) (origin : Nat → Option Nat) : Screen :=
  { s with
    grid := s.grid.mapIdx fun row line =>
      if r.top ≤ row ∧ row ≤ r.bottom then
        splice r.left r.right line
          (((origin row).bind fun o => s.grid[o]?).getD (blankLine s.size.columns))
      else line }

def originUp (r : Region) (count row : Nat) : Option Nat :=
  if row + count ≤ r.bottom then some (row + count) else none

def originDown (r : Region) (count row : Nat) : Option Nat :=
  if r.top + count ≤ row then some (row - count) else none

def toggleHighlight (s : Screen) (row col : Nat) : Screen :=
  { s with
    grid := s.grid.modify row fun line =>
      line.modify col fun cell => { cell with highlighted := !cell.highlighted } }

def ring (s : Screen) : Screen := { s with bells := s.bells + 1 }

inductive Update where
  | putChar (row col : Nat) (c : Char) (reversed : Bool)
  | putString (row col : Nat) (text : List Char) (reversed : Bool)
  | clear
  | eraseLine (row : Nat)
  | insertLine (row : Nat)
  | scrollUp (region : Region) (count : Nat)
  | scrollDown (region : Region) (count : Nat)
  | highlight (row col : Nat)
  | bell
  deriving DecidableEq

def perform (s : Screen) : Update → Except OutOfBounds Screen
  | .putChar row col c reversed => do
    s.check row col
    return s.setChar row col c reversed
  | .putString row col text reversed => do
    s.check row col
    return s.setString row col text reversed
  | .clear => return s.clear
  | .eraseLine row => do
    s.check row 0
    return s.blankRow row
  | .insertLine row => do
    s.check row 0
    return s.pushRow row
  | .scrollUp region count => do
    s.checkRegion region
    return s.moveRows region (originUp region count)
  | .scrollDown region count => do
    s.checkRegion region
    return s.moveRows region (originDown region count)
  | .highlight row col => do
    s.check row col
    return s.toggleHighlight row col
  | .bell => return s.ring

end VatTerminal.Screen
