import VatTerminal.Text.WhiteSpace

/-! # Screens

A fixed grid of cells, read by row and column. The pixels of a cell give the
cell under a point of the surface.
-/

namespace VatTerminal

structure Size where
  columns : Nat
  rows : Nat
  deriving DecidableEq

namespace Size

def lastColumn (s : Size) : Nat := s.columns - 1
def lastRow (s : Size) : Nat := s.rows - 1

end Size

structure Place where
  col : Nat := 0
  row : Nat := 0
  deriving DecidableEq

/-- A point of the surface in pixels. -/
structure Point where
  x : Int := 0
  y : Int := 0
  deriving DecidableEq

structure Cell where
  char : Char := ' '
  reversed : Bool := false
  highlighted : Bool := false
  deriving DecidableEq

/-- A rectangle of the grid, its borders included. -/
structure Region where
  top : Nat
  left : Nat
  bottom : Nat
  right : Nat
  deriving DecidableEq

/-- A place that was asked for and is not on the screen. -/
structure OutOfBounds where
  row : Nat
  col : Nat
  deriving DecidableEq

def OutOfBounds.message (e : OutOfBounds) : String :=
  "Bad location: row " ++ toString e.row ++ " column " ++ toString e.col

structure Screen where
  size : Size
  cellWidth : Int := 1
  cellHeight : Int := 1
  grid : List (List Cell)
  bells : Nat := 0
  deriving DecidableEq

namespace Screen

abbrev Line := List Cell

def blankLine (columns : Nat) : Line := List.replicate columns {}

def blank (size : Size) : Screen :=
  { size, grid := List.replicate size.rows (blankLine size.columns) }

def defaultSize : Size := { columns := 80, rows := 24 }

/-- A cell has at least one pixel each way. -/
def withCellSize (s : Screen) (width height : Int) : Screen :=
  { s with cellWidth := max width 1, cellHeight := max height 1 }

def cell? (s : Screen) (row col : Nat) : Option Cell := (s.grid[row]?).bind (·[col]?)

def rowChars (line : Line) : List Char := line.map (·.char)

/-- The characters of one row, trailing blanks included. -/
def rowText? (s : Screen) (row : Nat) : Option String :=
  s.grid[row]?.map fun line => String.ofList (rowChars line)

/-- The rows, each without the white space it ends in. -/
def lines (s : Screen) : List String :=
  s.grid.map fun line => String.ofList (Text.trimEnd (rowChars line))

/-- An index of pixels as one of cells, cut to the given extent. -/
def pixelIndex (pixel cell : Int) (extent : Nat) : Nat :=
  min (pixel.tdiv cell).toNat (extent - 1)

/-- The place under a point; a point off the surface counts as the nearest place. -/
def placeAt (s : Screen) (p : Point) : Place :=
  { col := pixelIndex p.x s.cellWidth s.size.columns
    row := pixelIndex p.y s.cellHeight s.size.rows }

def check (s : Screen) (row col : Nat) : Except OutOfBounds Unit :=
  if row < s.size.rows ∧ col < s.size.columns then .ok () else .error { row, col }

/-- Both corners have to be on the screen, and the region must not be inverted. -/
def checkRegion (s : Screen) (r : Region) : Except OutOfBounds Unit := do
  s.check r.top r.left
  s.check r.bottom r.right
  if r.bottom < r.top ∨ r.right < r.left then .error { row := r.bottom, col := r.right }

end Screen

end VatTerminal
