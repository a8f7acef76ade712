import VatTerminal.Session.Basic
import VatTerminal.Instruction.Basic

/-! # What an instruction does

To the session, to the screen, and to the host. An instruction updates the
screen at most once, and what it does to the session does not depend on
whether the update succeeds.
-/

namespace VatTerminal

structure Effect where
  update : Option Screen.Update := none
  reply : List UInt8 := []
  deriving DecidableEq

namespace Session

def setColumn (s : Session) (col : Nat) : Session := { s with cursor := { s.cursor with col } }

/-- One column on, at most to the margin past the last. -/
def advance (s : Session) (size : Size) : Session :=
  s.setColumn (min (s.cursor.col + 1) size.columns)

/-- One row down. Below the last row the screen moves up instead. -/
def lineDown (s : Session) (size : Size) : Session × Effect :=
  if s.cursor.row + 1 < size.rows then
    ({ s with cursor := { s.cursor with row := s.cursor.row + 1 } }, {})
  else
    ({ s with cursor := { s.cursor with row := size.lastRow } },
      { update := some (.scrollUp ⟨0, 0, size.lastRow, size.lastColumn⟩ 1) })

/-- The extents of the screen, as the host is told them. -/
def interrogation (s : Session) (size : Size) : List UInt8 :=
  let w := s.writer size
  [28, 38] ++ w.putX (Coordinate.ofExtent size.lastColumn) ++
    w.putX (Coordinate.ofExtent size.lastRow) ++ [38, 32, 33]

/-- The columns from the cursor to the end of its row that blanks are asked for. -/
def blankCount (s : Session) (size : Size) (count : Int) : Nat :=
  min count.toNat (size.columns - s.cursor.col)

def scrollRegion (size : Size) (left right top bottom : Int) : Region :=
  let l := columnIndex size left
  let r := columnIndex size right
  let t := rowIndex size top
  let b := rowIndex size bottom
  { top := min t b, left := min l r, bottom := max t b, right := max l r }

/-- A negative count moves the region down, a positive one up, and 0 not at all. -/
def scrollUpdate (region : Region) (lines : Int) : Option Screen.Update :=
  if lines < 0 then some (.scrollDown region lines.natAbs)
  else if 0 < lines then some (.scrollUp region lines.natAbs)
  else none

def apply (s : Session) (size : Size) : Instruction → Session × Effect
  | .print b =>
    if s.cursor.col < size.columns then
      (s.setColumn (s.cursor.col + 1),
        { update := some (.putChar s.cursor.row s.cursor.col (Char.ofUInt8 b) s.reverse) })
    else (s, {})
  | .bell => (s, { update := some .bell })
  | .backspace => (s.setColumn (s.cursor.col - 1), {})
  | .lineFeed => if s.positioned then (s.advance size, {}) else s.lineDown size
  | .carriageReturn => (if s.positioned then s.advance size else s.setColumn 0, {})
  | .position x y =>
    ({ s with saved := s.cursor, cursor := placeOf size x y, positioned := true }, {})
  | .setWindow top bottom =>
    let t := rowIndex size top
    let b := rowIndex size bottom
    ({ s with window := ⟨min t b, max t b⟩, saved := { col := 0, row := min t b } }, {})
  | .resumeWindow => (if s.positioned then { s with cursor := s.saved } else s, {})
  | .writeBlanks count =>
    let n := s.blankCount size count
    (s, { update :=
            if 0 < n then
              some (.putString s.cursor.row s.cursor.col (List.replicate n ' ') s.reverse)
            else none })
  | .deleteLine => (s, { update := some (.eraseLine s.cursor.row) })
  | .insertLine => (s, { update := some (.insertLine s.cursor.row) })
  | .setBug x y =>
    let p := placeOf size x y
    ({ s with bug := some p }, { update := some (.highlight p.row p.col) })
  | .popBug => ({ s with bug := none }, { update := s.bug.map fun p => .highlight p.row p.col })
  | .clear => (s, { update := some .clear })
  | .reset =>
    ({ s with window := fullWindow size, saved := {}, positioned := false },
      { update := some .clear })
  | .interrogate => (s, { reply := s.interrogation size })
  | .standoutOn => ({ s with reverse := true }, {})
  | .standoutOff => ({ s with reverse := false }, {})
  | .coordinatesOff => ({ s with coordinates := false }, {})
  | .coordinatesOn => ({ s with coordinates := true }, {})
  | .scroll left right top bottom lines =>
    (s, { update := scrollUpdate (scrollRegion size left right top bottom) lines })
  | .graphics _ | .closePrinter | .printerCommand _ | .unknown _ => (s, {})

end Session

end VatTerminal
