import VatTerminal.Session.Basic
import VatTerminal.Keyset.Charmap
import VatTerminal.Text.Alphabetic

/-! # Keys and the mouse

What the host is told of a typed character and of a gesture with the mouse. A
gesture lasts from the first press to the moment every button is up. Its first
release reports it, where the host has asked for reports, and a key typed
during it is changed by the buttons held.
-/

namespace VatTerminal

inductive Button where
  | left | middle | right
  deriving DecidableEq

def Button.bit : Button → UInt8
  | left => 4
  | middle => 2
  | right => 1

namespace Session

def reportLead : UInt8 := 28
def buttonReport : UInt8 := 34
def chordReport : UInt8 := 35
/-- Added to the mask in the report of a key under a chord of buttons. -/
def chordBase : UInt8 := 64
def enterTerminator : UInt8 := 4

def gestureCodes : List UInt8 := [0, 4, 24, 2, 1, 27, 23, 0]

def gestureCode (mask : UInt8) : UInt8 := gestureCodes.getD mask.toNat 0

def lowByte (c : Char) : UInt8 := UInt8.ofNat c.toNat

/-- The place under a point, as the host is told it. -/
def pointReport (s : Session) (screen : Screen) (p : Point) : List UInt8 :=
  let place := screen.placeAt p
  let w := s.writer screen.size
  w.putX (Coordinate.ofExtent place.col) ++ w.putY (Coordinate.ofExtent place.row)

/-- A character typed while the buttons of the mask are held at a point. -/
def chordedKey (s : Session) (screen : Screen) (mask : UInt8) (p : Point) (c : Char) : List UInt8 :=
  if mask = 2 then [lowByte (Keyset.shiftUpper c)]
  else if mask = 3 then [if Text.isAlphabetic c then lowByte c &&& 31 else lowByte c]
  else if mask = 4 then [lowByte (Keyset.shiftSymbol c)]
  else if mask = 6 ∨ mask = 7 then
    [reportLead, chordReport, chordBase + mask] ++ s.pointReport screen p ++ [lowByte c]
  else []

/-- An Enter while reports are asked for. It reports the pointer, or the first place where the
pointer is unknown. -/
def enterReport (s : Session) (screen : Screen) : List UInt8 :=
  let w := s.writer screen.size
  let place :=
    match s.mouse.pointer with
    | some p => s.pointReport screen p
    | none => w.putX 0 ++ w.putY 0
  [reportLead, buttonReport] ++ place ++ [enterTerminator]

/-- A character typed with no button held. A carriage return brings a line feed along. -/
def plainKey (s : Session) (screen : Screen) (c : Char) : List UInt8 :=
  if lowByte c = 10 ∧ s.coordinates then s.enterReport screen
  else if lowByte c = 13 then [13, 10]
  else [lowByte c]

def keyTyped (s : Session) (screen : Screen) (c : Char) : Session × List UInt8 :=
  if s.mouse.mask = 0 then (s, s.plainKey screen c)
  else
    ({ s with mouse := { s.mouse with keyWithButton := true } },
      s.chordedKey screen s.mouse.mask (s.mouse.pressPoint.getD {}) c)

/-- A press counts until a button of the gesture has been released. -/
def mousePressed (s : Session) (b : Button) (p : Point) : Session :=
  let mouse := { s.mouse with pointer := some p }
  { s with
    mouse :=
      if s.mouse.releasing then mouse
      else { mouse with pressPoint := some p, mask := s.mouse.mask ||| b.bit } }

def gestureReport (s : Session) (screen : Screen) (mask : UInt8) (p : Point) : List UInt8 :=
  let button := [reportLead, buttonReport] ++ s.pointReport screen p ++ [gestureCode mask]
  if s.mouse.keyWithButton then
    if mask = 1 ∨ mask = 5 then button
    else if mask = 6 ∨ mask = 7 then
      [reportLead, chordReport, chordBase] ++ s.pointReport screen p
    else []
  else if 1 ≤ mask ∧ mask ≤ 5 then button
  else if mask = 6 then [gestureCode mask]
  else []

def reportsRelease (s : Session) : Bool :=
  !s.mouse.releasing && s.coordinates && gestureCode s.mouse.mask != 0

/-- The mouse once a button is up; with the last of them the gesture is over. -/
def lift (m : Mouse) (b : Button) : Mouse :=
  let mask := m.mask &&& ~~~b.bit
  if mask = 0 then { m with mask, releasing := false, keyWithButton := false }
  else { m with mask }

def mouseReleased (s : Session) (screen : Screen) (b : Button) : Session × List UInt8 :=
  let reports := s.reportsRelease
  let mouse :=
    { s.mouse with
      releasing := true
      keyWithButton := s.mouse.keyWithButton && !reports }
  ({ s with mouse := lift mouse b },
    if reports then s.gestureReport screen s.mouse.mask (s.mouse.pressPoint.getD {}) else [])

def mouseMoved (s : Session) (p : Point) : Session :=
  { s with mouse := { s.mouse with pointer := some p } }

def mouseExited (s : Session) : Session :=
  { s with mouse := { s.mouse with pointer := none } }

end Session

end VatTerminal
