import VatTerminal.Keyset.Record
import VatTerminal.Keyset.Charmap

/-! # Chords

Keys are collected from the first that goes down until all are up; their set
is then the chord that is typed. A key pressed again while others are held
does not start a new chord.
-/

namespace VatTerminal.Keyset

inductive Event where
  | pressed (time : UInt32) (key : UInt8)
  | released (time : UInt32) (key : UInt8)
  | typed (time : UInt32) (c : Char)
  deriving DecidableEq

def Event.typed? : Event → Option Char
  | typed _ c => some c
  | _ => none

def axisKey : UInt8 := 4

/-- The axis counts as held above this value. -/
def axisThreshold : Int16 := -13000

structure Chord where
  pressed : UInt8 := 0
  current : UInt8 := 0
  deriving DecidableEq

namespace Chord

/-- The bit of a key; one beyond the eighth has none. -/
def keyBit (key : UInt8) : UInt8 := if key < 8 then 1 <<< key else 0

def press (c : Chord) (key : UInt8) : Chord :=
  { pressed := c.pressed ||| keyBit key, current := c.current ||| keyBit key }

/-- Lift a key. With the last of them the chord is over, and types its character. -/
def release (c : Chord) (key : UInt8) : Chord × Except Error (Option Char) :=
  let current := c.current &&& ~~~keyBit key
  if current ≠ 0 then ({ c with current }, .ok none)
  else if c.pressed = 0 then ({}, .ok none)
  else if 31 < c.pressed then ({}, .error (.invalidChord c.pressed))
  else ({}, .ok (some (chordChar c.pressed)))

def keyOf (r : Record) : UInt8 := if r.isButton then r.number else axisKey

def isDown (r : Record) : Bool :=
  if r.isButton then r.value == 1 else decide (axisThreshold < r.value)

/-- Take in one record. Reports of the initial state change nothing. -/
def process (c : Chord) (r : Record) : Chord × Except Error (List Event) :=
  if r.isInit then (c, .ok [])
  else if isDown r then (c.press (keyOf r), .ok [.pressed r.time (keyOf r)])
  else
    let (c, typed) := c.release (keyOf r)
    (c, typed.map fun typed =>
      .released r.time (keyOf r) :: (typed.map fun ch => .typed r.time ch).toList)

end Chord

end VatTerminal.Keyset
