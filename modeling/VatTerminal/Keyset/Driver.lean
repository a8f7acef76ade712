import VatTerminal.Keyset.Chord

/-! # The keyset driver

Bytes arrive in pieces of any size and are put together to records. A record
equal to the one before it is dropped, every other is taken in by the chord.
The first record that is not valid ends the driver, as does the end of the
device; what a listener gets of the last record before it goes away is lost.
-/

namespace VatTerminal.Keyset

def defaultDevice : String := "/dev/input/js0"

inductive Ending where
  | endOfFile
  | fault (f : Fault)
  | stop
  deriving DecidableEq

structure Driver where
  chord : Chord := {}
  /-- The last record that was not dropped. -/
  previous : Option Record := none
  unfinished : List UInt8 := []
  events : List Event := []
  result : Option (Except Error Unit) := none

namespace Driver

def finish (d : Driver) (r : Except Error Unit) : Driver := { d with result := some r }

/-- Hand events to the listener; without one the driver ends. -/
def deliver (d : Driver) (listening : Bool) (es : List Event) : Driver :=
  if listening ∨ es = [] then { d with events := d.events ++ es } else d.finish (.ok ())

def takeRecord (d : Driver) (listening : Bool) (bytes : List UInt8) : Driver :=
  match Record.parse bytes with
  | .error e => d.finish (.error e)
  | .ok r =>
    if d.previous = some r then d
    else
      match d.chord.process r with
      | (chord, .error e) => { d with chord, previous := some r }.finish (.error e)
      | (chord, .ok es) => { d with chord, previous := some r }.deliver listening es

/-- Take in one byte. A driver that has ended reads no more. -/
def push (d : Driver) (listening : Bool) (b : UInt8) : Driver :=
  if d.result.isSome then d
  else if d.unfinished.length + 1 < Record.size then
    { d with unfinished := d.unfinished ++ [b] }
  else { d with unfinished := [] }.takeRecord listening (d.unfinished ++ [b])

def feed (d : Driver) (listening : Bool) (piece : List UInt8) : Driver :=
  piece.foldl (fun d b => d.push listening b) d

def finishWith (d : Driver) (ending : Ending) : Driver :=
  if d.result.isSome then d
  else
    match ending with
    | .endOfFile => d.finish (.error .endOfFile)
    | .fault f => d.finish (.error (.ofFault f))
    | .stop => d.finish (.ok ())

def feedAll (listening : Bool) (pieces : List (List UInt8)) : Driver :=
  pieces.foldl (fun d piece => feed d listening piece) {}

def run (listening : Bool) (pieces : List (List UInt8)) (ending : Ending) : Driver :=
  (feedAll listening pieces).finishWith ending

def endsAlone (listening : Bool) (pieces : List (List UInt8)) (ending : Ending) : Bool :=
  decide (ending ≠ .stop) || (feedAll listening pieces).result.isSome

end Driver

end VatTerminal.Keyset
