import VatTerminal.Session.Apply
import VatTerminal.Session.Input

/-! # Terminals

A session together with the screen it drives.
-/

namespace VatTerminal

structure Terminal where
  session : Session
  screen : Screen
  deriving DecidableEq

/-- What came of an instruction or of an input: the updates of the screen in order, those that
failed, and what the host is owed. -/
structure Outcome where
  updates : List Screen.Update := []
  failures : List OutOfBounds := []
  reply : List UInt8 := []
  deriving DecidableEq

namespace Terminal

def start (screen : Screen) (escapeWide : Bool) : Terminal :=
  { session := .initial screen.size escapeWide, screen }

/-- Update the screen; one that fails leaves it as it was. -/
def update (t : Terminal) : Option Screen.Update → Terminal × List OutOfBounds
  | none => (t, [])
  | some u =>
    match t.screen.perform u with
    | .ok screen => ({ t with screen }, [])
    | .error e => (t, [e])

def apply (t : Terminal) (i : Instruction) : Terminal × Outcome :=
  let (session, effect) := t.session.apply t.screen.size i
  let (t, failures) := { t with session }.update effect.update
  (t, { updates := effect.update.toList, failures, reply := effect.reply })

def key (t : Terminal) (c : Char) : Terminal × Outcome :=
  let (session, reply) := t.session.keyTyped t.screen c
  ({ t with session }, { reply })

def press (t : Terminal) (b : Button) (p : Point) : Terminal :=
  { t with session := t.session.mousePressed b p }

def release (t : Terminal) (b : Button) : Terminal × Outcome :=
  let (session, reply) := t.session.mouseReleased t.screen b
  ({ t with session }, { reply })

def move (t : Terminal) (p : Point) : Terminal := { t with session := t.session.mouseMoved p }

def exit (t : Terminal) : Terminal := { t with session := t.session.mouseExited }

def resetEmulation (t : Terminal) : Terminal :=
  { t with session := t.session.resetEmulation t.screen.size }

def clear (t : Terminal) : Terminal × Outcome :=
  let (t, failures) := t.update (some .clear)
  (t.resetEmulation, { updates := [.clear], failures })

end Terminal

end VatTerminal
