import VatTerminal.Screen.Basic
import VatTerminal.Telnet.Error

/-! # What goes wrong in a terminal -/

namespace VatTerminal

inductive TerminalError where
  | outOfBounds (e : OutOfBounds)
  | telnet (e : Telnet.Error)
  | fault (f : Fault)
  deriving DecidableEq

namespace TerminalError

def message : TerminalError → String
  | outOfBounds e => e.message
  | telnet e => "Telnet codec error: " ++ e.message
  | fault f => "I/O error: " ++ f.text

def cause? : TerminalError → Option String
  | outOfBounds _ => none
  | telnet e => some e.message
  | fault f => some f.text

end TerminalError

end VatTerminal
