import VatTerminal.Session.Terminal
import VatTerminal.Stream
import VatTerminal.Warning

/-! # Consoles

A terminal fed by the stream from a host: every instruction is applied as soon
as its last byte has been read, and every other event is passed on.
-/

namespace VatTerminal

structure Console where
  stream : Stream := {}
  terminal : Terminal
  deriving DecidableEq

structure Heard where
  events : List Telnet.Event := []
  updates : List Screen.Update := []
  reply : List UInt8 := []
  warnings : List Warning := []
  deriving DecidableEq

namespace Heard

def append (a b : Heard) : Heard where
  events := a.events ++ b.events
  updates := a.updates ++ b.updates
  reply := a.reply ++ b.reply
  warnings := a.warnings ++ b.warnings

instance : Append Heard := ⟨append⟩

end Heard

def Outcome.heard (o : Outcome) : Heard :=
  { updates := o.updates, reply := o.reply, warnings := o.failures.map .screenUpdateFailed }

namespace Console

def accept (c : Console) : Option TerminalEvent → Console × Heard
  | none => (c, {})
  | some (.telnet e) => (c, { events := [e] })
  | some (.instruction i) =>
    let (terminal, outcome) := c.terminal.apply i
    ({ c with terminal }, outcome.heard)

def step (c : Console) (b : UInt8) : Console × Heard :=
  let (stream, event) := c.stream.step b
  let (strays, stream) := stream.takeStrays
  let (c, heard) := { c with stream }.accept event
  (c, { warnings := strays.map .strayTelnetByte } ++ heard)

def feed (c : Console) : List UInt8 → Console × Heard
  | [] => (c, {})
  | b :: bs =>
    let (c, first) := c.step b
    let (c, rest) := c.feed bs
    (c, first ++ rest)

def feedEnd (c : Console) (bytes : List UInt8) : Console × Heard :=
  let (c, heard) := c.feed bytes
  ({ c with stream := c.stream.abandon }, heard)

end Console

end VatTerminal
