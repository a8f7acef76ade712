import VatTerminal.Session.Terminal
import VatTerminal.Client.Line
import VatTerminal.Warning

/-! # The display

The display owns the terminal of a client. It serves requests in the order
they arrive, and sends what a request owes the host before it serves the next.
Once the line is gone it drops keys and mouse actions.
-/

namespace VatTerminal.Client

inductive Request where
  | apply (i : Instruction) (ack : Bool)
  | key (c : Char)
  | press (b : Button) (p : Point)
  | release (b : Button)
  | move (p : Point)
  | exit
  | clear
  | disconnected
  deriving DecidableEq

def Request.isInput : Request → Bool
  | .key _ | .press _ _ | .release _ | .move _ | .exit => true
  | .apply _ _ | .clear | .disconnected => false

/-- Whether the sender waits until the request has been served. -/
def Request.wantsAck : Request → Bool
  | .apply _ ack => ack
  | _ => false

structure Display where
  terminal : Terminal
  attached : Bool := true
  deriving DecidableEq

namespace Display

def input (t : Terminal) : Request → Terminal × Outcome
  | .key c => t.key c
  | .press b p => (t.press b p, {})
  | .release b => t.release b
  | .move p => (t.move p, {})
  | .exit => (t.exit, {})
  | .apply _ _ | .clear | .disconnected => (t, {})

def handle (d : Display) (r : Request) : Display × Outcome :=
  match r with
  | .apply i _ =>
    let (terminal, outcome) := d.terminal.apply i
    ({ d with terminal }, outcome)
  | .clear =>
    let (terminal, outcome) := d.terminal.clear
    ({ d with terminal }, outcome)
  | .disconnected => ({ terminal := d.terminal.resetEmulation, attached := false }, {})
  | r =>
    if d.attached then
      let (terminal, outcome) := input d.terminal r
      ({ d with terminal }, outcome)
    else (d, {})

end Display

/-- Send what is owed to the host. What cannot be sent is lost, with a warning. -/
def Line.sendOwed (l : Line) (bytes : List UInt8) : List Warning × Line :=
  match l.sendData bytes with
  | (.ok (), l) => ([], l)
  | (.error e, l) => ([.outboundDropped bytes.length e], l)

end VatTerminal.Client
