import VatTerminal.Client.Display
import VatTerminal.Client.Load
import VatTerminal.Keyset.Driver

/-! # Clients

A reader that owns the connection and a display that owns the terminal, with a
bounded queue of requests between them. The reader hands every instruction
over and, where it may change the screen, waits until it has been applied.
Keys and mouse actions join the same queue.

The functions here are the single steps of the two, which may be taken in any
order in which they are enabled; `Client.settle` in `Client.Schedule` takes
them in one of these orders.
-/

namespace VatTerminal.Client

inductive Notice where
  | connected (hasPeer : Bool)
  | disconnected
  | command (c : Telnet.Command)
  | option (e : Telnet.OptionEvent)
  | keysetUnavailable (e : Keyset.Error)
  | failed (e : Error)
  deriving DecidableEq

/-- What has happened so far, each list oldest first. -/
structure Journal where
  notices : List Notice := []
  warnings : List Warning := []
  updates : List Screen.Update := []
  deriving DecidableEq

namespace Journal

def notify (j : Journal) (ns : List Notice) : Journal := { j with notices := j.notices ++ ns }

def warn (j : Journal) (ws : List Warning) : Journal := { j with warnings := j.warnings ++ ws }

def record (j : Journal) (us : List Screen.Update) : Journal :=
  { j with updates := j.updates ++ us }

end Journal

/-- Where the reader is in its loop, or in what it does after it. -/
inductive Reader where
  | asking
  | sending (i : Instruction)
  | awaiting
  | closing
  | announcing
  | parting
  | finished
  deriving DecidableEq

end VatTerminal.Client

namespace VatTerminal

structure Client where
  connection : Client.Connection
  display : Client.Display
  reader : Client.Reader := .asking
  stopping : Bool := false
  queue : List Client.Request := []
  capacity : Nat
  /-- The instruction that the reader waits for has been applied. -/
  acknowledged : Bool := false
  journal : Client.Journal := {}
  deriving DecidableEq

namespace Client

def hasRoom (c : Client) : Bool := decide (c.queue.length < c.capacity)

def enqueue (c : Client) (r : Request) : Client := { c with queue := c.queue ++ [r] }

def setLine (c : Client) (line : Line) : Client :=
  { c with connection := { c.connection with line } }

def now (c : Client) : Nat := c.connection.line.now

def logStrays (c : Client) : Client :=
  let (strays, stream) := c.connection.stream.takeStrays
  { c with
    connection := { c.connection with stream }
    journal := c.journal.warn (strays.map .strayTelnetByte) }

def noticesOf : Telnet.Event → List Notice
  | .data _ => []
  | .command cmd => [.command cmd]
  | .option e => [.option e]

/-- Where the reader goes with the outcome of asking for the next event, and what is told. Without
a place to go it stays where it is. -/
def react (c : Client) : Next → Bool × Client
  | .event (.instruction i) => (true, { c with reader := .sending i })
  | .event (.telnet e) => (true, { c with journal := c.journal.notify (noticesOf e) })
  | .finished => (true, { c with reader := .closing })
  | .failed e =>
    (true, { c with
      reader := .closing
      journal := (c.journal.warn [.connectionFailed e]).notify [.failed e] })
  | .waiting => (false, c)

def ask (c : Client) (limit : Nat) : Bool × Client :=
  let (next, connection) := c.connection.next (some limit)
  { c with connection }.logStrays.react next

def hangUp (c : Client) : Client :=
  let (f, connection) := c.connection.close
  { c with
    connection, reader := .announcing
    journal := c.journal.warn (f.toList.map .closeFailed) }

/-- One step of the reader, and whether it could take one. A reader told to stop does so before it
asks again. -/
def readerStep (c : Client) (limit : Nat) : Bool × Client :=
  match c.reader with
  | .asking => if c.stopping then (true, { c with reader := .closing }) else c.ask limit
  | .sending i =>
    if c.hasRoom then
      (true, { c with reader := if i.mutatesScreen then .awaiting else .asking }.enqueue
        (.apply i i.mutatesScreen))
    else (false, c)
  | .awaiting =>
    if c.acknowledged then (true, { c with reader := .asking, acknowledged := false })
    else (false, c)
  | .closing => (true, c.hangUp)
  | .announcing =>
    if c.hasRoom then (true, { c with reader := .parting }.enqueue .disconnected) else (false, c)
  | .parting =>
    (true, { c with reader := .finished, journal := c.journal.notify [.disconnected] })
  | .finished => (false, c)

def serve (c : Client) (r : Request) : Client :=
  let (display, outcome) := c.display.handle r
  let (dropped, line) := c.connection.line.sendOwed outcome.reply
  { c.setLine line with
    display
    acknowledged := c.acknowledged || r.wantsAck
    journal := (c.journal.record outcome.updates).warn
      (outcome.failures.map .screenUpdateFailed ++ dropped) }

/-- One step of the display, and whether it could take one. -/
def displayStep (c : Client) : Bool × Client :=
  match c.queue with
  | [] => (false, c)
  | r :: rest => (true, { c with queue := rest }.serve r)

/-- A request from outside, for which there has to be room. -/
def submit (c : Client) (r : Request) : Bool × Client :=
  if c.hasRoom then (true, c.enqueue r) else (false, c)

/-- Tell the reader to stop. A second time, or too late, this does nothing. -/
def disconnect (c : Client) : Client := { c with stopping := true }

def isDisconnected (c : Client) : Bool := decide (c.reader = .finished)

inductive KeysetDevice where
  | none
  | missing (path : String)
  | records (bytes : List UInt8)
  deriving DecidableEq

namespace KeysetDevice

def journal : KeysetDevice → Journal
  | missing path =>
    { notices := [.keysetUnavailable (.notFound path)]
      warnings := [.keysetUnavailable (.notFound path)] }
  | none | records _ => {}

end KeysetDevice

def start (s : Settings) (connection : Connection) (screen : Screen) (device : KeysetDevice) :
    Client :=
  { connection
    display := { terminal := .start screen s.escapeWideCoordinates }
    capacity := s.queueCapacity
    journal := device.journal.notify [.connected false] }

end Client

end VatTerminal
