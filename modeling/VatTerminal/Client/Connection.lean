import VatTerminal.Client.Line
import VatTerminal.Client.Settings
import VatTerminal.Stream

/-! # Connections

A line to a host, read as a stream of terminal events. Answers of the Telnet
endpoint are written before the event that called for them is handed out.
Events that are read while a negotiation is waited for are kept, and are
handed out before any that are read later.
-/

namespace VatTerminal.Client

/-- The end of the stream is met once, and reported once. -/
inductive Phase where
  | open | ended | closed
  deriving DecidableEq

structure Connection where
  line : Line := {}
  stream : Stream := {}
  buffer : List UInt8 := []
  pending : List TerminalEvent := []
  phase : Phase := .open
  negotiationTimeout : Nat
  deriving DecidableEq

inductive Next where
  | event (e : TerminalEvent)
  | finished
  | failed (e : Error)
  | waiting
  deriving DecidableEq

namespace Connection

def wrap (s : Settings) (line : Line) : Except Error Connection :=
  match ({} : Telnet.OptionSet).addAll (s.options.map (·.toOption)) with
  | .error e => .error (.ofTelnet e)
  | .ok options =>
    .ok { line, stream := { telnet := { options, inband := s.inbandCommands } }
          negotiationTimeout := s.negotiationTimeout }

def options (c : Connection) : Telnet.OptionSet := c.stream.telnet.options

def option? (c : Connection) (name : String) : Option TelnetOption := c.options.byName? name

def setTelnet (c : Connection) (telnet : Telnet.Endpoint) : Connection :=
  { c with stream := { c.stream with telnet } }

/-- Write the answers that have collected, in one write. They are gone even if it fails. -/
def flushReplies (c : Connection) : Except Error Unit × Connection :=
  let (replies, stream) := c.stream.takeReplies
  let (r, line) := c.line.sendRaw replies
  (r, { c with stream, line })

/-- Wish for every option on both sides, up to the first that is refused. -/
def requestAll (telnet : Telnet.Endpoint) :
    List TelnetOption → Except Telnet.Error Unit × Telnet.Endpoint
  | [] => (.ok (), telnet)
  | o :: os =>
    match telnet.request o.name .remoteSide true with
    | .error e => (.error e, telnet)
    | .ok (telnet, _) =>
      match telnet.request o.name .localSide true with
      | .error e => (.error e, telnet)
      | .ok (telnet, _) => requestAll telnet os

def negotiateOnConnect (c : Connection) : Except Error Unit × Connection :=
  let (r, telnet) := requestAll c.stream.telnet c.options.entries
  match r with
  | .error e => (.error (.ofTelnet e), c.setTelnet telnet)
  | .ok () => (c.setTelnet telnet).flushReplies

def decode (c : Connection) : Option TerminalEvent × Connection :=
  let (stream, event, buffer) := c.stream.decode c.buffer
  (event, { c with stream, buffer })

/-- Decode all that has been read, keep the events, and write the answers. -/
def decodeBuffered (c : Connection) : Except Error Unit × Connection :=
  let (stream, events) := c.stream.drain c.buffer
  { c with stream, buffer := [], pending := c.pending ++ events }.flushReplies

def endOfStream (c : Connection) : Connection :=
  let (stream, events) := c.stream.drainEnd c.buffer
  { c with stream, buffer := [], pending := c.pending ++ events, phase := .ended }

/-- Read once, waiting up to a moment of the clock. -/
def fill (c : Connection) (limit : Option Nat) : Reading × Connection :=
  match c.line.read limit with
  | (.bytes bs, line) => (.bytes bs, { c with line, buffer := c.buffer ++ bs })
  | (r, line) => (r, { c with line })

section ReadsLeft

variable (c : Connection) (limit : Option Nat)

@[simp] theorem inbound_flushReplies : c.flushReplies.2.line.inbound = c.line.inbound := by
  simp only [flushReplies, Line.sendRaw, Line.writeFrame]
  repeat' split
  all_goals rfl

@[simp] theorem phase_flushReplies : c.flushReplies.2.phase = c.phase := rfl

@[simp] theorem inbound_decodeBuffered :
    c.decodeBuffered.2.line.inbound = c.line.inbound := by
  simp [decodeBuffered]

@[simp] theorem inbound_decode : c.decode.2.line.inbound = c.line.inbound := rfl

@[simp] theorem phase_decode : c.decode.2.phase = c.phase := rfl

@[simp] theorem phase_fill : (c.fill limit).2.phase = c.phase := by
  simp only [fill]
  split <;> rfl

theorem inbound_fill_lt {bs : List UInt8} (h : (c.fill limit).1 = .bytes bs) :
    (c.fill limit).2.line.inbound.length < c.line.inbound.length := by
  simp only [fill] at h ⊢
  split
  · exact Line.read_bytes_length ‹_›
  · next r _ _ heq => simp_all

end ReadsLeft

/-- One turn of waiting for a half to settle: decode what has been read and see, and read on if it
is not settled. No answer means that something was read. -/
def settleTurn (c : Connection) (name : String) (side : Telnet.Side) (deadline : Nat) :
    Option (Except Error Bool) × Connection :=
  match c.decodeBuffered with
  | (.error e, c) => (some (.error e), c)
  | (.ok (), c) =>
    match ((c.option? name).map (·.mode side)).getD .disabled with
    | .enabled => (some (.ok true), c)
    | .disabled => (some (.ok false), c)
    | .unstable =>
      match c.fill (some deadline) with
      | (.bytes _, c) => (none, c)
      | (.ended, c) => (some (.ok false), c.endOfStream)
      | (.failed f, c) => (some (.error (.ofFault f)), c)
      | (.waiting, c) => (some (.ok false), c)

theorem inbound_settleTurn_lt (c : Connection) (name : String) (side : Telnet.Side)
    (deadline : Nat) (h : (c.settleTurn name side deadline).1 = none) :
    (c.settleTurn name side deadline).2.line.inbound.length < c.line.inbound.length := by
  have key := inbound_decodeBuffered c
  revert h
  simp only [settleTurn]
  split
  · simp
  · next d hd =>
    rw [hd] at key
    split <;> try simp
    split <;> try simp
    next bs c' hf =>
      have := inbound_fill_lt d (some deadline)
        (show (d.fill (some deadline)).1 = .bytes bs by rw [hf])
      simp_all

/-- Wait for a half to settle until a moment has come. The answer is whether it is then on. -/
def awaitSettled (c : Connection) (name : String) (side : Telnet.Side) (deadline : Nat) :
    Except Error Bool × Connection :=
  match _h : c.settleTurn name side deadline with
  | (some r, c) => (r, c)
  | (none, d) => d.awaitSettled name side deadline
termination_by c.line.inbound.length
decreasing_by
  have := inbound_settleTurn_lt c name side deadline
  simp_all

/-- Wish for an option to be on, and wait for the answer up to the negotiation timeout. -/
def negotiate (c : Connection) (name : String) (side : Telnet.Side) :
    Except Error Bool × Connection :=
  if c.phase ≠ .open then (.error .notConnected, c)
  else
    match c.stream.telnet.request name side true with
    | .error e => (.error (.ofTelnet e), c)
    | .ok (telnet, _) =>
      match (c.setTelnet telnet).flushReplies with
      | (.error e, c) => (.error e, c)
      | (.ok (), c) => c.awaitSettled name side (c.line.now + c.negotiationTimeout)

def offer (c : Connection) (name : String) : Except Error Bool × Connection :=
  c.negotiate name .localSide

def ask (c : Connection) (name : String) : Except Error Bool × Connection :=
  c.negotiate name .remoteSide

/-- One turn of asking for the next event. No answer means that something was read, or that the
end of the stream was met. -/
def turn (c : Connection) (limit : Option Nat) : Option Next × Connection :=
  match c.pending with
  | e :: rest => (some (.event e), { c with pending := rest })
  | [] =>
    match c.phase with
    | .closed => (some (.failed .notConnected), c)
    | .ended => (some .finished, { c with phase := .closed })
    | .open =>
      let (event, c) := c.decode
      match c.flushReplies with
      | (.error e, c) => (some (.failed e), c)
      | (.ok (), c) =>
        match event with
        | some e => (some (.event e), c)
        | none =>
          match c.fill limit with
          | (.bytes _, c) => (none, c)
          | (.ended, c) => (none, c.endOfStream)
          | (.failed f, c) => (some (.failed (.ofFault f)), c)
          | (.waiting, c) => (some .waiting, c)

def turnsLeft (c : Connection) : Nat :=
  match c.phase with
  | .open => c.line.inbound.length + 1
  | .ended | .closed => 0

theorem turnsLeft_turn_lt (c : Connection) (limit : Option Nat) (h : (c.turn limit).1 = none) :
    (c.turn limit).2.turnsLeft < c.turnsLeft := by
  revert h
  simp only [turn]
  split
  · simp
  · split
    · simp
    · simp
    · next hp =>
      have key := inbound_flushReplies c.decode.2
      have hq := phase_flushReplies c.decode.2
      split
      · simp
      · next d hd =>
        rw [hd] at key hq
        split
        · simp
        · have hr := phase_fill d limit
          split <;> try simp
          · next bs c' hf =>
            have := inbound_fill_lt d limit (show (d.fill limit).1 = .bytes bs by rw [hf])
            simp_all [turnsLeft]
          · simp_all [turnsLeft, endOfStream]

def next (c : Connection) (limit : Option Nat) : Next × Connection :=
  match _h : c.turn limit with
  | (some r, c) => (r, c)
  | (none, d) => d.next limit
termination_by c.turnsLeft
decreasing_by
  have := turnsLeft_turn_lt c limit
  simp_all

/-- Let go of the line. Nothing is read or negotiated after that. -/
def close (c : Connection) : Option Fault × Connection :=
  let (f, line) := c.line.close
  (f, { c with line, phase := .closed })

end Connection

end VatTerminal.Client
