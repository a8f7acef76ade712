import VatTerminal.Telnet.Frame
import VatTerminal.Telnet.OptionSet

/-! # One end of a Telnet line

Received bytes are read one at a time. Each either advances the framing or
completes something: a data byte, a command, a subnegotiation or a negotiation
verb, which is run through the half it is about. Answers are not sent from
here; they collect in a reply buffer that the owner of the line takes.
-/

namespace VatTerminal.Telnet

structure OptionEvent where
  code : UInt8
  side : Side
  mode : Mode
  /-- Raised by a subnegotiation, not by a verb. -/
  subnegotiation : Bool
  deriving DecidableEq

inductive Event where
  | data (byte : UInt8)
  | command (c : Command)
  | option (e : OptionEvent)
  deriving DecidableEq

inductive Escaped where
  | quoted
  | command (c : Command)
  | subnegotiation
  | verb (v : Verb)
  | stray
  deriving DecidableEq

def Escaped.ofByte (b : UInt8) : Escaped :=
  if b = iac then .quoted
  else if b = subnegotiationBegin then .subnegotiation
  else match Command.ofByte? b with
    | some c => .command c
    | none => match Verb.ofByte? b with
      | some v => .verb v
      | none => .stray

/-- How far the reading of an escape sequence has come; `plain` when none is open. -/
inductive Framing where
  | plain | escaped | subnegotiation
  | negotiation (v : Verb)
  deriving DecidableEq

structure Endpoint where
  framing : Framing := .plain
  options : OptionSet := {}
  replies : List UInt8 := []
  /-- Hand commands over as data, except the end of a subnegotiation. -/
  inband : Bool := false
  strays : List UInt8 := []
  deriving DecidableEq

namespace Endpoint

def addOption (e : Endpoint) (o : TelnetOption) : Except Error Endpoint :=
  (e.options.add o).map fun s => { e with options := s }

def hasReplies (e : Endpoint) : Bool := !e.replies.isEmpty

def takeReplies (e : Endpoint) : List UInt8 × Endpoint := (e.replies, { e with replies := [] })

def takeStrays (e : Endpoint) : List UInt8 × Endpoint := (e.strays, { e with strays := [] })

def reply (e : Endpoint) (code : UInt8) (answer : Option Verb) : Endpoint :=
  { e with replies := e.replies ++ encodeAnswer code answer }

/-- Our wish for one side of a named option. The verb it calls for, if any, joins the replies. -/
def request (e : Endpoint) (name : String) (side : Side) (enable : Bool) :
    Except Error (Endpoint × UInt8) :=
  match e.options.request name side enable with
  | .error err => .error err
  | .ok (s, code, answer) => .ok ({ e with options := s }.reply code answer, code)

/-- The answer to a verb for an option that is not registered: whatever would switch it on is
refused. -/
def refusal : Verb → Option Verb
  | .will => some .dont
  | .do_ => some .wont
  | .wont | .dont => none

def commandEvent (e : Endpoint) (c : Command) : Event :=
  if e.inband && c != .subnegotiationEnd then .data c.byte else .command c

def subnegotiationEvent (e : Endpoint) (code : UInt8) : Event :=
  let mode := ((e.options.get? code).map (·.mode .localSide)).getD .disabled
  .option ⟨code, .localSide, mode, true⟩

/-- A verb from the peer. Only one that a registered option answers is an event. -/
def negotiate (e : Endpoint) (v : Verb) (code : UInt8) : Endpoint × Option Event :=
  match e.options.receive? v code with
  | none => (e.reply code (refusal v), none)
  | some (s, o, answer) =>
    ({ e with options := s }.reply code answer,
      answer.map fun _ => .option ⟨code, v.side, o.mode v.side, false⟩)

def step (e : Endpoint) (b : UInt8) : Endpoint × Option Event :=
  match e.framing with
  | .plain =>
    if b = iac then ({ e with framing := .escaped }, none) else (e, some (.data b))
  | .escaped =>
    let e := { e with framing := .plain }
    match Escaped.ofByte b with
    | .quoted => (e, some (.data iac))
    | .command c => (e, some (e.commandEvent c))
    | .subnegotiation => ({ e with framing := .subnegotiation }, none)
    | .verb v => ({ e with framing := .negotiation v }, none)
    | .stray => ({ e with strays := e.strays ++ [b] }, none)
  | .subnegotiation =>
    ({ e with framing := .plain }, some (e.subnegotiationEvent b))
  | .negotiation v => { e with framing := .plain }.negotiate v b

/-- Read up to and including the byte that completes an event, and give back what follows it. -/
def decode (e : Endpoint) : List UInt8 → Endpoint × Option Event × List UInt8
  | [] => (e, none, [])
  | b :: bs =>
    match e.step b with
    | (e, some event) => (e, some event, bs)
    | (e, none) => e.decode bs

def drain (e : Endpoint) : List UInt8 → Endpoint × List Event
  | [] => (e, [])
  | b :: bs =>
    let (e, event) := e.step b
    let (e, events) := e.drain bs
    (e, event.toList ++ events)

end Endpoint

end VatTerminal.Telnet
