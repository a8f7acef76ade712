import VatTerminal.Telnet.Endpoint
import VatTerminal.Instruction.Parser

/-! # The stream from the host

A Telnet endpoint whose data is read as instructions. Every other Telnet event
passes through; one that arrives in the middle of a command abandons it.
-/

namespace VatTerminal

inductive TerminalEvent where
  | instruction (i : Instruction)
  | telnet (e : Telnet.Event)
  deriving DecidableEq

structure Stream where
  telnet : Telnet.Endpoint := {}
  parser : Parser := .ground
  deriving DecidableEq

namespace Stream

def inCommand (s : Stream) : Bool := s.parser.inCommand

/-- What a Telnet event means: data is read on, all else is passed on. -/
def accept (s : Stream) : Telnet.Event → Stream × Option TerminalEvent
  | .data b =>
    let (parser, i) := s.parser.push b
    ({ s with parser }, i.map .instruction)
  | e => ({ s with parser := .ground }, some (.telnet e))

def step (s : Stream) (b : UInt8) : Stream × Option TerminalEvent :=
  match s.telnet.step b with
  | (telnet, none) => ({ s with telnet }, none)
  | (telnet, some e) => { s with telnet }.accept e

/-- Read up to and including the byte that completes an event, and give back what follows it. -/
def decode (s : Stream) : List UInt8 → Stream × Option TerminalEvent × List UInt8
  | [] => (s, none, [])
  | b :: bs =>
    match s.step b with
    | (s, some event) => (s, some event, bs)
    | (s, none) => s.decode bs

def drain (s : Stream) : List UInt8 → Stream × List TerminalEvent
  | [] => (s, [])
  | b :: bs =>
    let (s, event) := s.step b
    let (s, events) := s.drain bs
    (s, event.toList ++ events)

def abandon (s : Stream) : Stream := { s with parser := .ground }

def drainEnd (s : Stream) (bytes : List UInt8) : Stream × List TerminalEvent :=
  let (s, events) := s.drain bytes
  (s.abandon, events)

def takeReplies (s : Stream) : List UInt8 × Stream :=
  let (replies, telnet) := s.telnet.takeReplies
  (replies, { s with telnet })

def takeStrays (s : Stream) : List UInt8 × Stream :=
  let (strays, telnet) := s.telnet.takeStrays
  (strays, { s with telnet })

theorem length_decode_lt {s t : Stream} {bytes rest : List UInt8} {e : TerminalEvent}
    (h : s.decode bytes = (t, some e, rest)) : rest.length < bytes.length := by
  induction bytes generalizing s with
  | nil => simp [decode] at h
  | cons b bs ih =>
    rw [decode] at h
    split at h
    · simp_all
    · exact Nat.lt_succ_of_lt (ih h)

theorem rest_of_decode_none {s t : Stream} {bytes rest : List UInt8}
    (h : s.decode bytes = (t, none, rest)) : rest = [] := by
  induction bytes generalizing s with
  | nil => simp_all [decode]
  | cons b bs ih =>
    rw [decode] at h
    split at h
    · simp at h
    · exact ih h

theorem length_drain_le (s : Stream) (bytes : List UInt8) :
    (s.drain bytes).2.length ≤ bytes.length := by
  induction bytes generalizing s with
  | nil => simp [drain]
  | cons b bs ih =>
    have := ih (s.step b).1
    simp only [drain, List.length_append, List.length_cons]
    cases (s.step b).2 <;> simp <;> omega

end Stream

end VatTerminal
