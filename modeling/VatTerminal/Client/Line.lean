import VatTerminal.Client.Error
import VatTerminal.Telnet.Frame

/-! # Lines

A line carries bytes both ways under a virtual clock. What the host sends is a
queue of arrivals, of which one read takes one; a pause in the queue holds
back what stands behind it. Time moves only while a read waits, and then
straight to the moment that ends the wait.
-/

namespace VatTerminal.Client

inductive Arrival where
  | bytes (bs : List UInt8)
  | fault (f : Fault)
  /-- Hold back what follows, for so long from the moment a read comes here. -/
  | pause (ms : Nat)
  /-- Hold back what follows until a moment of the clock. -/
  | resume (moment : Nat)
  deriving DecidableEq

structure Line where
  now : Nat := 0
  inbound : List Arrival := []
  /-- The host sends nothing after what is in the queue. -/
  ended : Bool := false
  writeFault : Option Fault := none
  shutdownFault : Option Fault := none
  closed : Bool := false
  written : List (List UInt8) := []
  /-- Data that has been framed and not been written. -/
  frame : List UInt8 := []
  deriving DecidableEq

inductive Reading where
  | bytes (bs : List UInt8)
  | ended
  | failed (f : Fault)
  | waiting
  deriving DecidableEq

namespace Line

/-- The bytes in pieces of at most `size`, a size of 0 counting as 1. -/
def pieces (size : Nat) : List UInt8 → List (List UInt8)
  | [] => []
  | b :: bs => (b :: bs.take (size - 1)) :: pieces size (bs.drop (size - 1))
termination_by bytes => bytes.length
decreasing_by
  simp only [List.length_drop, List.length_cons]
  omega

def deliver (l : Line) (size : Nat) (bytes : List UInt8) : Line :=
  { l with inbound := l.inbound ++ (pieces size bytes).map .bytes }

def arrive (l : Line) (a : Arrival) : Line := { l with inbound := l.inbound ++ [a] }

/-- The clock once `moment` has come, where waiting for it ends in time. No limit is for ever. -/
def waitFor? (now moment : Nat) : Option Nat → Option Nat
  | none => some (max now moment)
  | some limit => if moment ≤ max now limit then some (max now moment) else none

/-- The clock once waiting has been given up. Without a limit it never is, and time stands. -/
def giveUp (now : Nat) : Option Nat → Nat
  | none => now
  | some limit => max now limit

/-- Take the next arrival of a queue, waiting for it up to the limit. -/
def readQueue (limit : Option Nat) (ended : Bool) (now : Nat) :
    List Arrival → Reading × Nat × List Arrival
  | [] => if ended then (.ended, now, []) else (.waiting, giveUp now limit, [])
  | .bytes [] :: rest => readQueue limit ended now rest
  | .bytes bs :: rest => (.bytes bs, now, rest)
  | .fault f :: rest => (.failed f, now, rest)
  | .pause ms :: rest =>
    match waitFor? now (now + ms) limit with
    | some now => readQueue limit ended now rest
    | none => (.waiting, giveUp now limit, .resume (now + ms) :: rest)
  | .resume moment :: rest =>
    match waitFor? now moment limit with
    | some now => readQueue limit ended now rest
    | none => (.waiting, giveUp now limit, .resume moment :: rest)

def read (l : Line) (limit : Option Nat) : Reading × Line :=
  let (r, now, inbound) := readQueue limit l.ended l.now l.inbound
  (r, { l with now, inbound })

def writeFrame (l : Line) (frame : List UInt8) : Except Error Unit × Line :=
  match l.writeFault with
  | some f => (.error (.ofFault f), l)
  | none => (.ok (), { l with written := l.written ++ [frame] })

/-- Write bytes that are framed already; there is no write of no bytes. -/
def sendRaw (l : Line) (bytes : List UInt8) : Except Error Unit × Line :=
  if bytes = [] then (.ok (), l)
  else if l.closed then (.error .notConnected, l)
  else l.writeFrame bytes

/-- Write data, quoted for the line. It joins the frame, and all of the frame is taken for the
write. -/
def sendData (l : Line) (bytes : List UInt8) : Except Error Unit × Line :=
  if bytes = [] then (.ok (), l)
  else if l.closed then (.error .notConnected, l)
  else { l with frame := [] }.writeFrame (l.frame ++ Telnet.encodeData bytes)

/-- Let go of the line, with the fault this met, if any. Done once, it does nothing more. -/
def close (l : Line) : Option Fault × Line :=
  if l.closed then (none, l) else (l.shutdownFault, { l with closed := true })

theorem readQueue_bytes_length {limit : Option Nat} {ended : Bool} {now now' : Nat}
    {q rest : List Arrival} {bs : List UInt8}
    (h : readQueue limit ended now q = (.bytes bs, now', rest)) : rest.length < q.length := by
  fun_induction readQueue limit ended now q <;> simp_all <;> omega

theorem read_bytes_length {l l' : Line} {limit : Option Nat} {bs : List UInt8}
    (h : l.read limit = (.bytes bs, l')) : l'.inbound.length < l.inbound.length := by
  simp only [read] at h
  injection h with h₁ h₂
  subst h₂
  exact readQueue_bytes_length (Prod.ext h₁ rfl)

end Line

end VatTerminal.Client
