import VatTerminal.Telnet.Endpoint

/-! # Two ends talking to each other

A round of the lockstep exchange carries the replies of the one end to the
other, and then those of the other back. Rounds are run while either end has
something to say.
-/

namespace VatTerminal.Telnet

structure Exchange where
  a : Endpoint
  b : Endpoint
  deriving DecidableEq

namespace Exchange

structure Round where
  fromA : List UInt8
  eventsAtB : List Event
  fromB : List UInt8
  eventsAtA : List Event
  deriving DecidableEq

def quiet (x : Exchange) : Bool := !x.a.hasReplies && !x.b.hasReplies

def round (x : Exchange) : Exchange × Round :=
  let (fromA, a) := x.a.takeReplies
  let (b, eventsAtB) := x.b.drain fromA
  let (fromB, b) := b.takeReplies
  let (a, eventsAtA) := a.drain fromB
  (⟨a, b⟩, ⟨fromA, eventsAtB, fromB, eventsAtA⟩)

def settle (x : Exchange) : Nat → Exchange × List Round
  | 0 => (x, [])
  | limit + 1 =>
    if x.quiet then (x, [])
    else
      let (x, r) := x.round
      let (x, rs) := x.settle limit
      (x, r :: rs)

end Exchange

end VatTerminal.Telnet
