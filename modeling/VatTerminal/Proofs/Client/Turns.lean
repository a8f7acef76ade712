import VatTerminal.Client.Connection

/-! # What a turn can come to

Asking for the next event and waiting for a half to settle both go by turns.
What a turn can do is listed here once, with the reads and writes that it makes
on the way.
-/

namespace VatTerminal.Client.Connection

inductive Turn (c : Connection) (limit : Option Nat) : Option Next → Connection → Prop where
  | kept {e : TerminalEvent} {rest : List TerminalEvent} (hp : c.pending = e :: rest) :
    Turn c limit (some (.event e)) { c with pending := rest }
  | closed (hp : c.pending = []) (hc : c.phase = .closed) :
    Turn c limit (some (.failed .notConnected)) c
  | ended (hp : c.pending = []) (hc : c.phase = .ended) :
    Turn c limit (some .finished) { c with phase := .closed }
  | unsent {e : Error} {d : Connection} (hp : c.pending = []) (ho : c.phase = .open)
    (hd : c.decode.2.flushReplies = (.error e, d)) : Turn c limit (some (.failed e)) d
  | decoded {e : TerminalEvent} {d : Connection} (hp : c.pending = []) (ho : c.phase = .open)
    (hd : c.decode.2.flushReplies = (.ok (), d)) (he : c.decode.1 = some e) :
    Turn c limit (some (.event e)) d
  | read {bs : List UInt8} {d f : Connection} (hp : c.pending = []) (ho : c.phase = .open)
    (hd : c.decode.2.flushReplies = (.ok (), d)) (he : c.decode.1 = none)
    (hf : d.fill limit = (.bytes bs, f)) : Turn c limit none f
  | met {d f : Connection} (hp : c.pending = []) (ho : c.phase = .open)
    (hd : c.decode.2.flushReplies = (.ok (), d)) (he : c.decode.1 = none)
    (hf : d.fill limit = (.ended, f)) : Turn c limit none f.endOfStream
  | fault {x : Fault} {d f : Connection} (hp : c.pending = []) (ho : c.phase = .open)
    (hd : c.decode.2.flushReplies = (.ok (), d)) (he : c.decode.1 = none)
    (hf : d.fill limit = (.failed x, f)) : Turn c limit (some (.failed (.ofFault x))) f
  | waiting {d f : Connection} (hp : c.pending = []) (ho : c.phase = .open)
    (hd : c.decode.2.flushReplies = (.ok (), d)) (he : c.decode.1 = none)
    (hf : d.fill limit = (.waiting, f)) : Turn c limit (some .waiting) f

/-- How a half looks, where one that is not registered is off. -/
def modeOf (c : Connection) (name : String) (side : Telnet.Side) : Telnet.Mode :=
  ((c.option? name).map (·.mode side)).getD .disabled

inductive SettleTurn (c : Connection) (name : String) (side : Telnet.Side) (deadline : Nat) :
    Option (Except Error Bool) → Connection → Prop where
  | unsent {e : Error} {d : Connection} (hd : c.decodeBuffered = (.error e, d)) :
    SettleTurn c name side deadline (some (.error e)) d
  | enabled {d : Connection} (hd : c.decodeBuffered = (.ok (), d))
    (hm : d.modeOf name side = .enabled) : SettleTurn c name side deadline (some (.ok true)) d
  | disabled {d : Connection} (hd : c.decodeBuffered = (.ok (), d))
    (hm : d.modeOf name side = .disabled) : SettleTurn c name side deadline (some (.ok false)) d
  | read {bs : List UInt8} {d f : Connection} (hd : c.decodeBuffered = (.ok (), d))
    (hm : d.modeOf name side = .unstable) (hf : d.fill (some deadline) = (.bytes bs, f)) :
    SettleTurn c name side deadline none f
  | met {d f : Connection} (hd : c.decodeBuffered = (.ok (), d))
    (hm : d.modeOf name side = .unstable) (hf : d.fill (some deadline) = (.ended, f)) :
    SettleTurn c name side deadline (some (.ok false)) f.endOfStream
  | fault {x : Fault} {d f : Connection} (hd : c.decodeBuffered = (.ok (), d))
    (hm : d.modeOf name side = .unstable) (hf : d.fill (some deadline) = (.failed x, f)) :
    SettleTurn c name side deadline (some (.error (.ofFault x))) f
  | waiting {d f : Connection} (hd : c.decodeBuffered = (.ok (), d))
    (hm : d.modeOf name side = .unstable) (hf : d.fill (some deadline) = (.waiting, f)) :
    SettleTurn c name side deadline (some (.ok false)) f

variable (c : Connection)

theorem turn_spec (limit : Option Nat) : Turn c limit (c.turn limit).1 (c.turn limit).2 := by
  simp only [turn]
  split
  · next hp => exact .kept hp
  · next hp =>
    split
    · next hc => exact .closed hp hc
    · next hc => exact .ended hp hc
    · next ho =>
      split
      · next hd => exact .unsent hp ho hd
      · next hd =>
        split
        · next he => exact .decoded hp ho hd he
        · next he =>
          split
          · next hf => exact .read hp ho hd he hf
          · next hf => exact .met hp ho hd he hf
          · next hf => exact .fault hp ho hd he hf
          · next hf => exact .waiting hp ho hd he hf

theorem settleTurn_spec (name : String) (side : Telnet.Side) (deadline : Nat) :
    SettleTurn c name side deadline (c.settleTurn name side deadline).1
      (c.settleTurn name side deadline).2 := by
  unfold settleTurn
  split
  · next hd => exact .unsent hd
  · next hd =>
    split
    · next hm => exact .enabled hd hm
    · next hm => exact .disabled hd hm
    · next hm =>
      split
      · next hf => exact .read hd hm hf
      · next hf => exact .met hd hm hf
      · next hf => exact .fault hd hm hf
      · next hf => exact .waiting hd hm hf

/-- What holds of an answering turn, and is carried back over every turn without an answer, holds of
the call for the next event. -/
theorem next_induction {limit : Option Nat} {R : Connection → Next × Connection → Prop}
    (answer : ∀ {c r d}, Turn c limit (some r) d → R c (r, d))
    (goOn : ∀ {c d x}, Turn c limit none d → R d x → R c x) : R c (c.next limit) := by
  fun_induction next c limit with
  | case1 c r d h =>
    have ht := c.turn_spec limit
    rw [h] at ht
    exact answer ht
  | case2 c d h ih =>
    have ht := c.turn_spec limit
    rw [h] at ht
    exact goOn ht ih

theorem awaitSettled_induction {name : String} {side : Telnet.Side} {deadline : Nat}
    {R : Connection → Except Error Bool × Connection → Prop}
    (answer : ∀ {c r d}, SettleTurn c name side deadline (some r) d → R c (r, d))
    (goOn : ∀ {c d x}, SettleTurn c name side deadline none d → R d x → R c x) :
    R c (c.awaitSettled name side deadline) := by
  fun_induction awaitSettled c name side deadline with
  | case1 c r d h =>
    have ht := c.settleTurn_spec name side deadline
    rw [h] at ht
    exact answer ht
  | case2 c d h ih =>
    have ht := c.settleTurn_spec name side deadline
    rw [h] at ht
    exact goOn ht ih

end VatTerminal.Client.Connection
