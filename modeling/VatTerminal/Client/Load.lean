import VatTerminal.Client.Connection

/-! # What a connection has yet to hand out

Every event that a connection hands out is paid for: by an event it kept, or
by a byte that it had not decoded.
-/

namespace VatTerminal.Client

def Arrival.size : Arrival → Nat
  | .bytes bs => bs.length
  | .fault _ | .pause _ | .resume _ => 0

def inboundSize : List Arrival → Nat
  | [] => 0
  | a :: q => a.size + inboundSize q

namespace Line

theorem inboundSize_readQueue (limit : Option Nat) (ended : Bool) (now : Nat) (q : List Arrival) :
    inboundSize (readQueue limit ended now q).2.2 ≤ inboundSize q := by
  fun_induction readQueue limit ended now q <;> simp_all [inboundSize, Arrival.size]

theorem inboundSize_readQueue_bytes {limit : Option Nat} {ended : Bool} {now now' : Nat}
    {q rest : List Arrival} {bs : List UInt8}
    (h : readQueue limit ended now q = (.bytes bs, now', rest)) :
    inboundSize rest + bs.length ≤ inboundSize q := by
  fun_induction readQueue limit ended now q <;>
    simp_all [inboundSize, Arrival.size, Nat.add_comm]

end Line

namespace Connection

def load (c : Connection) : Nat :=
  c.pending.length + c.buffer.length + inboundSize c.line.inbound

theorem load_flushReplies (c : Connection) : c.flushReplies.2.load = c.load := by
  simp only [load, inbound_flushReplies]
  rfl

theorem load_decode_le (c : Connection) : c.decode.2.load ≤ c.load := by
  rcases h : c.stream.decode c.buffer with ⟨s, _ | e, rest⟩
  · have := Stream.rest_of_decode_none h
    simp [decode, load, h, this]
  · have := Stream.length_decode_lt h
    simp [decode, load, h]
    omega

theorem load_decode_lt {c : Connection} {e : TerminalEvent} (h : c.decode.1 = some e) :
    c.decode.2.load < c.load := by
  rcases hd : c.stream.decode c.buffer with ⟨s, _ | e, rest⟩
  · simp [decode, hd] at h
  · have := Stream.length_decode_lt hd
    simp [decode, load, hd]
    omega

theorem load_fill_le (c : Connection) (limit : Option Nat) : (c.fill limit).2.load ≤ c.load := by
  rcases h : Line.readQueue limit c.line.ended c.line.now c.line.inbound with ⟨r, now, q⟩
  have hq := Line.inboundSize_readQueue limit c.line.ended c.line.now c.line.inbound
  rw [h] at hq
  cases r with
  | bytes bs =>
    have := Line.inboundSize_readQueue_bytes h
    simp [fill, load, Line.read, h]
    omega
  | ended => simpa [fill, load, Line.read, h] using hq
  | failed f => simpa [fill, load, Line.read, h] using hq
  | waiting => simpa [fill, load, Line.read, h] using hq

theorem load_endOfStream_le (c : Connection) : c.endOfStream.load ≤ c.load := by
  have := Stream.length_drain_le c.stream c.buffer
  simp [endOfStream, Stream.drainEnd, load]
  omega

theorem load_turn_le (c : Connection) (limit : Option Nat) : (c.turn limit).2.load ≤ c.load := by
  simp only [turn]
  split
  · next h => simp [load, h]
  · split
    · simp
    · simp [load]
    · have hd := load_decode_le c
      have hf := load_flushReplies c.decode.2
      split
      · simp_all
      · next d heq =>
        rw [heq] at hf
        split
        · simp_all
        · have hr := load_fill_le d limit
          split <;> next d' h =>
            rw [h] at hr
            have := load_endOfStream_le d'
            simp_all
            omega

theorem load_turn_lt (c : Connection) (limit : Option Nat) {e : TerminalEvent}
    (h : (c.turn limit).1 = some (.event e)) : (c.turn limit).2.load < c.load := by
  revert h
  simp only [turn]
  split
  · next hp => simp [load, hp]
  · split
    · simp
    · simp
    · have hf := load_flushReplies c.decode.2
      split
      · simp
      · next d heq =>
        rw [heq] at hf
        split
        · next he =>
          have := load_decode_lt he
          simp_all
        · split <;> simp

theorem load_next_le (c : Connection) (limit : Option Nat) : (c.next limit).2.load ≤ c.load := by
  fun_induction next c limit with
  | case1 c r d h =>
    have := load_turn_le c limit
    simp_all
  | case2 c d h ih =>
    have := load_turn_le c limit
    simp_all
    omega

theorem load_next_lt (c : Connection) (limit : Option Nat) {e : TerminalEvent}
    (h : (c.next limit).1 = .event e) : (c.next limit).2.load < c.load := by
  fun_induction next c limit with
  | case1 c r d hc =>
    have := load_turn_lt c limit (e := e)
    simp_all
  | case2 c d hc ih =>
    have := load_turn_le c limit
    simp_all
    omega

/-- Events as long as they come, with what comes instead of the next. -/
def nextAll (c : Connection) (limit : Option Nat) : List TerminalEvent × Next × Connection :=
  match _h : c.next limit with
  | (.event e, d) =>
    let (events, last, d) := d.nextAll limit
    (e :: events, last, d)
  | (last, d) => ([], last, d)
termination_by c.load
decreasing_by
  have := load_next_lt c limit (e := e)
  simp_all

end Connection

end VatTerminal.Client
