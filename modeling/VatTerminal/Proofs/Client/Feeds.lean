import VatTerminal.Proofs.Stream.Inputs
import VatTerminal.Client.Connection

/-! # What a connection puts to its stream

Each step of a connection puts some inputs to its stream. Bytes go from the line
to the buffer, and leave the buffer only that way. The events they make are
handed out, or kept behind those that are kept already.
-/

namespace VatTerminal.Client

def Arrival.payload : Arrival → List UInt8
  | .bytes bs => bs
  | .fault _ | .pause _ | .resume _ => []

def Reading.payload : Reading → List UInt8
  | .bytes bs => bs
  | .ended | .failed _ | .waiting => []

namespace Line

/-- The bytes that the host has sent and nobody has read. -/
def onWay (l : Line) : List UInt8 := l.inbound.flatMap Arrival.payload

theorem readQueue_payload (limit : Option Nat) (ended : Bool) (now : Nat) (q : List Arrival) :
    q.flatMap Arrival.payload = (readQueue limit ended now q).1.payload ++
      (readQueue limit ended now q).2.2.flatMap Arrival.payload := by
  fun_induction readQueue limit ended now q with
  | case1 | case2 => rfl
  | case3 now rest ih => exact ih
  | case4 | case5 => rfl
  | case6 now ms rest now' h ih => exact ih
  | case7 => rfl
  | case8 now moment rest now' h ih => exact ih
  | case9 => rfl

/-- A read that finds the end, or waits for ever, finds nothing on the way. -/
theorem readQueue_rest {limit : Option Nat} {ended : Bool} {now : Nat} {q : List Arrival}
    (h : (readQueue limit ended now q).1 = .ended ∨
      (readQueue limit ended now q).1 = .waiting ∧ limit = none) :
    (readQueue limit ended now q).2.2 = [] := by
  fun_induction readQueue limit ended now q with
  | case1 | case2 => rfl
  | case3 now rest ih => exact ih h
  | case4 | case5 => rcases h with h | ⟨h, -⟩ <;> cases h
  | case6 now ms rest now' hw ih => exact ih h
  | case7 now ms rest hw =>
    obtain ⟨-, rfl⟩ := h.resolve_left Reading.noConfusion
    cases hw
  | case8 now moment rest now' hw ih => exact ih h
  | case9 now moment rest hw =>
    obtain ⟨-, rfl⟩ := h.resolve_left Reading.noConfusion
    cases hw

theorem waitFor?_giveUp {now moment : Nat} {limit : Option Nat}
    (h : waitFor? now moment limit = none) : waitFor? (giveUp now limit) moment limit = none := by
  cases limit with
  | none => cases h
  | some limit =>
    rw [waitFor?, giveUp, Nat.max_assoc, Nat.max_self]
    rw [waitFor?] at h
    split at h
    · cases h
    · next hm => exact if_neg hm

/-- A read that has been given up is given up again. -/
theorem readQueue_again {limit : Option Nat} {ended : Bool} {now : Nat} {q : List Arrival}
    (h : (readQueue limit ended now q).1 = .waiting) :
    (readQueue limit ended (readQueue limit ended now q).2.1
      (readQueue limit ended now q).2.2).1 = .waiting := by
  fun_induction readQueue limit ended now q with
  | case1 => cases h
  | case2 now he => rw [readQueue, if_neg he]
  | case3 now rest ih => exact ih h
  | case4 | case5 => cases h
  | case6 now ms rest now' hw ih => exact ih h
  | case7 now ms rest hw => rw [readQueue, waitFor?_giveUp hw]
  | case8 now moment rest now' hw ih => exact ih h
  | case9 now moment rest hw => rw [readQueue, waitFor?_giveUp hw]

variable (l : Line)

theorem onWay_read (limit : Option Nat) :
    l.onWay = (l.read limit).1.payload ++ (l.read limit).2.onWay :=
  readQueue_payload limit l.ended l.now l.inbound

theorem onWay_read_rest (limit : Option Nat) (h : (l.read limit).1 = .ended ∨
    (l.read limit).1 = .waiting ∧ limit = none) : (l.read limit).2.onWay = [] :=
  congrArg (List.flatMap Arrival.payload) (readQueue_rest h)

theorem read_again (limit : Option Nat) (h : (l.read limit).1 = .waiting) :
    ((l.read limit).2.read limit).1 = .waiting :=
  readQueue_again h

theorem onWay_arrive (a : Arrival) : (l.arrive a).onWay = l.onWay ++ a.payload := by
  rw [onWay, arrive, List.flatMap_append, List.flatMap_singleton]
  rfl

def writable : Bool := l.writeFault.isNone && !l.closed

theorem writeFrame_kept (bytes : List UInt8) :
    (l.writeFrame bytes).2.frame = l.frame ∧ (l.writeFrame bytes).2.writable = l.writable := by
  unfold writeFrame
  split <;> exact ⟨rfl, rfl⟩

theorem sendRaw_kept (bytes : List UInt8) :
    (l.sendRaw bytes).2.frame = l.frame ∧ (l.sendRaw bytes).2.writable = l.writable := by
  unfold sendRaw
  split
  · exact ⟨rfl, rfl⟩
  · split
    · exact ⟨rfl, rfl⟩
    · exact l.writeFrame_kept bytes

end Line

namespace Connection

/-- The bytes that are not decoded, read or not. -/
def undecoded (c : Connection) : List UInt8 := c.buffer ++ c.line.onWay

def drained (c : Connection) : Connection :=
  { c with
    stream := (c.stream.drain c.buffer).1, buffer := []
    pending := c.pending ++ (c.stream.drain c.buffer).2 }

/-- From `c` to `d` the inputs have been put to the stream and the events have been handed out. -/
structure Feeds (c : Connection) (is : List Stream.Input) (events : List TerminalEvent)
    (d : Connection) : Prop where
  received : ∃ taken, c.line.onWay = taken ++ d.line.onWay ∧
    c.buffer ++ taken = Stream.Input.bytes is ++ d.buffer
  stream : ∃ r, (c.stream.feed is).1 = d.stream.owing r
  events : events ++ d.pending = c.pending ++ (c.stream.feed is).2

variable {c d e : Connection} {is js : List Stream.Input} {es fs : List TerminalEvent}

theorem Feeds.bytes (h : c.Feeds is es d) :
    c.undecoded = Stream.Input.bytes is ++ d.undecoded := by
  obtain ⟨taken, hline, hbuffer⟩ := h.received
  rw [undecoded, hline, ← List.append_assoc, hbuffer, List.append_assoc]
  rfl

theorem Feeds.trans (h : c.Feeds is es d) (k : d.Feeds js fs e) :
    c.Feeds (is ++ js) (es ++ fs) e := by
  obtain ⟨taken, hline, hbuffer⟩ := h.received
  obtain ⟨taken', hline', hbuffer'⟩ := k.received
  obtain ⟨r, hr⟩ := h.stream
  obtain ⟨r', hr'⟩ := k.stream
  refine ⟨⟨taken ++ taken', ?_, ?_⟩, ⟨r ++ r', ?_⟩, ?_⟩
  · rw [hline, hline', List.append_assoc]
  · rw [← List.append_assoc, hbuffer, List.append_assoc, hbuffer', Stream.Input.bytes_append,
      List.append_assoc]
  · rw [Stream.feed_append, hr, Stream.feed_owing, hr', Stream.owing_append]
  · rw [Stream.feed_append, hr, Stream.feed_owing, List.append_assoc, k.events,
      ← List.append_assoc, h.events, List.append_assoc]

theorem feeds_of_eq (hl : c.line.onWay = d.line.onWay) (hb : c.buffer = d.buffer)
    (hs : c.stream = d.stream) (hp : es ++ d.pending = c.pending) : c.Feeds [] es d where
  received := ⟨[], hl, (List.append_nil _).trans hb⟩
  stream := ⟨[], hs⟩
  events := by rw [hp]; exact (List.append_nil _).symm

theorem Feeds.refl (c : Connection) : c.Feeds [] [] c := feeds_of_eq rfl rfl rfl rfl

section Steps

variable (c)

theorem onWay_flushReplies : c.flushReplies.2.line.onWay = c.line.onWay := by
  rw [Line.onWay, Line.onWay, inbound_flushReplies]

theorem feeds_flushReplies : c.Feeds [] [] c.flushReplies.2 where
  received := ⟨[], c.onWay_flushReplies.symm, List.append_nil _⟩
  -- The replies that have left are those that the stream would still owe.
  stream := ⟨c.stream.takeReplies.1, (c.stream.owing_takeReplies).symm⟩
  events := (List.append_nil _).symm

theorem feeds_fill (limit : Option Nat) : c.Feeds [] [] (c.fill limit).2 := by
  have h := c.line.onWay_read limit
  unfold fill
  split
  · next bs line hr =>
    rw [hr] at h
    exact ⟨⟨bs, h, rfl⟩, ⟨[], rfl⟩, (List.append_nil _).symm⟩
  · next r line hn hr =>
    rw [hr] at h
    refine feeds_of_eq ?_ rfl rfl rfl
    cases r with
    | bytes bs => exact absurd rfl (hn bs)
    | _ => exact h

theorem feeds_decode (hp : c.pending = []) :
    ∃ read : List UInt8, c.Feeds (read.map .byte) c.decode.1.toList c.decode.2 := by
  obtain ⟨read, hr, hd⟩ := c.stream.exists_read c.buffer
  refine ⟨read, ⟨[], rfl, ?_⟩, ⟨[], ?_⟩, ?_⟩
  · rw [Stream.Input.bytes_map_byte, List.append_nil]
    exact hr
  · rw [Stream.feed_bytes, hd]
    rfl
  · rw [Stream.feed_bytes, hd, show c.decode.2.pending = [] from hp, hp, List.append_nil]
    rfl

theorem feeds_decodeBuffered : c.Feeds (c.buffer.map .byte) [] c.decodeBuffered.2 := by
  have hd : c.Feeds (c.buffer.map .byte) [] c.drained := by
    refine ⟨⟨[], rfl, ?_⟩, ⟨[], ?_⟩, ?_⟩
    · rw [Stream.Input.bytes_map_byte]
      rfl
    · rw [Stream.feed_bytes]
      rfl
    · rw [Stream.feed_bytes]
      rfl
  have h := hd.trans c.drained.feeds_flushReplies
  rw [List.append_nil] at h
  exact h

theorem feeds_endOfStream : c.Feeds (c.buffer.map .byte ++ [.finish]) [] c.endOfStream := by
  refine ⟨⟨[], rfl, ?_⟩, ⟨[], ?_⟩, ?_⟩
  · rw [Stream.Input.bytes_append, Stream.Input.bytes_map_byte, List.append_assoc]
    rfl
  · rw [Stream.feed_append, Stream.feed_bytes]
    rfl
  · rw [Stream.feed_append, Stream.feed_bytes]
    exact congrArg (c.pending ++ ·) (List.append_nil _).symm

theorem feeds_wish (name : String) (side : Telnet.Side) :
    c.Feeds [.wish name side] [] { c with stream := c.stream.wish name side } where
  received := ⟨[], rfl, List.append_nil _⟩
  stream := ⟨[], rfl⟩
  events := (List.append_nil _).symm

end Steps

end Connection

end VatTerminal.Client
