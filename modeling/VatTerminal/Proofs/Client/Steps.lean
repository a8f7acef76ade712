import VatTerminal.Proofs.Client.Order
import VatTerminal.Proofs.Negotiation.Decisions

/-! # The steps of a connection

Every call of a connection is made of a few steps, and between two of them
others may write to the line. A step puts something to the Telnet endpoint and
makes events of the bytes that it decodes. When a call has come to its end, no
reply waits to be written.
-/

namespace VatTerminal

theorem Stream.telnet_drain_eq_run (s : Stream) (bytes : List UInt8) :
    (s.drain bytes).1.telnet = s.telnet.run (bytes.map .byte) := by
  induction bytes generalizing s with
  | nil => rfl
  | cons b bs ih =>
    have hrest := ih (s.step b).1
    rw [telnet_step] at hrest
    exact hrest

namespace Client.Connection

open Telnet (Endpoint Side)

inductive Step where
  | request (name : String) (side : Side) (enable : Bool)
  | decode
  | keep
  | flush
  | fill (limit : Option Nat)
  | finish
  | take
  | close
  deriving DecidableEq

def step (c : Connection) : Step → Connection
  | .request name side enable =>
    c.setTelnet (c.stream.telnet.input (.request name side enable))
  | .decode => c.decode.2
  | .keep =>
    { c with
      stream := (c.stream.drain c.buffer).1, buffer := []
      pending := c.pending ++ (c.stream.drain c.buffer).2 }
  | .flush => c.flushReplies.2
  | .fill limit => (c.fill limit).2
  | .finish => c.endOfStream
  | .take => { c with pending := c.pending.tail }
  | .close => { c with phase := .closed }

/-- What a step puts to the endpoint: a request, or the bytes that it decodes. -/
def puts (c : Connection) : Step → List Endpoint.Input
  | .request name side enable => [.request name side enable]
  | .decode => (c.buffer.take (c.buffer.length - c.decode.2.buffer.length)).map .byte
  | .keep | .finish => c.buffer.map .byte
  | .flush | .fill _ | .take | .close => []

def reads (c : Connection) : Step → List UInt8
  | .decode => c.buffer.take (c.buffer.length - c.decode.2.buffer.length)
  | .keep | .finish => c.buffer
  | .request _ _ _ | .flush | .fill _ | .take | .close => []

/-- The events that a step makes, whether they are handed out or kept. -/
def raises (c : Connection) : Step → List TerminalEvent
  | .decode => c.decode.1.toList
  | .keep | .finish => (c.stream.drain c.buffer).2
  | .request _ _ _ | .flush | .fill _ | .take | .close => []

def Step.IsRequest : Step → Prop
  | .request _ _ _ => True
  | .decode | .keep | .flush | .fill _ | .finish | .take | .close => False

theorem stream_fill (c : Connection) (limit : Option Nat) :
    (c.fill limit).2.stream = c.stream := by
  unfold fill
  split <;> rfl

theorem line_fill (c : Connection) (limit : Option Nat) :
    (c.fill limit).2.line = (c.line.read limit).2 := by
  unfold fill
  split
  · next h => rw [h]
  · next h => rw [h]

section Step

variable (c : Connection)

/-- What is decoded leaves the buffer at its front, and holds no other event. -/
theorem drain_reads_decode :
    c.buffer = c.reads .decode ++ c.decode.2.buffer ∧
      c.stream.drain (c.reads .decode) = (c.decode.2.stream, c.decode.1.toList) := by
  obtain ⟨read, hr, hd⟩ := c.stream.exists_read c.buffer
  have hread : c.reads .decode = read := by
    have hlen : c.buffer.length - c.decode.2.buffer.length = read.length := by
      have hsum := congrArg List.length hr
      rw [List.length_append] at hsum
      show c.buffer.length - (c.stream.decode c.buffer).2.2.length = read.length
      omega
    rw [reads, hlen]
    exact hr ▸ List.take_left
  rw [hread]
  exact ⟨hr, hd⟩

theorem raises_eq (s : Step) : c.raises s = (c.stream.drain (c.reads s)).2 := by
  cases s with
  | decode => rw [c.drain_reads_decode.2, raises]
  | _ => rfl

theorem puts_of_not_isRequest {s : Step} (hs : ¬ s.IsRequest) :
    c.puts s = (c.reads s).map .byte := by
  cases s with
  | request name side enable => exact absurd trivial hs
  | _ => rfl

/-- Only a flush takes replies away. Otherwise the endpoint goes on with what is put to it. -/
theorem telnet_step {s : Step} (hs : s ≠ .flush) :
    (c.step s).stream.telnet = c.stream.telnet.run (c.puts s) := by
  cases s with
  | request name side enable => rfl
  | decode =>
    rw [puts_of_not_isRequest c id, ← Stream.telnet_drain_eq_run, c.drain_reads_decode.2]
    rfl
  | keep => exact c.stream.telnet_drain_eq_run c.buffer
  | flush => exact absurd rfl hs
  | fill limit => exact congrArg Stream.telnet (c.stream_fill limit)
  | finish => exact c.stream.telnet_drain_eq_run c.buffer
  | take => rfl
  | close => rfl

theorem undecoded_step (s : Step) : c.undecoded = c.reads s ++ (c.step s).undecoded := by
  cases s with
  | decode =>
    show c.buffer ++ c.line.onWay = c.reads .decode ++ (c.decode.2.buffer ++ c.line.onWay)
    rw [← List.append_assoc, ← c.drain_reads_decode.1]
  | flush => exact c.feeds_flushReplies.bytes
  | fill limit => exact (c.feeds_fill limit).bytes
  | _ => rfl

end Step

section Replies

variable {c d : Connection} {name : String} {side : Side} {deadline : Nat} {limit : Option Nat}

theorem replies_of_flush {r : Except Error Unit} (h : c.flushReplies = (r, d)) :
    d.stream.replies = [] := by
  have hf : c.flushReplies.2.stream.replies = [] := rfl
  rwa [h] at hf

theorem replies_endOfStream (hb : c.buffer = []) (h : c.stream.replies = []) :
    c.endOfStream.stream.replies = [] := by
  unfold endOfStream
  rw [hb]
  exact h

theorem stream_of_fill {r : Reading} (h : c.fill limit = (r, d)) : d.stream = c.stream := by
  have hs := c.stream_fill limit
  rwa [h] at hs

theorem replies_of_fill {r : Reading} (h : c.fill limit = (r, d)) (hc : c.stream.replies = []) :
    d.stream.replies = [] := by
  rw [stream_of_fill h]
  exact hc

theorem Turn.replies {r : Option Next} (h : Turn c limit r d) (hc : c.stream.replies = []) :
    d.stream.replies = [] := by
  cases h with
  | kept | closed | ended => exact hc
  | unsent _ _ hd | decoded _ _ hd _ => exact replies_of_flush hd
  | read _ _ hd _ hf | fault _ _ hd _ hf | waiting _ _ hd _ hf =>
    exact replies_of_fill hf (replies_of_flush hd)
  | met _ _ hd he hf =>
    exact replies_endOfStream (buffer_of_unread he hd hf rfl)
      (replies_of_fill hf (replies_of_flush hd))

theorem replies_next (limit : Option Nat) (hc : c.stream.replies = []) :
    (c.next limit).2.stream.replies = [] :=
  c.next_induction (R := fun c x => c.stream.replies = [] → x.2.stream.replies = []) Turn.replies
    (fun ht ih hc => ih (ht.replies hc)) hc

theorem replies_of_decodeBuffered {r : Except Error Unit} (h : c.decodeBuffered = (r, d)) :
    d.stream.replies = [] := by
  have hr : c.decodeBuffered.2.stream.replies = [] := rfl
  rwa [h] at hr

theorem SettleTurn.replies {r : Option (Except Error Bool)}
    (h : SettleTurn c name side deadline r d) : d.stream.replies = [] := by
  cases h with
  | unsent hd | enabled hd _ | disabled hd _ => exact replies_of_decodeBuffered hd
  | read hd _ hf | fault hd _ hf | waiting hd _ hf =>
    exact replies_of_fill hf (replies_of_decodeBuffered hd)
  | met hd _ hf =>
    have hb := ((kept_of_fill hf).2 rfl).trans (buffer_of_decodeBuffered hd)
    exact replies_endOfStream hb (replies_of_fill hf (replies_of_decodeBuffered hd))

theorem replies_awaitSettled (c : Connection) (name : String) (side : Side) (deadline : Nat) :
    (c.awaitSettled name side deadline).2.stream.replies = [] :=
  c.awaitSettled_induction (R := fun _ x => x.2.stream.replies = []) SettleTurn.replies
    fun _ ih => ih

theorem replies_negotiate (name : String) (side : Side) (hc : c.stream.replies = []) :
    (c.negotiate name side).2.stream.replies = [] := by
  unfold negotiate
  split
  · exact hc
  · split
    · exact hc
    · split
      · next hd => exact replies_of_flush hd
      · next d hd => exact replies_awaitSettled d _ _ _

theorem replies_negotiateOnConnect (c : Connection) :
    c.negotiateOnConnect.2.stream.replies = [] := by
  obtain ⟨telnet, hr, -⟩ := c.requestAll_options
  rw [negotiateOnConnect, hr]
  rfl

theorem replies_perform (k : Call) (hc : c.stream.replies = []) :
    (c.perform k).2.stream.replies = [] := by
  cases k with
  | next limit => exact replies_next limit hc
  | offer name => exact replies_negotiate name .localSide hc
  | ask name => exact replies_negotiate name .remoteSide hc
  | negotiateOnConnect => exact c.replies_negotiateOnConnect

end Replies

end Client.Connection

end VatTerminal
