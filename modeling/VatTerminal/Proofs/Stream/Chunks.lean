import VatTerminal.Proofs.Stream.Drain

/-! # Reading in chunks

However the bytes of a host are cut into chunks, and whenever events are
called for and replies are taken in between, the events, the replies and the
state of the stream come out as if all bytes had been read at once.
-/

namespace VatTerminal

/-- A stream that is read through a buffer, with what has come of it so far. -/
structure Intake where
  stream : Stream
  buffer : List UInt8 := []
  events : List TerminalEvent := []
  taken : List UInt8 := []
  deriving DecidableEq

namespace Intake

inductive Act where
  | arrive (chunk : List UInt8)
  | decode
  | drain
  | take
  deriving DecidableEq

def act (x : Intake) : Act → Intake
  | .arrive chunk => { x with buffer := x.buffer ++ chunk }
  | .decode =>
    let (stream, event, buffer) := x.stream.decode x.buffer
    { x with stream, buffer, events := x.events ++ event.toList }
  | .drain =>
    let (stream, events) := x.stream.decodeAll x.buffer
    { x with stream, buffer := [], events := x.events ++ events }
  | .take =>
    let (replies, stream) := x.stream.takeReplies
    { x with stream, taken := x.taken ++ replies }

def run (x : Intake) (acts : List Act) : Intake := acts.foldl act x

def arrivals : List Act → List UInt8
  | [] => []
  | .arrive chunk :: acts => chunk ++ arrivals acts
  | _ :: acts => arrivals acts

/-- What will have come of the stream when the buffer has been drained, the replies that have been
taken put back. -/
def outcome (x : Intake) : Stream × List TerminalEvent :=
  ((x.stream.drain x.buffer).1.owing x.taken, x.events ++ (x.stream.drain x.buffer).2)

theorem outcome_arrive (x : Intake) (chunk : List UInt8) :
    (x.act (.arrive chunk)).outcome =
      ((x.outcome.1.drain chunk).1, x.outcome.2 ++ (x.outcome.1.drain chunk).2) := by
  simp only [outcome, act, Stream.drain_append, Stream.drain_owing, List.append_assoc]

theorem outcome_decode (x : Intake) : (x.act .decode).outcome = x.outcome := by
  rw [outcome, outcome, Stream.drain_eq_decode x.stream x.buffer]
  simp only [act, List.append_assoc]

theorem outcome_drain (x : Intake) : (x.act .drain).outcome = x.outcome := by
  simp only [outcome, act, Stream.decodeAll_eq_drain, Stream.drain, List.append_nil]

theorem outcome_take (x : Intake) : (x.act .take).outcome = x.outcome := by
  have h := Stream.drain_owing x.stream.takeReplies.2 x.stream.takeReplies.1 x.buffer
  rw [Stream.owing_takeReplies] at h
  simp only [outcome, act, Stream.owing_append, h]

theorem outcome_run (x : Intake) (acts : List Act) :
    (x.run acts).outcome = ((x.outcome.1.drain (arrivals acts)).1,
      x.outcome.2 ++ (x.outcome.1.drain (arrivals acts)).2) := by
  induction acts generalizing x with
  | nil => simp [run, arrivals, Stream.drain]
  | cons m ms ih =>
    -- Only an arrival changes the outcome, by what it adds at the end.
    refine (ih (x.act m)).trans ?_
    cases m with
    | arrive chunk =>
      simp only [outcome_arrive, arrivals, Stream.drain_append, List.append_assoc]
    | decode => rw [outcome_decode]; rfl
    | drain => rw [outcome_drain]; rfl
    | take => rw [outcome_take]; rfl

/-- Chunks, calls for events and the taking of replies in any order, with a last call for all that
is left, come to the same as decoding all bytes at once. A call that gives an event has read
something, and one that gives none has read all. -/
theorem run_eq_decodeAll (s : Stream) (acts : List Act) :
    let x := ({ stream := s } : Intake).run (acts ++ [.drain])
    let whole := s.decodeAll (arrivals acts)
    x.buffer = [] ∧ x.events = whole.2 ∧ x.taken ++ x.stream.replies = whole.1.replies ∧
      x.stream.takeReplies.2 = whole.1.takeReplies.2 ∧
      ∀ (t : Stream) (buffer : List UInt8),
        match t.decode buffer with
        | (_, some _, rest) => ∃ read, read ≠ [] ∧ buffer = read ++ rest
        | (_, none, rest) => rest = [] := by
  intro x whole
  have hx : x = (({ stream := s } : Intake).run acts).act .drain := by
    simp [x, run]
  have hout : x.outcome = whole := by
    rw [hx, outcome_drain, outcome_run]
    simp [outcome, Stream.drain, whole, Stream.decodeAll_eq_drain]
  have hbuf : x.buffer = [] := by rw [hx]; rfl
  have hstream : x.stream.owing x.taken = whole.1 := by
    rw [← hout, outcome, hbuf]
    rfl
  refine ⟨hbuf, ?_, ?_, ?_, ?_⟩
  · rw [← hout, outcome, hbuf]
    simp [Stream.drain]
  · rw [← hstream, Stream.replies_owing]
  · rw [← hstream, Stream.takeReplies_owing]
  · intro t buffer
    exact t.decode_progress buffer

end Intake

end VatTerminal
