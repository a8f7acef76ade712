import VatTerminal.Proofs.Frame.RoundTrip
import VatTerminal.Proofs.Instruction.Spelling
import VatTerminal.Proofs.Stream.Chunks

/-! # Instructions that are written and read

Instructions that are written as data and quoted for the line are read back as
they were, however the bytes are cut into chunks. A stream that was in the
middle of nothing is so again, and nothing else has come of the bytes.
-/

namespace VatTerminal

namespace Stream

structure AtRest (s : Stream) : Prop where
  framing : s.telnet.framing = .plain
  parser : s.parser = .ground

variable {s : Stream}

theorem drain_data (hs : s.telnet.framing = .plain) (b : UInt8) :
    s.drain (Telnet.Frame.data b).encode =
      ({ s with parser := (s.parser.push b).1 },
        ((s.parser.push b).2.map .instruction).toList) := by
  have hplain : { s.telnet with framing := .plain } = s.telnet := by rw [← hs]
  by_cases hb : b = Telnet.iac
  · subst hb
    simp [Telnet.Frame.encode, drain, step, Telnet.Endpoint.step, hs, Telnet.Escaped.ofByte_iac,
      hplain, accept]
  · simp [Telnet.Frame.encode, drain, step, Telnet.Endpoint.step, hs, hb, accept]

theorem drain_encodeData (hs : s.telnet.framing = .plain) (bytes : List UInt8) :
    s.drain (Telnet.encodeData bytes) =
      ({ s with parser := (s.parser.run bytes).1 },
        (s.parser.run bytes).2.map .instruction) := by
  induction bytes generalizing s with
  | nil => rfl
  | cons b bs ih =>
    have hb := drain_data hs b
    have hrest := ih (s := { s with parser := (s.parser.push b).1 }) hs
    rw [Telnet.encodeData, List.flatMap_cons, drain_append, hb, ← Telnet.encodeData, hrest,
      Parser.run_cons, Parser.goOn]
    cases (s.parser.push b).2 <;> simp

theorem AtRest.drain_spellings (hs : s.AtRest) {is : List Instruction}
    {spellings : List (List UInt8)} (hw : ∀ i ∈ is, i.Writable)
    (h : List.Forall₂ Instruction.Spells is spellings) :
    s.drain (Telnet.encodeData spellings.flatten) = (s, is.map .instruction) := by
  have hground : { s with parser := .ground } = s := by rw [← hs.parser]
  rw [drain_encodeData hs.framing, hs.parser, Parser.run_spellings hw h, hground]

end Stream

namespace Intake

/-- Whatever spellings are chosen, and in whatever chunks they arrive, the instructions that were
written are the events that come of them. The stream is as it was, but for replies that have been
taken meanwhile. -/
theorem run_spelled {s : Stream} (hs : s.AtRest) {is : List Instruction}
    (hw : ∀ i ∈ is, i.Writable) {spellings : List (List UInt8)}
    (h : List.Forall₂ Instruction.Spells is spellings) {acts : List Act}
    (ha : arrivals acts = Telnet.encodeData spellings.flatten) :
    let x := ({ stream := s } : Intake).run (acts ++ [.drain])
    x.events = is.map .instruction ∧ x.buffer = [] ∧ x.stream.AtRest ∧
      x.stream.owing x.taken = s := by
  intro x
  have hx : x = (({ stream := s } : Intake).run acts).act .drain := by
    simp [x, run]
  have hbuf : x.buffer = [] := by rw [hx]; rfl
  have hout : x.outcome = (s, is.map .instruction) := by
    rw [hx, outcome_drain, outcome_run, ha]
    simp [outcome, Stream.drain, hs.drain_spellings hw h]
  rw [outcome, hbuf, Stream.drain, Prod.mk.injEq, List.append_nil] at hout
  obtain ⟨hstream, hevents⟩ := hout
  refine ⟨hevents, hbuf, ⟨?_, ?_⟩, hstream⟩
  · rw [← hs.framing, ← hstream]
    rfl
  · rw [← hs.parser, ← hstream]
    rfl

/-- Opcodes, fillers and printed bytes that could be taken for one another. -/
def mixed : List Instruction :=
  [.print 255, .position 92 4095, .graphics 93, .unknown 27, .print 32, .bell, .unknown 255,
    .scroll 0 4095 223 2 1, .printerCommand 51, .carriageReturn]

def mixedSpellings : List (List UInt8) :=
  [[255], [27, 32, 124, 30, 95, 95], [27, 42, 27, 30, 33, 61, 255], [27, 27], [32], [7], [27, 255],
    [27, 53, 32, 30, 95, 95, 30, 35, 63, 34, 33], [27, 51], [13]]

/-- Chunks that end in a quoted byte and in a number, with replies taken in between. -/
def mixedActs : List Act :=
  [.arrive [255], .decode, .arrive [255, 27, 32, 124, 30], .drain, .take, .arrive [95], .arrive [],
    .decode, .arrive [95, 27, 42, 27, 30, 33, 61, 255, 255, 27, 27, 32, 7, 27, 255], .drain,
    .arrive [255, 27, 53, 32, 30, 95, 95, 30, 35, 63, 34, 33, 27, 51, 13]]

theorem run_spelled_mixed :
    (∀ i ∈ mixed, i.Writable) ∧ List.Forall₂ Instruction.Spells mixed mixedSpellings ∧
      arrivals mixedActs = Telnet.encodeData mixedSpellings.flatten ∧
      (({ stream := {} } : Intake).run (mixedActs ++ [.drain])).events =
        mixed.map .instruction := by
  have hw : ∀ i ∈ mixed, i.Writable := by decide
  have h : List.Forall₂ Instruction.Spells mixed mixedSpellings := by
    refine .cons ⟨0, 0, rfl⟩ (.cons ⟨0, 0, rfl⟩ (.cons ⟨27, 255, rfl⟩ ?_))
    repeat' first | exact .nil | refine .cons ⟨0, 0, rfl⟩ ?_
  have ha : arrivals mixedActs = Telnet.encodeData mixedSpellings.flatten := by decide
  exact ⟨hw, h, ha, (run_spelled ⟨rfl, rfl⟩ hw h ha).1⟩

end Intake

end VatTerminal
