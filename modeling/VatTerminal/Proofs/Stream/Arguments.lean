import VatTerminal.Proofs.Stream.Inputs
import VatTerminal.Proofs.Stream.RoundTrip

/-! # Commands in the stream

Behind an escape and an opcode the stream hands out the instruction exactly with
the byte that completes its arguments when they are read at once. Whatever else
is put to it, a command that is being read has lost none of its numbers, and no
field of an instruction stands for a number that was not read.
-/

namespace VatTerminal

namespace Instruction

variable {op : UInt8}

theorem spelling_of_bare (h : layout op = []) (before after : UInt8) :
    (ofOpcode op []).spelling before after = .command op [] := by
  by_cases hop : op ∈ Opcode.assigned
  · simp only [Opcode.assigned, List.mem_cons, List.not_mem_nil, or_false] at hop
    rcases hop with rfl | rfl | rfl | rfl | rfl | rfl | rfl | rfl | rfl | rfl | rfl | rfl | rfl |
      rfl | rfl | rfl | rfl | rfl | rfl | rfl
    all_goals first | rfl | cases h
  · rw [ofOpcode_of_not_assigned hop]
    rfl

/-- The numbers that an opcode asks for are the operands of the instruction it makes of them. -/
theorem spelling_ofOpcode {xs : List Int} (h : xs.length = (layout op).count .number)
    (before after : UInt8) :
    ∃ os, (ofOpcode op xs).spelling before after = .command op os ∧
      os.map Operand.kind = layout op ∧ os.filterMap Operand.number? = xs := by
  by_cases hpair : op = Opcode.position ∨ op = Opcode.setWindow ∨ op = Opcode.setBug
  · have hl : layout op = [.number, .number] := if_pos hpair
    rw [hl] at h ⊢
    obtain ⟨x, y, rfl⟩ := List.length_eq_two.mp h
    refine ⟨[.number x, .number y], ?_, rfl, rfl⟩
    rcases hpair with rfl | rfl | rfl <;> rfl
  by_cases hblanks : op = Opcode.writeBlanks
  · subst hblanks
    obtain ⟨x, rfl⟩ := List.length_eq_one_iff.mp h
    exact ⟨[.number x], rfl, rfl, rfl⟩
  by_cases hgraphics : op = Opcode.graphics
  · subst hgraphics
    obtain ⟨x, rfl⟩ := List.length_eq_one_iff.mp h
    exact ⟨[.filler before, .number x, .filler after], rfl, rfl, rfl⟩
  by_cases hscroll : op = Opcode.scroll
  · subst hscroll
    replace h : xs.length = 5 := h
    obtain ⟨l, r, t, b, n, rfl⟩ : ∃ l r t b n, xs = [l, r, t, b, n] := by
      rcases xs with _ | ⟨l, _ | ⟨r, _ | ⟨t, _ | ⟨b, _ | ⟨n, _ | ⟨m, ms⟩⟩⟩⟩⟩⟩
      case cons.cons.cons.cons.cons.nil => exact ⟨l, r, t, b, n, rfl⟩
      all_goals simp at h
    exact ⟨[.number l, .number r, .number t, .number b, .number n], rfl, rfl, rfl⟩
  have hbare : layout op = [] := by
    simp [layout, hpair, hblanks, hgraphics, hscroll]
  rw [hbare] at h ⊢
  obtain rfl : xs = [] := List.length_eq_zero_iff.mp h
  exact ⟨[], spelling_of_bare hbare before after, rfl, rfl⟩

end Instruction

namespace Stream

open Telnet (encodeData)

variable {s : Stream}

theorem decode_data (hs : s.telnet.framing = .plain) (b : UInt8) (rest : List UInt8) :
    s.decode ((Telnet.Frame.data b).encode ++ rest) =
      match s.parser.push b with
      | (parser, none) => { s with parser }.decode rest
      | (parser, some i) => ({ s with parser }, some (.instruction i), rest) := by
  have hplain : { s.telnet with framing := .plain } = s.telnet := by rw [← hs]
  by_cases hb : b = Telnet.iac
  · subst hb
    rcases hp : s.parser.push Telnet.iac with ⟨p, _ | i⟩ <;>
      simp [Telnet.Frame.encode, decode, step, Telnet.Endpoint.step, hs,
        Telnet.Escaped.ofByte_iac, hplain, accept, hp]
  · rcases hp : s.parser.push b with ⟨p, _ | i⟩ <;>
      simp [Telnet.Frame.encode, decode, step, Telnet.Endpoint.step, hs, hb, accept, hp]

theorem decode_encodeData (hs : s.telnet.framing = .plain) (bytes : List UInt8) :
    s.decode (encodeData bytes) =
      match s.parser.decode bytes with
      | (parser, none, _) => ({ s with parser }, none, [])
      | (parser, some i, rest) => ({ s with parser }, some (.instruction i), encodeData rest) := by
  induction bytes generalizing s with
  | nil => rfl
  | cons b bs ih =>
    rw [encodeData, List.flatMap_cons, decode_data hs, ← encodeData, Parser.decode_cons]
    rcases s.parser.push b with ⟨p, _ | i⟩
    · exact ih (s := { s with parser := p }) hs
    · rfl

theorem sound_feed (h : s.parser.Sound) (inputs : List Input) :
    (s.feed inputs).1.parser.Sound := by
  have hk : Parser.Keeps Parser.Sound fun _ => True := {
    ground := by rintro c ⟨⟩
    push := fun p b hp => ⟨hp.push b, fun _ _ => trivial⟩ }
  exact (feed_keeps hk h inputs).1

/-- Behind an escape and an opcode the instruction is there with the byte with which the arguments
of the layout can be read at once, and not before. It is the one that is written with the opcode, and
its operands are the numbers read, in order. What follows is left untouched. This is so of the bytes
of data alone and of the stream they are quoted in. Wherever a stream is in the middle of a command,
an argument is missing, each number before it is stored, and for the next one there is room. -/
theorem decode_command {op : UInt8} (hop : op ≠ Control.pad) (bytes : List UInt8) :
    (match Instruction.readArguments (Instruction.layout op) bytes with
      | none => ∃ c : PendingCommand,
          Parser.ground.decode (Control.escape :: op :: bytes) = (.arguments c, none, []) ∧
            ∀ s : Stream, s.AtRest → s.decode (encodeData (Control.escape :: op :: bytes)) =
              ({ s with parser := .arguments c }, none, [])
      | some (xs, rest) =>
          (∀ before after, ∃ os,
            (Instruction.ofOpcode op xs).spelling before after = .command op os ∧
              os.map Operand.kind = Instruction.layout op ∧ os.filterMap Operand.number? = xs) ∧
          Parser.ground.decode (Control.escape :: op :: bytes) =
            (.ground, some (Instruction.ofOpcode op xs), rest) ∧
          ∀ s : Stream, s.AtRest → s.decode (encodeData (Control.escape :: op :: bytes)) =
            (s, some (.instruction (Instruction.ofOpcode op xs)), encodeData rest)) ∧
    ∀ (s : Stream) (inputs : List Input) (c : PendingCommand), s.parser = .ground →
      (s.feed inputs).1.parser = .arguments c →
        c.read < (Instruction.layout c.opcode).length ∧
        c.numbers.length = ((Instruction.layout c.opcode).take c.read).count .number ∧
        ((Instruction.layout c.opcode)[c.read]? = some .number →
          ∀ x, c.store x = c.numbers ++ [x]) := by
  have hread := Parser.decode_opcode hop bytes
  constructor
  · split
    · next h =>
      rw [h] at hread
      obtain ⟨c, hc⟩ := hread
      refine ⟨c, hc, fun s hs => ?_⟩
      rw [decode_encodeData hs.framing, hs.parser, hc]
    · next xs rest h =>
      rw [h] at hread
      refine ⟨Instruction.spelling_ofOpcode (Instruction.length_of_readArguments h), hread, ?_⟩
      intro s hs
      have hground : { s with parser := .ground } = s := by rw [← hs.parser]
      rw [decode_encodeData hs.framing, hs.parser, hread]
      simp only [hground]
  · intro s inputs c hs hc
    have hground : s.parser.Sound := by
      rw [hs]
      rintro c ⟨⟩
    have hsound : c.Sound := sound_feed hground inputs c hc
    exact ⟨hsound.unfinished, hsound.aligned, fun hn => hsound.aligned.store_eq hn⟩

/-- A count in the wide form between two bytes that are skipped, the first of which could be taken
for an escape and the second for a quote. Without the second the command is still being read. -/
theorem decode_command_graphics :
    Opcode.graphics ≠ Control.pad ∧
      ({} : Stream).decode (encodeData [27, 42, 27, 30, 33, 61, 255, 65]) =
        ({}, some (.instruction (.graphics 93)), [65]) ∧
      (∃ c : PendingCommand, ({} : Stream).decode (encodeData [27, 42, 27, 30, 33, 61]) =
        ({ parser := .arguments c }, none, [])) ∧
      ∃ c : PendingCommand,
        (({} : Stream).feed ([27, 42, 27, 30, 33, 61].map .byte)).1.parser = .arguments c ∧
          c.read < 3 ∧ c.numbers.length = 1 := by
  have hop : Opcode.graphics ≠ Control.pad := by decide
  obtain ⟨⟨-, -, hall⟩, -⟩ := decode_command hop [27, 30, 33, 61, 255, 65]
  obtain ⟨⟨c, -, hpart⟩, hstored⟩ := decode_command hop [27, 30, 33, 61]
  have hpending : (({} : Stream).feed ([27, 42, 27, 30, 33, 61].map .byte)).1.parser =
      .arguments { opcode := 42, read := 2, numbers := [93] } := by decide
  obtain ⟨hlt, hcount, -⟩ := hstored {} ([27, 42, 27, 30, 33, 61].map .byte) _ rfl hpending
  exact ⟨hop, hall {} ⟨rfl, rfl⟩, ⟨c, hpart {} ⟨rfl, rfl⟩⟩, _, hpending, hlt, hcount⟩

end Stream

end VatTerminal
