import VatTerminal.Proofs.Stream.Drain

/-! # Everything that is put to a stream

A stream is told bytes, wishes for options, and once that there are no more
bytes. What comes of them depends on their order and on nothing else.
-/

namespace VatTerminal

/-- Something holds of a parser between commands and from byte to byte, and something follows of
each instruction that a byte completes. -/
structure Parser.Keeps (P : Parser → Prop) (Q : Instruction → Prop) : Prop where
  ground : P ground
  push : ∀ p b, P p → P (p.push b).1 ∧ ∀ i, (p.push b).2 = some i → Q i

namespace Stream

inductive Input where
  | byte (b : UInt8)
  | wish (name : String) (side : Telnet.Side)
  | finish
  deriving DecidableEq

/-- Wish for an option. Of a name that is not registered there is no wish. -/
def wish (s : Stream) (name : String) (side : Telnet.Side) : Stream :=
  match s.telnet.request name side true with
  | .error _ => s
  | .ok (telnet, _) => { s with telnet }

def input (s : Stream) : Input → Stream × Option TerminalEvent
  | .byte b => s.step b
  | .wish name side => (s.wish name side, none)
  | .finish => (s.abandon, none)

def feed (s : Stream) : List Input → Stream × List TerminalEvent
  | [] => (s, [])
  | i :: is =>
    let (s, event) := s.input i
    let (s, events) := s.feed is
    (s, event.toList ++ events)

def Input.bytes : List Input → List UInt8
  | [] => []
  | .byte b :: is => b :: bytes is
  | .wish _ _ :: is | .finish :: is => bytes is

namespace Input

@[simp] theorem bytes_append (is js : List Input) : bytes (is ++ js) = bytes is ++ bytes js := by
  induction is with
  | nil => rfl
  | cons i is ih => cases i <;> simp [bytes, ih]

@[simp] theorem bytes_map_byte (bs : List UInt8) : bytes (bs.map .byte) = bs := by
  induction bs with
  | nil => rfl
  | cons b bs ih => exact congrArg (b :: ·) ih

end Input

variable (s : Stream) (r : List UInt8)

theorem feed_append (is js : List Input) :
    s.feed (is ++ js) =
      (((s.feed is).1.feed js).1, (s.feed is).2 ++ ((s.feed is).1.feed js).2) := by
  induction is generalizing s with
  | nil => rfl
  | cons i is ih => simp only [List.cons_append, feed, ih, List.append_assoc]

theorem feed_bytes (bs : List UInt8) : s.feed (bs.map .byte) = s.drain bs := by
  induction bs generalizing s with
  | nil => rfl
  | cons b bs ih => simp only [List.map_cons, feed, input, ih, drain]

theorem owing_wish (name : String) (side : Telnet.Side) :
    (s.owing r).wish name side = (s.wish name side).owing r := by
  simp only [wish, Telnet.Endpoint.request, show (s.owing r).telnet = s.telnet.owing r from rfl,
    show (s.telnet.owing r).options = s.telnet.options from rfl]
  rcases s.telnet.options.request name side true with e | ⟨t, code, answer⟩
  · rfl
  · have h := Telnet.Endpoint.owing_reply { s.telnet with options := t } r code answer
    exact congrArg (fun telnet => { s with telnet }) h

theorem owing_input (i : Input) :
    (s.owing r).input i = ((s.input i).1.owing r, (s.input i).2) := by
  cases i with
  | byte b => exact s.owing_step r b
  | wish name side => exact congrArg (·, none) (s.owing_wish r name side)
  | finish => rfl

theorem feed_owing (is : List Input) :
    (s.owing r).feed is = ((s.feed is).1.owing r, (s.feed is).2) := by
  induction is generalizing s with
  | nil => rfl
  | cons i is ih => simp only [feed, owing_input, ih]

section Keeps

variable {P : Parser → Prop} {Q : Instruction → Prop} (hk : Parser.Keeps P Q) {s : Stream}
  (h : P s.parser)

include hk h

theorem step_keeps (b : UInt8) :
    P (s.step b).1.parser ∧ ∀ i, (s.step b).2 = some (.instruction i) → Q i := by
  rw [step]
  rcases s.telnet.step b with ⟨telnet, _ | e⟩
  · exact ⟨h, by rintro i ⟨⟩⟩
  · cases e with
    | data b =>
      obtain ⟨hp, hi⟩ := hk.push s.parser b h
      refine ⟨hp, fun i he => ?_⟩
      obtain ⟨j, hj, ⟨⟩⟩ := Option.map_eq_some_iff.mp he
      exact hi i hj
    -- Whatever else arrives abandons the command.
    | _ => exact ⟨hk.ground, by rintro i ⟨⟩⟩

theorem input_keeps (input : Input) :
    P (s.input input).1.parser ∧ ∀ i, (s.input input).2 = some (.instruction i) → Q i := by
  cases input with
  | byte b => exact step_keeps hk h b
  | wish name side =>
    refine ⟨?_, by rintro i ⟨⟩⟩
    simp only [Stream.input, wish]
    split <;> exact h
  | finish => exact ⟨hk.ground, by rintro i ⟨⟩⟩

/-- What holds of a parser from byte to byte holds of the parser of a stream, whatever is put to it,
and what that gives of an instruction is so of every instruction of the stream. -/
theorem feed_keeps (inputs : List Input) :
    P (s.feed inputs).1.parser ∧ ∀ i, .instruction i ∈ (s.feed inputs).2 → Q i := by
  induction inputs generalizing s with
  | nil => exact ⟨h, by rintro i ⟨⟩⟩
  | cons input inputs ih =>
    obtain ⟨hs, hmade⟩ := input_keeps hk h input
    obtain ⟨hf, hlater⟩ := ih hs
    refine ⟨hf, fun i hi => ?_⟩
    rcases List.mem_append.mp hi with hi | hi
    · exact hmade i (Option.mem_toList.mp hi)
    · exact hlater i hi

end Keeps

end Stream

end VatTerminal
