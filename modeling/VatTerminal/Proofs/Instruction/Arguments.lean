import VatTerminal.Instruction.Parser

/-! # Arguments byte by byte and at once

A parser takes the arguments of a command in byte by byte: it counts those that
are complete, stores their numbers and may be in the middle of one. Read off
the front of all bytes at once they are a number or a dropped byte, one after
the other. Either way the command is complete with the same byte and holds the
same numbers, for which there is always room.
-/

namespace VatTerminal

theorem Coordinate.Reader.start_of_push {r s : Reader} {b : UInt8} {x : Int}
    (h : r.push b = (s, some x)) : s = .start := by
  cases r with
  | start =>
    rw [push] at h
    split at h <;> cases h
    rfl
  | high => cases h
  | low high =>
    cases h
    rfl

namespace Instruction

/-- Read the arguments of a layout off the front of some bytes: a number by `readX`, a byte that is
skipped whatever it is. Nothing where the bytes end first. -/
def readArguments : List Argument → List UInt8 → Option (List Int × List UInt8)
  | [], bytes => some ([], bytes)
  | .skip :: _, [] => none
  | .skip :: as, _ :: bytes => readArguments as bytes
  | .number :: as, bytes =>
    match Coordinate.readX bytes with
    | (none, _) => none
    | (some x, rest) => (readArguments as rest).map fun (xs, rest) => (x :: xs, rest)

variable {as : List Argument} {bytes rest : List UInt8} {xs : List Int}

theorem readArguments_number_iff :
    readArguments (.number :: as) bytes = some (xs, rest) ↔
      ∃ x mid ys, Coordinate.readX bytes = (some x, mid) ∧
        readArguments as mid = some (ys, rest) ∧ xs = x :: ys := by
  constructor
  · intro h
    rw [readArguments] at h
    split at h
    · cases h
    · next x mid hx =>
      obtain ⟨⟨ys, last⟩, hys, he⟩ := Option.map_eq_some_iff.mp h
      cases he
      exact ⟨x, mid, ys, hx, hys, rfl⟩
  · rintro ⟨x, mid, ys, hx, hys, rfl⟩
    rw [readArguments, hx]
    exact congrArg (Option.map _) hys

theorem length_of_readArguments (h : readArguments as bytes = some (xs, rest)) :
    xs.length = as.count .number := by
  induction as generalizing bytes xs with
  | nil =>
    cases h
    rfl
  | cons a as ih =>
    cases a with
    | skip =>
      cases bytes with
      | nil => cases h
      | cons b bs => simpa using ih h
    | number =>
      obtain ⟨x, mid, ys, -, hys, rfl⟩ := readArguments_number_iff.mp h
      simpa using ih hys

theorem length_layout_le (op : UInt8) : (layout op).length ≤ PendingCommand.room := by
  unfold layout PendingCommand.room
  repeat' split
  all_goals simp

end Instruction

namespace PendingCommand

open Instruction (layout)

/-- There is a number for every argument that is one among those that are complete. -/
def Aligned (c : PendingCommand) : Prop :=
  c.numbers.length = ((layout c.opcode).take c.read).count .number

/-- An argument is missing, and nothing of those before it is lost. -/
structure Sound (c : PendingCommand) : Prop where
  unfinished : c.read < (layout c.opcode).length
  aligned : c.Aligned

def take (c : PendingCommand) (x : Int) : PendingCommand :=
  { c with read := c.read + 1, numbers := c.store x, number := .start }

variable {c : PendingCommand}

theorem count_take_succ {a : Argument} (h : (layout c.opcode)[c.read]? = some a) :
    ((layout c.opcode).take (c.read + 1)).count .number =
      ((layout c.opcode).take c.read).count .number + [a].count .number := by
  rw [List.take_add_one, h, List.count_append]
  rfl

namespace Aligned

/-- There is room for every number that is asked for. -/
theorem store_eq (h : c.Aligned) (hn : (layout c.opcode)[c.read]? = some .number) (x : Int) :
    c.store x = c.numbers ++ [x] := by
  have hlt : c.numbers.length < room := by
    calc c.numbers.length
        < ((layout c.opcode).take (c.read + 1)).count .number := by
          rw [count_take_succ hn, ← h]
          exact Nat.lt_succ_self _
      _ ≤ (layout c.opcode).length :=
          Nat.le_trans List.count_le_length (List.length_take_le' _ _)
      _ ≤ room := Instruction.length_layout_le c.opcode
  exact if_pos hlt

theorem take (h : c.Aligned) (hn : (layout c.opcode)[c.read]? = some .number) (x : Int) :
    (c.take x).Aligned := by
  show (c.store x).length = ((layout c.opcode).take (c.read + 1)).count .number
  rw [h.store_eq hn, count_take_succ hn, List.length_append, h]
  rfl

theorem skip (h : c.Aligned) (hs : (layout c.opcode)[c.read]? = some .skip) :
    ({ c with read := c.read + 1 } : PendingCommand).Aligned := by
  show c.numbers.length = ((layout c.opcode).take (c.read + 1)).count .number
  rw [count_take_succ hs, h]
  rfl

end Aligned

section Push

variable {b : UInt8}

theorem push_skip (hs : (layout c.opcode)[c.read]? = some .skip) :
    c.push b = { c with read := c.read + 1 } := by
  simp only [push, hs]

theorem push_number {r : Coordinate.Reader} (hn : (layout c.opcode)[c.read]? = some .number)
    (hb : c.number.push b = (r, none)) : c.push b = { c with number := r } := by
  simp only [push, hn, hb]

theorem push_number_some {r : Coordinate.Reader} {x : Int}
    (hn : (layout c.opcode)[c.read]? = some .number) (hb : c.number.push b = (r, some x)) :
    c.push b = c.take x := by
  have hr : r = .start := Coordinate.Reader.start_of_push hb
  simp only [push, hn, hb, take, hr]

theorem Aligned.push (h : c.Aligned) (b : UInt8) : (c.push b).Aligned := by
  cases hn : (layout c.opcode)[c.read]? with
  | none =>
    have hc : c.push b = c := by simp only [PendingCommand.push, hn]
    rwa [hc]
  | some a =>
    cases a with
    | skip =>
      rw [push_skip hn]
      exact h.skip hn
    | number =>
      rcases hb : c.number.push b with ⟨r, _ | x⟩
      · rw [push_number hn hb]
        exact h
      · rw [push_number_some hn hb]
        exact h.take hn x

end Push

end PendingCommand

namespace Parser

open Instruction (layout readArguments)

/-- The command whose arguments are being read, if there is one, is sound. -/
def Sound (p : Parser) : Prop := ∀ c, p = arguments c → c.Sound

variable {p : Parser} {c : PendingCommand} {bytes rest : List UInt8} {as : List Argument}

theorem sound_resume (h : c.Aligned) : (resume c).1.Sound := by
  intro d hd
  unfold resume PendingCommand.finish? at hd
  split at hd
  · cases hd
  · next hf =>
    cases hd
    refine ⟨Nat.lt_of_not_ge fun hle => ?_, h⟩
    rw [if_pos hle] at hf
    cases hf

theorem Sound.push (h : p.Sound) (b : UInt8) : (p.push b).1.Sound := by
  cases p with
  | ground =>
    intro c hc
    rw [Parser.push] at hc
    split at hc <;> cases hc
  | escape =>
    rw [Parser.push]
    split
    · rintro c ⟨⟩
    · exact sound_resume rfl
  | arguments c => exact sound_resume ((h c rfl).aligned.push b)

theorem resume_of_next {a : Argument} (h : (layout c.opcode)[c.read]? = some a) :
    resume c = (arguments c, none) := by
  obtain ⟨hlt, -⟩ := List.getElem?_eq_some_iff.mp h
  simp [resume, PendingCommand.finish?, Nat.not_le.mpr hlt]

theorem resume_of_complete (h : (layout c.opcode).length ≤ c.read) :
    resume c = (ground, some (Instruction.ofOpcode c.opcode c.numbers)) := by
  simp [resume, PendingCommand.finish?, h]

/-- Read up to and including the byte that completes an instruction, and give back what follows
it. -/
def decode (p : Parser) : List UInt8 → Parser × Option Instruction × List UInt8
  | [] => (p, none, [])
  | b :: bs =>
    match p.push b with
    | (p, some i) => (p, some i, bs)
    | (p, none) => p.decode bs

def decodeOn (r : Parser × Option Instruction) (bytes : List UInt8) :
    Parser × Option Instruction × List UInt8 :=
  match r with
  | (p, some i) => (p, some i, bytes)
  | (p, none) => p.decode bytes

theorem decode_cons (p : Parser) (b : UInt8) (bs : List UInt8) :
    p.decode (b :: bs) = decodeOn (p.push b) bs := rfl

section Number

variable (hn : (layout c.opcode)[c.read]? = some .number)

include hn

theorem decode_of_push_none {b : UInt8} {r : Coordinate.Reader} (hb : c.number.push b = (r, none)) :
    (arguments c).decode (b :: bytes) = (arguments { c with number := r }).decode bytes := by
  have hresume : resume { c with number := r } = (arguments { c with number := r }, none) :=
    resume_of_next hn
  rw [decode_cons, push, PendingCommand.push_number hn hb, hresume, decodeOn]

theorem decode_of_push_some {b : UInt8} {r : Coordinate.Reader} {x : Int}
    (hb : c.number.push b = (r, some x)) :
    (arguments c).decode (b :: bytes) = decodeOn (resume (c.take x)) bytes := by
  rw [decode_cons, push, PendingCommand.push_number_some hn hb]

/-- A number that comes next is read to its end as it is read at once. -/
theorem decode_number {x : Int} (hx : c.number.read bytes = (some x, rest)) :
    (arguments c).decode bytes = decodeOn (resume (c.take x)) rest := by
  induction bytes generalizing c with
  | nil => cases hx
  | cons b bs ih =>
    rw [Coordinate.Reader.read] at hx
    rcases hb : c.number.push b with ⟨r, _ | y⟩
    · rw [hb] at hx
      rw [decode_of_push_none hn hb]
      exact ih (c := { c with number := r }) hn hx
    · rw [hb] at hx
      cases hx
      exact decode_of_push_some hn hb

theorem decode_number_none (hx : (c.number.read bytes).1 = none) :
    ∃ d, (arguments c).decode bytes = (arguments d, none, []) := by
  induction bytes generalizing c with
  | nil => exact ⟨c, rfl⟩
  | cons b bs ih =>
    rw [Coordinate.Reader.read] at hx
    rcases hb : c.number.push b with ⟨r, _ | y⟩
    · rw [hb] at hx
      rw [decode_of_push_none hn hb]
      exact ih (c := { c with number := r }) hn hx
    · rw [hb] at hx
      cases hx

end Number

theorem next_of_drop {a : Argument} (h : (layout c.opcode).drop c.read = a :: as) :
    (layout c.opcode)[c.read]? = some a ∧ (layout c.opcode).drop (c.read + 1) = as := by
  constructor
  · rw [← List.head?_drop, h, List.head?_cons]
  · rw [← List.tail_drop, h, List.tail_cons]

section Arguments

variable {xs : List Int} (ha : c.Aligned) (hs : c.number = .start)
  (hk : (layout c.opcode).drop c.read = as)

include ha hs hk

/-- Arguments that can be read at once complete the command with the same byte and with the same
numbers. -/
theorem decodeOn_readArguments (h : readArguments as bytes = some (xs, rest)) :
    decodeOn (resume c) bytes =
      (ground, some (Instruction.ofOpcode c.opcode (c.numbers ++ xs)), rest) := by
  induction as generalizing c bytes xs with
  | nil =>
    cases h
    rw [resume_of_complete (List.drop_eq_nil_iff.mp hk), List.append_nil]
    rfl
  | cons a as ih =>
    obtain ⟨hn, htail⟩ := next_of_drop hk
    rw [resume_of_next hn, decodeOn]
    cases a with
    | skip =>
      cases bytes with
      | nil => cases h
      | cons b bs =>
        rw [decode_cons, push, PendingCommand.push_skip hn]
        exact ih (c := { c with read := c.read + 1 }) (ha.skip hn) hs htail h
    | number =>
      obtain ⟨x, mid, ys, hx, hys, rfl⟩ := Instruction.readArguments_number_iff.mp h
      rw [Coordinate.readX, ← hs] at hx
      rw [decode_number hn hx, ih (ha.take hn x) rfl htail hys]
      simp [PendingCommand.take, ha.store_eq hn]

theorem decodeOn_readArguments_none (h : readArguments as bytes = none) :
    ∃ d, decodeOn (resume c) bytes = (arguments d, none, []) := by
  induction as generalizing c bytes with
  | nil => cases h
  | cons a as ih =>
    obtain ⟨hn, htail⟩ := next_of_drop hk
    rw [resume_of_next hn, decodeOn]
    cases a with
    | skip =>
      cases bytes with
      | nil => exact ⟨c, rfl⟩
      | cons b bs =>
        rw [decode_cons, push, PendingCommand.push_skip hn]
        exact ih (c := { c with read := c.read + 1 }) (ha.skip hn) hs htail h
    | number =>
      rw [readArguments, Coordinate.readX, ← hs] at h
      rcases hx : c.number.read bytes with ⟨_ | x, mid⟩
      · exact decode_number_none hn (congrArg Prod.fst hx)
      · rw [hx] at h
        rw [decode_number hn hx]
        exact ih (ha.take hn x) rfl htail (Option.map_eq_none_iff.mp h)

end Arguments

theorem decode_opcode {op : UInt8} (hop : op ≠ Control.pad) (bytes : List UInt8) :
    match readArguments (layout op) bytes with
    | none => ∃ c, ground.decode (Control.escape :: op :: bytes) = (arguments c, none, [])
    | some (xs, rest) => ground.decode (Control.escape :: op :: bytes) =
        (ground, some (Instruction.ofOpcode op xs), rest) := by
  have hopen : ground.decode (Control.escape :: op :: bytes) =
      decodeOn (resume { opcode := op }) bytes := by
    rw [decode_cons, push, if_pos rfl, decodeOn, decode_cons, push, if_neg hop]
  have haligned : ({ opcode := op } : PendingCommand).Aligned := rfl
  rw [hopen]
  split
  · next h => exact decodeOn_readArguments_none haligned rfl rfl h
  · next h => exact decodeOn_readArguments haligned rfl rfl h

end Parser

end VatTerminal
