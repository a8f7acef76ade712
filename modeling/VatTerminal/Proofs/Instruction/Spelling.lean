import Mathlib.Data.List.Forall2
import VatTerminal.Proofs.Coordinate.RoundTrip
import VatTerminal.Proofs.Instruction.Arguments

/-! # Writing instructions

An instruction is written as a byte of its own, or as an escape, an opcode and
the operands that the layout of the opcode asks for. A parser between commands
reads what has been written back, instruction by instruction, whatever follows.
-/

namespace VatTerminal

/-- An argument with what stands for it: a number, or a byte that means nothing. -/
inductive Operand where
  | number (x : Int)
  | filler (b : UInt8)
  deriving DecidableEq

namespace Operand

def kind : Operand → Argument
  | number _ => .number
  | filler _ => .skip

def encode : Operand → List UInt8
  | number x => Coordinate.writeX x
  | filler b => [b]

def number? : Operand → Option Int
  | number x => some x
  | filler _ => none

def Fits : Operand → Prop
  | number x => Coordinate.Fits x
  | filler _ => True

end Operand

inductive Spelling where
  | single (b : UInt8)
  | command (opcode : UInt8) (operands : List Operand)
  deriving DecidableEq

def Spelling.encode : Spelling → List UInt8
  | single b => [b]
  | command op operands => Control.escape :: op :: operands.flatMap Operand.encode

def Opcode.assigned : List UInt8 :=
  [position, setWindow, resumeWindow, writeBlanks, deleteLine, insertLine, setBug, popBug, clear,
   reset, graphics, closePrinter, interrogate, standoutOn, standoutOff, coordinatesOff,
   coordinatesOn, printerOn, printerOff, scroll]

namespace Instruction

/-- How an instruction is written. The bytes around the count of graphics are any two. -/
def spelling (before after : UInt8) : Instruction → Spelling
  | print b => .single b
  | bell => .single Control.bell
  | backspace => .single Control.backspace
  | lineFeed => .single Control.lineFeed
  | carriageReturn => .single Control.carriageReturn
  | position x y => .command Opcode.position [.number x, .number y]
  | setWindow top bottom => .command Opcode.setWindow [.number top, .number bottom]
  | resumeWindow => .command Opcode.resumeWindow []
  | writeBlanks count => .command Opcode.writeBlanks [.number count]
  | deleteLine => .command Opcode.deleteLine []
  | insertLine => .command Opcode.insertLine []
  | setBug x y => .command Opcode.setBug [.number x, .number y]
  | popBug => .command Opcode.popBug []
  | clear => .command Opcode.clear []
  | reset => .command Opcode.reset []
  | graphics count => .command Opcode.graphics [.filler before, .number count, .filler after]
  | closePrinter => .command Opcode.closePrinter []
  | interrogate => .command Opcode.interrogate []
  | standoutOn => .command Opcode.standoutOn []
  | standoutOff => .command Opcode.standoutOff []
  | coordinatesOff => .command Opcode.coordinatesOff []
  | coordinatesOn => .command Opcode.coordinatesOn []
  | printerCommand op => .command op []
  | scroll left right top bottom lines =>
    .command Opcode.scroll
      [.number left, .number right, .number top, .number bottom, .number lines]
  | unknown op => .command op []

/-- The instructions that can be written: printable bytes are printed, numbers fit, and a command
of no meaning has an opcode without one. -/
def Writable : Instruction → Prop
  | print b => Control.space ≤ b ∧ b ≠ Control.pad
  | position x y | setWindow x y | setBug x y => Coordinate.Fits x ∧ Coordinate.Fits y
  | writeBlanks count | graphics count => Coordinate.Fits count
  | scroll left right top bottom lines =>
    Coordinate.Fits left ∧ Coordinate.Fits right ∧ Coordinate.Fits top ∧
      Coordinate.Fits bottom ∧ Coordinate.Fits lines
  | printerCommand op => op = Opcode.printerOn ∨ op = Opcode.printerOff
  | unknown op => op ∉ Opcode.assigned ∧ op ≠ Control.pad
  | _ => True

instance : DecidablePred Writable
  | print _ | position _ _ | setWindow _ _ | setBug _ _ | scroll _ _ _ _ _ | unknown _ =>
    inferInstanceAs (Decidable (_ ∧ _))
  | writeBlanks _ | graphics _ => inferInstanceAs (Decidable (Coordinate.Fits _))
  | printerCommand _ => inferInstanceAs (Decidable (_ ∨ _))
  | bell | backspace | lineFeed | carriageReturn | resumeWindow | deleteLine | insertLine | popBug
  | clear | reset | closePrinter | interrogate | standoutOn | standoutOff | coordinatesOff
  | coordinatesOn => inferInstanceAs (Decidable True)

def Spells (i : Instruction) (bytes : List UInt8) : Prop :=
  ∃ before after, bytes = (i.spelling before after).encode

theorem layout_of_not_assigned {op : UInt8} (h : op ∉ Opcode.assigned) : layout op = [] := by
  simp only [Opcode.assigned, List.mem_cons, List.not_mem_nil, or_false, not_or] at h
  simp [layout, h]

theorem ofOpcode_of_not_assigned {op : UInt8} (h : op ∉ Opcode.assigned) (numbers : List Int) :
    ofOpcode op numbers = unknown op := by
  simp only [Opcode.assigned, List.mem_cons, List.not_mem_nil, or_false, not_or] at h
  simp [ofOpcode, h]

theorem readArguments_operands {as : List Argument} {os : List Operand}
    (hk : os.map Operand.kind = as) (hf : ∀ o ∈ os, o.Fits) (rest : List UInt8) :
    readArguments as (os.flatMap Operand.encode ++ rest) =
      some (os.filterMap Operand.number?, rest) := by
  subst hk
  induction os with
  | nil => rfl
  | cons o os ih =>
    obtain ⟨ho, hos⟩ := List.forall_mem_cons.mp hf
    rw [List.flatMap_cons, List.append_assoc, List.map_cons]
    cases o with
    | number x =>
      refine readArguments_number_iff.mpr ⟨x, _, _, ?_, ih hos, rfl⟩
      rw [Operand.encode, Coordinate.readX_writeX, Int.emod_eq_of_lt ho.1 ho.2]
    | filler b => exact ih hos

end Instruction

namespace Parser

def goOn (r : Parser × Option Instruction) (bytes : List UInt8) : Parser × List Instruction :=
  ((r.1.run bytes).1, r.2.toList ++ (r.1.run bytes).2)

@[simp] theorem run_cons (p : Parser) (b : UInt8) (bs : List UInt8) :
    p.run (b :: bs) = goOn (p.push b) bs := rfl

theorem single?_of_printable {b : UInt8} (h : Control.space ≤ b) (hb : b ≠ Control.pad) :
    b ≠ Control.escape ∧ single? b = some (.print b) := by
  have hc (c : UInt8) (hc : c < Control.space) : b ≠ c := by
    rintro rfl
    exact absurd h (UInt8.not_le.mpr hc)
  refine ⟨hc _ (by decide), ?_⟩
  simp [single?, h, hb, hc Control.bell (by decide), hc Control.backspace (by decide),
    hc Control.lineFeed (by decide), hc Control.carriageReturn (by decide)]

theorem run_of_decode {p q : Parser} {i : Instruction} {bytes rest : List UInt8}
    (h : p.decode bytes = (q, some i, rest)) : p.run bytes = goOn (q, some i) rest := by
  induction bytes generalizing p with
  | nil => cases h
  | cons b bs ih =>
    rw [run_cons]
    rw [decode_cons] at h
    rcases hb : p.push b with ⟨r, _ | j⟩
    · rw [hb] at h
      exact ih h
    · rw [hb] at h
      cases h
      rfl

/-- A command with the operands of its layout is read as what its opcode makes of the numbers. -/
theorem run_command {op : UInt8} {os : List Operand} (hop : op ≠ Control.pad)
    (hk : os.map Operand.kind = Instruction.layout op) (hf : ∀ o ∈ os, o.Fits)
    (rest : List UInt8) :
    ground.run ((Spelling.command op os).encode ++ rest) =
      goOn (ground, some (Instruction.ofOpcode op (os.filterMap Operand.number?))) rest := by
  have hdecode := decode_opcode hop (os.flatMap Operand.encode ++ rest)
  rw [Instruction.readArguments_operands hk hf] at hdecode
  exact run_of_decode hdecode

theorem run_spells {i : Instruction} {bytes : List UInt8} (hw : i.Writable) (h : i.Spells bytes)
    (rest : List UInt8) : ground.run (bytes ++ rest) = goOn (ground, some i) rest := by
  obtain ⟨before, after, rfl⟩ := h
  cases i with
  | print b =>
    obtain ⟨he, hs⟩ := single?_of_printable hw.1 hw.2
    simp [Instruction.spelling, Spelling.encode, push, he, hs]
  | bell | backspace | lineFeed | carriageReturn => rfl
  | position x y | setWindow x y | setBug x y =>
    refine run_command (by decide) rfl ?_ rest
    simpa [Operand.Fits, Instruction.Writable] using hw
  | writeBlanks count | graphics count =>
    refine run_command (by decide) rfl ?_ rest
    simpa [Operand.Fits, Instruction.Writable] using hw
  | scroll left right top bottom lines =>
    refine run_command (by decide) rfl ?_ rest
    simpa [Operand.Fits, Instruction.Writable] using hw
  | printerCommand op =>
    rcases hw with rfl | rfl <;> rfl
  | unknown op =>
    have hbare : ([] : List Operand).map Operand.kind = Instruction.layout op :=
      (Instruction.layout_of_not_assigned hw.1).symm
    have hr := run_command hw.2 hbare (List.forall_mem_nil _) rest
    rwa [Instruction.ofOpcode_of_not_assigned hw.1] at hr
  | _ => rfl

theorem run_spellings {is : List Instruction} {spellings : List (List UInt8)}
    (hw : ∀ i ∈ is, i.Writable) (h : List.Forall₂ Instruction.Spells is spellings) :
    ground.run spellings.flatten = (ground, is) := by
  induction h with
  | nil => rfl
  | cons hs _ ih =>
    rw [List.flatten_cons, run_spells (hw _ List.mem_cons_self) hs, goOn,
      ih fun j hj => hw j (List.mem_cons_of_mem _ hj)]
    rfl

end Parser

end VatTerminal
