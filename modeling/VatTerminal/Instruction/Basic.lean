/-! # VAT-0 instructions

The instructions of the display protocol, their opcodes, and the arguments
each opcode takes. Printable bytes and five control bytes are instructions of
their own; all others are an escape, an opcode and its arguments.
-/

namespace VatTerminal

inductive Instruction where
  | print (byte : UInt8)
  | bell
  | backspace
  | lineFeed
  | carriageReturn
  | position (x y : Int)
  | setWindow (top bottom : Int)
  | resumeWindow
  | writeBlanks (count : Int)
  | deleteLine
  | insertLine
  | setBug (x y : Int)
  | popBug
  | clear
  | reset
  | graphics (count : Int)
  | closePrinter
  | interrogate
  | standoutOn
  | standoutOff
  | coordinatesOff
  | coordinatesOn
  | printerCommand (opcode : UInt8)
  | scroll (left right top bottom lines : Int)
  | unknown (opcode : UInt8)
  deriving DecidableEq

namespace Control

def bell : UInt8 := 7
def backspace : UInt8 := 8
def lineFeed : UInt8 := 10
def carriageReturn : UInt8 := 13
def escape : UInt8 := 27
/-- Filler, ignored outside of arguments. -/
def pad : UInt8 := 127

def space : UInt8 := 32

end Control

namespace Opcode

def position : UInt8 := 32
def setWindow : UInt8 := 33
def resumeWindow : UInt8 := 34
def writeBlanks : UInt8 := 35
def deleteLine : UInt8 := 36
def insertLine : UInt8 := 37
def setBug : UInt8 := 38
def popBug : UInt8 := 39
def clear : UInt8 := 40
def reset : UInt8 := 41
def graphics : UInt8 := 42
def closePrinter : UInt8 := 44
def interrogate : UInt8 := 45
def standoutOn : UInt8 := 46
def standoutOff : UInt8 := 47
def coordinatesOff : UInt8 := 48
def coordinatesOn : UInt8 := 49
def printerOn : UInt8 := 51
def printerOff : UInt8 := 52
def scroll : UInt8 := 53

end Opcode

/-- An argument is a number, or a byte that is read and dropped. -/
inductive Argument where
  | number | skip
  deriving DecidableEq

namespace Instruction

def layout (op : UInt8) : List Argument :=
  if op = Opcode.position ∨ op = Opcode.setWindow ∨ op = Opcode.setBug then [.number, .number]
  else if op = Opcode.writeBlanks then [.number]
  else if op = Opcode.graphics then [.skip, .number, .skip]
  else if op = Opcode.scroll then [.number, .number, .number, .number, .number]
  else []

/-- The instruction of an opcode and the numbers read for it. A missing number counts as 0. -/
def ofOpcode (op : UInt8) (numbers : List Int) : Instruction :=
  let n (i : Nat) : Int := numbers.getD i 0
  if op = Opcode.position then position (n 0) (n 1)
  else if op = Opcode.setWindow then setWindow (n 0) (n 1)
  else if op = Opcode.resumeWindow then resumeWindow
  else if op = Opcode.writeBlanks then writeBlanks (n 0)
  else if op = Opcode.deleteLine then deleteLine
  else if op = Opcode.insertLine then insertLine
  else if op = Opcode.setBug then setBug (n 0) (n 1)
  else if op = Opcode.popBug then popBug
  else if op = Opcode.clear then clear
  else if op = Opcode.reset then reset
  else if op = Opcode.graphics then graphics (n 0)
  else if op = Opcode.closePrinter then closePrinter
  else if op = Opcode.interrogate then interrogate
  else if op = Opcode.standoutOn then standoutOn
  else if op = Opcode.standoutOff then standoutOff
  else if op = Opcode.coordinatesOff then coordinatesOff
  else if op = Opcode.coordinatesOn then coordinatesOn
  else if op = Opcode.printerOn ∨ op = Opcode.printerOff then printerCommand op
  else if op = Opcode.scroll then scroll (n 0) (n 1) (n 2) (n 3) (n 4)
  else unknown op

def mutatesScreen : Instruction → Bool
  | print _ | lineFeed | writeBlanks _ | deleteLine | insertLine | setBug _ _ | popBug | clear
  | reset | scroll _ _ _ _ _ => true
  | _ => false

end Instruction

end VatTerminal
