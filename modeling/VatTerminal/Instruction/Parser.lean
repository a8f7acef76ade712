import VatTerminal.Instruction.Basic
import VatTerminal.Coordinate.Reader

/-! # Reading instructions

Data bytes are read one at a time. A command in progress remembers its opcode,
how many of its arguments are complete, and the numbers among them.
-/

namespace VatTerminal

structure PendingCommand where
  opcode : UInt8
  /-- How many arguments are complete. -/
  read : Nat := 0
  numbers : List Int := []
  number : Coordinate.Reader := .start
  deriving DecidableEq

namespace PendingCommand

/-- A command has room for this many numbers; one beyond is dropped. -/
def room : Nat := 5

def store (c : PendingCommand) (x : Int) : List Int :=
  if c.numbers.length < room then c.numbers ++ [x] else c.numbers

def finish? (c : PendingCommand) : Option Instruction :=
  if (Instruction.layout c.opcode).length ≤ c.read then
    some (Instruction.ofOpcode c.opcode c.numbers)
  else none

def push (c : PendingCommand) (b : UInt8) : PendingCommand :=
  match (Instruction.layout c.opcode)[c.read]? with
  | none => c
  | some .skip => { c with read := c.read + 1 }
  | some .number =>
    match c.number.push b with
    | (number, none) => { c with number }
    | (number, some x) => { c with read := c.read + 1, numbers := c.store x, number }

end PendingCommand

/-- What of a command has been read; `ground` between commands. -/
inductive Parser where
  | ground
  | escape
  | arguments (c : PendingCommand)
  deriving DecidableEq

namespace Parser

def single? (b : UInt8) : Option Instruction :=
  if b = Control.bell then some .bell
  else if b = Control.backspace then some .backspace
  else if b = Control.lineFeed then some .lineFeed
  else if b = Control.carriageReturn then some .carriageReturn
  else if b = Control.pad then none
  else if Control.space ≤ b then some (.print b)
  else none

/-- Go on with a command, or leave it if it is complete. -/
def resume (c : PendingCommand) : Parser × Option Instruction :=
  match c.finish? with
  | some i => (ground, some i)
  | none => (arguments c, none)

def push : Parser → UInt8 → Parser × Option Instruction
  | ground, b => if b = Control.escape then (escape, none) else (ground, single? b)
  | escape, b => if b = Control.pad then (escape, none) else resume { opcode := b }
  | arguments c, b => resume (c.push b)

def inCommand : Parser → Bool
  | ground => false
  | escape | arguments _ => true

def run (p : Parser) : List UInt8 → Parser × List Instruction
  | [] => (p, [])
  | b :: bs =>
    let (p, i) := p.push b
    let (p, is) := p.run bs
    (p, i.toList ++ is)

end Parser

end VatTerminal
