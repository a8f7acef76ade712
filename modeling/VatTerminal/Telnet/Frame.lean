import VatTerminal.Telnet.Command
import VatTerminal.Telnet.Half

/-! # Frames

What may be put on the line, and its bytes. A data byte equal to `IAC` is
written twice, a command takes two bytes and a verb three.
-/

namespace VatTerminal.Telnet

inductive Frame where
  | data (byte : UInt8)
  | command (c : Command)
  | verb (v : Verb) (code : UInt8)
  deriving DecidableEq

namespace Frame

def encode : Frame → List UInt8
  | data b => if b = iac then [iac, iac] else [b]
  | command c => [iac, c.byte]
  | verb v code => [iac, v.byte, code]

def wireLength : Frame → Nat
  | data b => if b = iac then 2 else 1
  | command _ => 2
  | verb _ _ => 3

@[simp] theorem length_encode (f : Frame) : f.encode.length = f.wireLength := by
  cases f with
  | data b => by_cases h : b = iac <;> simp [encode, wireLength, h]
  | command c => rfl
  | verb v code => rfl

end Frame

def encodeData (bytes : List UInt8) : List UInt8 := bytes.flatMap fun b => (Frame.data b).encode

/-- The bytes of an answer; no answer has none. -/
def encodeAnswer (code : UInt8) : Option Verb → List UInt8
  | none => []
  | some v => (Frame.verb v code).encode

end VatTerminal.Telnet
