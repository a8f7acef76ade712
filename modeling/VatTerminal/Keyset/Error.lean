import VatTerminal.Fault

/-! # What goes wrong with the keyset -/

namespace VatTerminal.Keyset

inductive Error where
  | notFound (path : String)
  | invalidRecord (field : String) (value : Int)
  | invalidChord (chord : UInt8)
  | endOfFile
  | fault (f : Fault)
  deriving DecidableEq

namespace Error

def ofFault (f : Fault) : Error := if f.kind = .unexpectedEof then endOfFile else fault f

/-- Without a device the keyset is merely not there; everything else ends its driver. -/
def isFatal : Error → Bool
  | notFound _ => false
  | _ => true

def message : Error → String
  | notFound path => "Chord keyset is not connected (" ++ path ++ ")"
  | invalidRecord field value => "invalid value for " ++ field ++ ": " ++ toString value
  | invalidChord chord => "invalid chord value: " ++ toString chord.toNat
  | endOfFile => "keyset device reached end of file"
  | fault f => "I/O error: " ++ f.text

end Error

end VatTerminal.Keyset
