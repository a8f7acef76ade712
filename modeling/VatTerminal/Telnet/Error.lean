import VatTerminal.Fault

/-! # What goes wrong in option handling -/

namespace VatTerminal.Telnet

inductive Error where
  | fault (kind : FaultKind) (operation : String)
  | duplicateOption (code : UInt8) (name : String)
  | alreadyAssociated (name : String)
  | unknownOption (name : String)
  deriving DecidableEq

namespace Error

def ofFault (f : Fault) : Error := fault f.kind f.text

def message : Error → String
  | fault kind operation => "I/O error during " ++ operation ++ ": " ++ kind.name
  | duplicateOption code name =>
    "Telnet option " ++ name ++ " (" ++ toString code.toNat ++ ") is already present"
  | alreadyAssociated name => "Illegal sharing of Telnet option: " ++ name
  | unknownOption name => "Unknown option: " ++ name

end Error

end VatTerminal.Telnet
