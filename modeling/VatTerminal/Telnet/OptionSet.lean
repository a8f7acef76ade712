import VatTerminal.Telnet.Option
import VatTerminal.Telnet.Error

/-! # Option sets

The options of one connection in the order they were registered. No two share
a code, nor a name up to the case of ASCII letters, and each is marked as
belonging to a connection.
-/

namespace VatTerminal.Telnet

def sameName (a b : String) : Bool := a.toLower == b.toLower

/-- Put `f x` for the first element `x` that satisfies `p`. -/
def reviseFirst {α : Type} (p : α → Bool) (f : α → α) : List α → List α
  | [] => []
  | x :: xs => if p x then f x :: xs else x :: reviseFirst p f xs

structure OptionSet where
  entries : List TelnetOption := []
  deriving DecidableEq

namespace OptionSet

def get? (s : OptionSet) (code : UInt8) : Option TelnetOption :=
  s.entries.find? fun o => o.code == code

def byName? (s : OptionSet) (name : String) : Option TelnetOption :=
  s.entries.find? fun o => sameName o.name name

def size (s : OptionSet) : Nat := s.entries.length

def isEmpty (s : OptionSet) : Bool := s.entries.isEmpty

/-- An option whose code or name is taken is refused first, then one that belongs to a connection
already. -/
def add (s : OptionSet) (o : TelnetOption) : Except Error OptionSet :=
  if (s.get? o.code).isSome || (s.byName? o.name).isSome then
    .error (.duplicateOption o.code o.name)
  else if o.associated then .error (.alreadyAssociated o.name)
  else .ok ⟨s.entries ++ [{ o with associated := true }]⟩

def addAll (s : OptionSet) (os : List TelnetOption) : Except Error OptionSet :=
  os.foldlM add s

/-- Our wish for one side of the option of the given name, with its code and the verb to send. -/
def request (s : OptionSet) (name : String) (side : Side) (enable : Bool) :
    Except Error (OptionSet × UInt8 × Option Verb) :=
  match s.byName? name with
  | none => .error (.unknownOption name)
  | some o =>
    let revise (o : TelnetOption) : TelnetOption := (o.request side enable).1
    .ok (⟨reviseFirst (fun o => sameName o.name name) revise s.entries⟩, o.code,
      (o.request side enable).2)

/-- A verb from the peer for a registered code, with the option as it then is and the answer. -/
def receive? (s : OptionSet) (v : Verb) (code : UInt8) :
    Option (OptionSet × TelnetOption × Option Verb) :=
  (s.get? code).map fun o =>
    (⟨reviseFirst (fun o => o.code == code) (fun o => (o.receive v).1) s.entries⟩, o.receive v)

end OptionSet

end VatTerminal.Telnet
