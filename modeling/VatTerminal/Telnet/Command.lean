/-! # Telnet commands

The ten commands are the bytes 240 to 249 after an `IAC`; no other byte is one.
-/

namespace VatTerminal.Telnet

inductive Command where
  | subnegotiationEnd | noOperation | dataMark | breakKey | interruptProcess | abortOutput
  | areYouThere | eraseCharacter | eraseLine | goAhead
  deriving DecidableEq

namespace Command

def byte : Command → UInt8
  | subnegotiationEnd => 240
  | noOperation => 241
  | dataMark => 242
  | breakKey => 243
  | interruptProcess => 244
  | abortOutput => 245
  | areYouThere => 246
  | eraseCharacter => 247
  | eraseLine => 248
  | goAhead => 249

def all : List Command :=
  [subnegotiationEnd, noOperation, dataMark, breakKey, interruptProcess, abortOutput,
   areYouThere, eraseCharacter, eraseLine, goAhead]

def ofByte? (b : UInt8) : Option Command := all.find? fun c => c.byte == b

def mnemonic : Command → String
  | subnegotiationEnd => "SE"
  | noOperation => "NOP"
  | dataMark => "DM"
  | breakKey => "BRK"
  | interruptProcess => "IP"
  | abortOutput => "AO"
  | areYouThere => "AYT"
  | eraseCharacter => "EC"
  | eraseLine => "EL"
  | goAhead => "GA"

def text (c : Command) : String := "<" ++ c.mnemonic ++ ">"

theorem byte_of_ofByte? {b : UInt8} {c : Command} (h : ofByte? b = some c) : c.byte = b := by
  simpa using List.find?_some h

end Command

end VatTerminal.Telnet
