import VatTerminal.Client.Error
import VatTerminal.Keyset.Error

/-! # Warnings

What is logged because nobody is there to be told, with its severity.
-/

namespace VatTerminal

inductive Severity where
  | warn | error
  deriving DecidableEq

inductive Warning where
  | strayTelnetByte (byte : UInt8)
  | screenUpdateFailed (e : OutOfBounds)
  | chordOutOfRange
  | keysetFailed (e : Keyset.Error)
  | keysetUnavailable (e : Keyset.Error)
  | closeFailed (f : Fault)
  | connectionFailed (e : Client.Error)
  | outboundDropped (count : Nat) (e : Client.Error)
  deriving DecidableEq

namespace Warning

/-- Two digits, with the letters in upper case. -/
def hexByte (b : UInt8) : String :=
  let digit (n : Nat) : Char := (Nat.digitChar n).toUpper
  String.ofList [digit (b.toNat / 16), digit (b.toNat % 16)]

def severity : Warning → Severity
  | chordOutOfRange | keysetFailed _ | connectionFailed _ => .error
  | _ => .warn

def message : Warning → String
  | strayTelnetByte b => "Unknown telnet command after IAC: 0x" ++ hexByte b
  | screenUpdateFailed e => "Screen update failed: " ++ e.message
  | chordOutOfRange => "chord value out of range"
  | keysetFailed e => "Keyset driver failed: " ++ e.message
  | keysetUnavailable e => "Chord keyset unavailable: " ++ e.message
  | closeFailed f => "Error closing connection: " ++ f.text
  | connectionFailed e => "Connection error: " ++ e.message
  | outboundDropped n e => "Dropping " ++ toString n ++ " outbound bytes: " ++ e.message

def ofChord {α : Type} : Except Keyset.Error α → List Warning
  | .error (.invalidChord _) => [chordOutOfRange]
  | _ => []

def ofKeyset (r : Except Keyset.Error Unit) : List Warning :=
  ofChord r ++
    match r with
    | .error e => [keysetFailed e]
    | .ok () => []

end Warning

end VatTerminal
