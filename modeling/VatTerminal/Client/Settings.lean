import VatTerminal.Telnet.Option

/-! # Settings of a client

Times are in milliseconds.
-/

namespace VatTerminal.Client

structure OptionSettings where
  code : UInt8
  name : String
  localSupport : Bool
  remoteSupport : Bool
  deriving DecidableEq

def OptionSettings.toOption (o : OptionSettings) : TelnetOption :=
  { code := o.code, name := o.name, localSupport := o.localSupport
    remoteSupport := o.remoteSupport }

structure Settings where
  host : String := "localhost"
  service : Nat := Telnet.service
  rows : Nat := 24
  columns : Nat := 80
  connectTimeout : Nat := 10000
  negotiationTimeout : Nat := 1000
  readBufferSize : Nat := 4096
  inbandCommands : Bool := false
  options : List OptionSettings :=
    [⟨Telnet.OptionCode.echo, "ECHO", true, true⟩,
     ⟨Telnet.OptionCode.suppressGoAhead, "SUPPRESS-GO-AHEAD", true, true⟩]
  negotiateOnConnect : Bool := true
  escapeWideCoordinates : Bool := false
  keysetDevice : Option String := none
  displayQueue : Nat := 64
  deriving DecidableEq

namespace Settings

def address (s : Settings) : String := s.host ++ ":" ++ toString s.service

def readSize (s : Settings) : Nat := max s.readBufferSize 1

def queueCapacity (s : Settings) : Nat := max s.displayQueue 1

end Settings

end VatTerminal.Client
