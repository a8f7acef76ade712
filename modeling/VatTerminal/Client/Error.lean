import VatTerminal.Error

/-! # What goes wrong in a client

Faults of the line are told apart by their kind. Errors of the layers below
are lifted, so that a fault counts the same wherever it was met.
-/

namespace VatTerminal.Client

inductive Error where
  | unknownHost (host : String)
  | connectionRefused
  | accessDenied (f : Fault)
  | connectTimeout
  | fault (f : Fault)
  | connectionClosed
  | notConnected
  | unknownOption (name : String)
  | telnet (e : Telnet.Error)
  | terminal (e : TerminalError)
  deriving DecidableEq

namespace Error

def ofFault (f : Fault) : Error :=
  match f.kind with
  | .timedOut => connectTimeout
  | .connectionRefused => connectionRefused
  | .permissionDenied => accessDenied f
  | .connectionReset | .connectionAborted | .brokenPipe | .unexpectedEof => connectionClosed
  | _ => fault f

def ofTelnet : Telnet.Error → Error
  | .unknownOption name => unknownOption name
  | .fault kind operation => ofFault ⟨kind, operation⟩
  | e => telnet e

def ofTerminal : TerminalError → Error
  | .fault f => ofFault f
  | .telnet e => ofTelnet e
  | e => terminal e

def message : Error → String
  | unknownHost host => "Unknown host: " ++ host
  | connectionRefused => "Connection refused"
  | accessDenied f => "Connection denied: " ++ f.text
  | connectTimeout => "Connection timeout"
  | fault f => "I/O error: " ++ f.text
  | connectionClosed => "Connection closed by server"
  | notConnected => "Not connected"
  | unknownOption name => "Unknown option: " ++ name
  | telnet e => "Codec error: " ++ e.message
  | terminal e => "Terminal error: " ++ e.message

def cause? : Error → Option String
  | accessDenied f | fault f => some f.text
  | telnet e => some e.message
  | terminal e => some e.message
  | _ => none

end Error

end VatTerminal.Client
