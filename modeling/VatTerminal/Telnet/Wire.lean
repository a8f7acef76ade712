/-! # Bytes of the Telnet protocol

The introducer of everything that is not data, the opener of a
subnegotiation, and the codes of the options with a settled meaning. The bytes
of commands and of negotiation verbs stand with `Command` and `Verb`.
-/

namespace VatTerminal.Telnet

def service : Nat := 23

def iac : UInt8 := 255
def subnegotiationBegin : UInt8 := 250

namespace OptionCode

def transmitBinary : UInt8 := 0
def echo : UInt8 := 1
def suppressGoAhead : UInt8 := 3
def status : UInt8 := 5
def timingMark : UInt8 := 6
def logout : UInt8 := 18
def sendLocation : UInt8 := 23
def terminalType : UInt8 := 24
def endOfRecord : UInt8 := 25
def windowSize : UInt8 := 31
def terminalSpeed : UInt8 := 32
def flowControl : UInt8 := 33
def linemode : UInt8 := 34
def displayLocation : UInt8 := 35
def environment : UInt8 := 36
def authentication : UInt8 := 37
def newEnvironment : UInt8 := 39

def assigned : List UInt8 :=
  [transmitBinary, echo, suppressGoAhead, status, timingMark, logout, sendLocation,
   terminalType, endOfRecord, windowSize, terminalSpeed, flowControl, linemode,
   displayLocation, environment, authentication, newEnvironment]

end OptionCode

end VatTerminal.Telnet
