import VatTerminal.Telnet.Wire

/-! # One half of an option

An option has two halves, what we perform and what the peer performs. Each is
driven by the Q method: a state, and one bit that records a request made
against the direction of the negotiation in flight. A half answers what it is
told with a verdict, and the side it belongs to turns the verdict into a verb.
-/

namespace VatTerminal.Telnet

/-- The local side is what we perform, the remote side what the peer performs. -/
inductive Side where
  | localSide | remoteSide
  deriving DecidableEq

inductive Verb where
  | will | wont | do_ | dont
  deriving DecidableEq

namespace Verb

def byte : Verb → UInt8
  | will => 251
  | wont => 252
  | do_ => 253
  | dont => 254

def all : List Verb := [will, wont, do_, dont]

def ofByte? (b : UInt8) : Option Verb := all.find? fun v => v.byte == b

/-- The side a received verb is about: `WILL` and `WONT` speak of the sender, so of our
remote side. -/
def side : Verb → Side
  | will | wont => .remoteSide
  | do_ | dont => .localSide

def enables : Verb → Bool
  | will | do_ => true
  | wont | dont => false

@[simp] theorem ofByte?_byte (v : Verb) : ofByte? v.byte = some v := by cases v <;> rfl

theorem byte_of_ofByte? {b : UInt8} {v : Verb} (h : ofByte? b = some v) : v.byte = b := by
  simpa using List.find?_some h

end Verb

inductive QState where
  | no | yes | wantNo | wantYes
  deriving DecidableEq

inductive Mode where
  | disabled | enabled | unstable
  deriving DecidableEq

namespace Mode

def text : Mode → String
  | disabled => "disabled"
  | enabled => "enabled"
  | unstable => "unstable"

end Mode

namespace QState

def mode : QState → Mode
  | no => .disabled
  | yes => .enabled
  | wantNo | wantYes => .unstable

def text : QState → String
  | no => "NO"
  | yes => "YES"
  | wantNo => "WANTNO"
  | wantYes => "WANTYES"

end QState

/-- What a half wants said to the peer, before it is known which side speaks. -/
inductive Verdict where
  | ignore | agree | refuse
  deriving DecidableEq

/-- We speak of ourselves with `WILL` and `WONT`, and of the peer with `DO` and `DONT`. -/
def Verdict.verb? : Verdict → Side → Option Verb
  | .ignore, _ => none
  | .agree, .localSide => some .will
  | .refuse, .localSide => some .wont
  | .agree, .remoteSide => some .do_
  | .refuse, .remoteSide => some .dont

structure Half where
  state : QState := .no
  /-- A request against the one in flight waits for its answer. -/
  queued : Bool := false
  deriving DecidableEq

namespace Half

def mode (h : Half) : Mode := h.state.mode

/-- The peer speaks for the option being on. Where it is not supported the peer is refused and
nothing changes. -/
def receiveEnable (supported : Bool) (h : Half) : Half × Verdict :=
  if supported then
    match h.state, h.queued with
    | .no, _ => ({ h with state := .yes }, .agree)
    | .yes, _ => (h, .ignore)
    | .wantNo, q => (⟨if q then .yes else .no, false⟩, .ignore)
    | .wantYes, true => (⟨.wantNo, false⟩, .refuse)
    | .wantYes, false => ({ h with state := .yes }, .ignore)
  else (h, .refuse)

/-- The peer speaks for the option being off. Where it is not supported this is no news. -/
def receiveDisable (supported : Bool) (h : Half) : Half × Verdict :=
  if supported then
    match h.state, h.queued with
    | .no, _ => (h, .ignore)
    | .yes, _ => ({ h with state := .no }, .refuse)
    | .wantNo, true => (⟨.wantYes, false⟩, .agree)
    | .wantNo, false => ({ h with state := .no }, .ignore)
    | .wantYes, _ => (⟨.no, false⟩, .ignore)
  else (h, .ignore)

def receive (enable supported : Bool) (h : Half) : Half × Verdict :=
  if enable then h.receiveEnable supported else h.receiveDisable supported

/-- Our own wish for a state. It starts a negotiation only when none is in flight. Against the one
in flight it is queued; with the one in flight it takes back what is queued. -/
def request (enable : Bool) (h : Half) : Half × Verdict :=
  match enable, h.state with
  | true, .no => ({ h with state := .wantYes }, .agree)
  | false, .yes => ({ h with state := .wantNo }, .refuse)
  | true, .yes | false, .no => (h, .ignore)
  | true, .wantNo | false, .wantYes => ({ h with queued := true }, .ignore)
  | true, .wantYes | false, .wantNo => ({ h with queued := false }, .ignore)

end Half

end VatTerminal.Telnet
