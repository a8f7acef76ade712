import VatTerminal.Telnet.Half

/-! # Options

A code and a name, which sides are supported, and the two halves. Every
operation on an option is one on the half of one side.
-/

namespace VatTerminal

open Telnet

structure TelnetOption where
  code : UInt8
  name : String
  localSupport : Bool
  remoteSupport : Bool
  us : Half := {}
  him : Half := {}
  associated : Bool := false
  deriving DecidableEq

namespace TelnetOption

def half (o : TelnetOption) : Side → Half
  | .localSide => o.us
  | .remoteSide => o.him

def support (o : TelnetOption) : Side → Bool
  | .localSide => o.localSupport
  | .remoteSide => o.remoteSupport

def mode (o : TelnetOption) (s : Side) : Mode := (o.half s).mode

def setHalf (o : TelnetOption) (s : Side) (h : Half) : TelnetOption :=
  match s with
  | .localSide => { o with us := h }
  | .remoteSide => { o with him := h }

/-- Our wish for a side. To enable what is not supported is a wish to disable it. -/
def request (o : TelnetOption) (s : Side) (enable : Bool) : TelnetOption × Option Verb :=
  let r := (o.half s).request (enable && o.support s)
  (o.setHalf s r.1, r.2.verb? s)

def receive (o : TelnetOption) (v : Verb) : TelnetOption × Option Verb :=
  let r := (o.half v.side).receive v.enables (o.support v.side)
  (o.setHalf v.side r.1, r.2.verb? v.side)

section Lemmas

variable (o : TelnetOption) (s t : Side) (h : Half)

@[simp] theorem half_setHalf : (o.setHalf s h).half s = h := by cases s <;> rfl

theorem half_setHalf_of_ne (hst : s ≠ t) : (o.setHalf s h).half t = o.half t := by
  cases s <;> cases t <;> simp_all [half, setHalf]

@[simp] theorem code_setHalf : (o.setHalf s h).code = o.code := by cases s <;> rfl

@[simp] theorem name_setHalf : (o.setHalf s h).name = o.name := by cases s <;> rfl

@[simp] theorem associated_setHalf : (o.setHalf s h).associated = o.associated := by
  cases s <;> rfl

@[simp] theorem support_setHalf : (o.setHalf s h).support t = o.support t := by
  cases s <;> cases t <;> rfl

end Lemmas

end TelnetOption

end VatTerminal
