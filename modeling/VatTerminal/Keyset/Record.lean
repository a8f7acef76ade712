import VatTerminal.Keyset.Error

/-! # Joystick records

The device sends records of eight bytes, the low byte of a number first: a
time in milliseconds, a value, a kind and a number. A valid record is a report
of the initial state, a button of four that goes up or down, or an axis.
-/

namespace VatTerminal.Keyset

structure Record where
  time : UInt32
  value : Int16
  /-- A combination of the kind bits below. -/
  kind : UInt8
  number : UInt8
  deriving DecidableEq

namespace Record

def size : Nat := 8

def buttonKind : UInt8 := 1
def axisKind : UInt8 := 2
def initKind : UInt8 := 128
def highestKey : UInt8 := 3

def isInit (r : Record) : Bool := r.kind &&& initKind == initKind
def isButton (r : Record) : Bool := r.kind == buttonKind
def isAxis (r : Record) : Bool := r.kind == axisKind

/-- The fields of the first eight bytes; a byte that is missing counts as 0. -/
def ofBytes (bytes : List UInt8) : Record :=
  let b (i : Nat) : UInt8 := bytes.getD i 0
  { time := UInt32.ofNat ((b 0).toNat + (b 1).toNat * 256 + (b 2).toNat * 65536 +
      (b 3).toNat * 16777216)
    value := Int16.ofInt ((b 4).toNat + (b 5).toNat * 256)
    kind := b 6
    number := b 7 }

/-- The first field at fault is named: an unknown kind, a number that is no key, a button that is
neither up nor down. -/
def validate (r : Record) : Except Error Unit :=
  if r.kind = 0 ∨ r.kind &&& (buttonKind ||| axisKind ||| initKind) ≠ r.kind then
    .error (.invalidRecord "type" r.kind.toNat)
  else if r.isInit then .ok ()
  else if r.kind ≠ buttonKind ∧ r.kind ≠ axisKind then
    .error (.invalidRecord "type" r.kind.toNat)
  else if highestKey < r.number then .error (.invalidRecord "number" r.number.toNat)
  else if r.isButton ∧ r.value ≠ 0 ∧ r.value ≠ 1 then
    .error (.invalidRecord "value" r.value.toInt)
  else .ok ()

def parse (bytes : List UInt8) : Except Error Record :=
  let r := ofBytes bytes
  r.validate.map fun _ => r

end Record

end VatTerminal.Keyset
