/-! # The tables of the chord keyset

A chord is a number of five bits, one for each key. The chords 1 to 31 type
the characters of the lower case table, and two more tables of the same size
hold what these become under a shift.
-/

namespace VatTerminal.Keyset

/-- Stands for a chord that types nothing. -/
def unmapped : Char := '\uFFFF'

def lowerCase : List Char := "abcdefghijklmnopqrstuvwxyz,.;? ".toList

def upperCase : List Char := "ABCDEFGHIJKLMNOPQRSTUVWXYZ<>:\\\t".toList

def symbolCase : List Char := "!\"#$%&'()@+-*/^0123456789=[]_\x1b\r".toList

def lookup (table : List Char) (chord : Nat) : Char :=
  if 1 ≤ chord ∧ chord ≤ 31 then table.getD (chord - 1) unmapped else unmapped

def chordChar (chord : UInt8) : Char := lookup lowerCase chord.toNat

def chordOf? (c : Char) : Option Nat := (lowerCase.idxOf? c).map (· + 1)

/-- The upper case of a character that a chord types; any other is left as it is. -/
def shiftUpper (c : Char) : Char := ((chordOf? c).map (lookup upperCase)).getD c

/-- The symbol of a character that a chord types; any other is left as it is. -/
def shiftSymbol (c : Char) : Char := ((chordOf? c).map (lookup symbolCase)).getD c

end VatTerminal.Keyset
