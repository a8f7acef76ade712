import VatTerminal.Coordinate.Reader

/-! # Numbers in range

A number read off the wire is at least -32 and less than 4096, and it is never
-2: the byte that would stand for -2 is the lead. Coordinates have 32 bits, and
a subtraction that leaves their range has no result. On a screen with no more
rows than `tallest` every number that can be read is flipped within the range.
An index of a screen is, however many rows there are.
-/

namespace VatTerminal

namespace Coordinate

/-- The numbers that can be read off the wire. -/
def Readable (x : Int) : Prop := -32 ≤ x ∧ x ≤ 4095 ∧ x ≠ -2

instance : DecidablePred Readable := fun _ => inferInstanceAs (Decidable (_ ∧ _))

section Read

theorem readable_zero : Readable 0 := by decide

theorem readable_digitOf {b : UInt8} (h : b ≠ escapeLead) : Readable (digitOf b) := by
  have hlt : b.toNat < 256 := b.toNat_lt
  have hlead : b.toNat ≠ 30 := fun he => h (UInt8.toNat_inj.mp he)
  unfold Readable digitOf
  omega

theorem readable_join (high low : Int) : Readable (join high low) := by
  have h₀ := join_nonneg high low
  have h₁ := join_lt high low
  unfold Readable
  omega

theorem readable_of_push {r s : Reader} {b : UInt8} {x : Int} (h : r.push b = (s, some x)) :
    Readable x := by
  cases r with
  | start =>
    rw [Reader.push] at h
    split at h
    · cases h
    · next hb =>
      cases h
      exact readable_digitOf hb
  | high => cases h
  | low high =>
    cases h
    exact readable_join high (digitOf b)

end Read

section Range

def minCoordinate : Int := -2147483648

/-- The numbers of 32 bits. -/
def InRange (x : Int) : Prop := minCoordinate ≤ x ∧ x ≤ maxCoordinate

instance : DecidablePred InRange := fun _ => inferInstanceAs (Decidable (_ ∧ _))

def sub? (x y : Int) : Option Int := if InRange (x - y) then some (x - y) else none

/-- Flip a row by two subtractions, each of which has to stay in range. -/
def flipRow? (rows : Nat) (row : Int) : Option Int := do
  let above ← sub? (ofExtent rows) row
  sub? above 1

/-- The most rows with which every number that can be read is flipped within the range. -/
def tallest : Nat := 2147483615

variable {rows : Nat} {row : Int}

theorem sub?_of_inRange {x y : Int} (h : InRange (x - y)) : sub? x y = some (x - y) := if_pos h

theorem flipRow?_of_inRange (h : InRange (ofExtent rows - row)) (h₁ : InRange (flipRow rows row)) :
    flipRow? rows row = some (flipRow rows row) := by
  rw [flipRow?, sub?_of_inRange h]
  exact sub?_of_inRange h₁

theorem ofExtent_nonneg (n : Nat) : 0 ≤ ofExtent n := Int.natCast_nonneg _

theorem ofExtent_le (n : Nat) : ofExtent n ≤ maxCoordinate :=
  Int.ofNat_le.mpr (Nat.min_le_right n maxCoordinate)

theorem flipRow?_of_readable (h : rows ≤ tallest) (hr : Readable row) :
    flipRow? rows row = some (flipRow rows row) := by
  have h₀ := ofExtent_nonneg rows
  have hrows : ofExtent rows ≤ tallest :=
    Int.ofNat_le.mpr (Nat.le_trans (Nat.min_le_left rows maxCoordinate) h)
  apply flipRow?_of_inRange
  all_goals
    simp only [InRange, flipRow, Readable, minCoordinate, maxCoordinate, tallest] at *
    omega

/-- With one row more the byte 0 is flipped out of the range. -/
example : flipRow? tallest (-32) = some 2147483646 ∧ flipRow? (tallest + 1) (-32) = none := by
  decide

/-- The difference of two extents is never out of range, even where they are too large to be
coordinates. -/
theorem flipRow?_ofExtent (rows n : Nat) :
    flipRow? rows (ofExtent n) = some (flipRow rows (ofExtent n)) := by
  have h₀ := ofExtent_nonneg rows
  have h₁ := ofExtent_le rows
  have hn₀ := ofExtent_nonneg n
  have hn₁ := ofExtent_le n
  apply flipRow?_of_inRange
  all_goals
    simp only [InRange, flipRow, minCoordinate, maxCoordinate] at *
    omega

theorem flipRow_ofExtent_mem {n : Nat} (h : rows ≤ tallest) (hn : n < rows) :
    0 ≤ flipRow rows (ofExtent n) ∧ flipRow rows (ofExtent n) < rows := by
  simp only [flipRow, ofExtent, maxCoordinate, tallest] at *
  omega

end Range

end Coordinate

end VatTerminal
