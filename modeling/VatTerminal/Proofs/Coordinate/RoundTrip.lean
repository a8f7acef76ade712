import VatTerminal.Coordinate.Reader
import VatTerminal.Coordinate.Writer

/-! # Numbers there and back

What has been written with the lead is read back, up to what two digits can
hold, and nothing of what follows is touched. Without the lead this is so of
the numbers that take one byte.
-/

namespace VatTerminal

namespace Coordinate

def Fits (x : Int) : Prop := 0 ≤ x ∧ x < 4096

instance (x : Int) : Decidable (Fits x) := inferInstanceAs (Decidable (_ ∧ _))

section Digits

variable {x : Int}

theorem isShort_iff : isShort x = true ↔ 0 ≤ x ∧ x < 93 := by
  rw [isShort, Bool.and_eq_true, decide_eq_true_iff, decide_eq_true_iff]
  rfl

theorem toNat_digitByte (x : Int) : (digitByte x).toNat = ((x + 32) % 256).toNat := by
  simp only [digitByte, UInt8.ofInt, UInt8.toNat_ofNat']
  omega

theorem digitOf_digitByte (h : 0 ≤ x) (hx : x < 224) : digitOf (digitByte x) = x := by
  rw [digitOf, toNat_digitByte]
  omega

theorem digitByte_ne_escapeLead (h : 0 ≤ x) (hx : x < 93) : digitByte x ≠ escapeLead := by
  intro he
  have hb := toNat_digitByte x
  rw [he, show escapeLead.toNat = 30 from rfl] at hb
  omega

theorem join_digits (x : Int) : join (x / 64 % 64) (x % 64) = x % 4096 := by
  unfold join; omega

end Digits

section Read

variable {x : Int} (rest : List UInt8)

theorem readX_single {b : UInt8} (h : b ≠ escapeLead) :
    readX (b :: rest) = (some (digitOf b), rest) := by
  simp only [readX, Reader.read, Reader.push, if_neg h]

theorem readX_wide (high low : UInt8) :
    readX (escapeLead :: high :: low :: rest) =
      (some (join (digitOf high) (digitOf low)), rest) := rfl

theorem readX_short (h : isShort x = true) :
    readX (digitByte x :: rest) = (some x, rest) := by
  obtain ⟨h₀, h₁⟩ := isShort_iff.mp h
  rw [readX_single rest (digitByte_ne_escapeLead h₀ h₁), digitOf_digitByte h₀ (by omega)]

theorem readX_writeX (x : Int) : readX (writeX x ++ rest) = (some (x % 4096), rest) := by
  unfold writeX
  split
  · next hs =>
    obtain ⟨h₀, h₁⟩ := isShort_iff.mp hs
    have hx : x % 4096 = x := Int.emod_eq_of_lt h₀ (by omega)
    rw [hx]
    exact readX_short rest hs
  · have hhigh : digitOf (digitByte (x / 64 % 64)) = x / 64 % 64 :=
      digitOf_digitByte (by omega) (by omega)
    have hlow : digitOf (digitByte (x % 64)) = x % 64 := digitOf_digitByte (by omega) (by omega)
    show readX (escapeLead :: _ :: _ :: rest) = _
    rw [readX_wide, hhigh, hlow, join_digits]

theorem readX_sendX (h : isShort x = true) : readX (sendX x ++ rest) = (some x, rest) := by
  rw [sendX, if_pos h]
  exact readX_short rest h

theorem flipRow_flipRow (rows : Nat) (y : Int) : flipRow rows (flipRow rows y) = y := by
  unfold flipRow; omega

end Read

namespace Writer

variable {w : Writer} {x y : Int}

/-- The numbers that can be read back from what the writer writes for them. -/
def Carries (w : Writer) (x : Int) : Prop :=
  if w.escapeWide then Fits x else isShort x = true

theorem readX_putX (h : w.Carries x) (rest : List UInt8) :
    readX (w.putX x ++ rest) = (some x, rest) := by
  unfold Carries at h
  unfold putX
  split
  · next hw =>
    rw [if_pos hw] at h
    rw [readX_writeX, Int.emod_eq_of_lt h.1 h.2]
  · next hw =>
    rw [if_neg hw] at h
    exact readX_sendX rest h

theorem readXY_put (hx : w.Carries x) (hy : w.Carries (flipRow w.rows y)) (rest : List UInt8) :
    readXY w.rows (w.putX x ++ w.putY y ++ rest) = (some (x, y), rest) := by
  have hrow : readY w.rows (w.putY y ++ rest) = (some y, rest) := by
    simp only [readY, putY, readX_putX hy, Option.map_some, flipRow_flipRow]
  rw [readXY, List.append_assoc, readX_putX hx]
  simp only [hrow]
  rfl

end Writer

end Coordinate

end VatTerminal
