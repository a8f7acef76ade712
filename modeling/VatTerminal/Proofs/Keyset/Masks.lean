import VatTerminal.Keyset.Chord

/-! # Masks of keys

A mask is a set of keys with a bit for each. A press puts a key into both masks
of a chord, and a release takes it out of the one of the keys held now. A
record that has been read is about one of five keys, so no other is ever in a
mask.
-/

namespace VatTerminal.Keyset

namespace Record

def Read (r : Record) : Prop := ∃ bytes : List UInt8, bytes.length = size ∧ parse bytes = .ok r

/-- What a record says of a key, where it says anything: whether it is down. -/
def says? (r : Record) (key : Nat) : Option Bool :=
  if r.isInit then none
  else if r.isButton ∧ r.number.toNat = key then some (r.value == 1)
  else if r.isAxis ∧ key = 4 then some (decide (-13000 < r.value))
  else none

variable {r : Record}

theorem Read.valid (h : r.Read) : r.validate = .ok () := by
  obtain ⟨bytes, -, hp⟩ := h
  simp only [parse] at hp
  cases hv : (ofBytes bytes).validate with
  | error e =>
    rw [hv] at hp
    cases hp
  | ok u =>
    rw [hv] at hp
    cases hp
    exact hv

theorem says?_of_init (h : r.isInit = true) (key : Nat) : r.says? key = none := if_pos h

/-- A record that has been read and is no report of the initial state is a button of four or the
axis. -/
theorem Read.live (h : r.Read) (hi : r.isInit = false) :
    (r.isButton = true ∧ r.number ≤ highestKey) ∨ r.isButton = false ∧ r.isAxis = true := by
  have hv := h.valid
  unfold validate at hv
  split at hv
  · cases hv
  simp only [hi, Bool.false_eq_true, if_false] at hv
  split at hv
  · cases hv
  next hkind =>
  split at hv
  · cases hv
  next hnumber =>
  by_cases hb : r.kind = buttonKind
  · exact .inl ⟨beq_iff_eq.mpr hb, UInt8.not_lt.mp hnumber⟩
  · have ha : r.kind = axisKind := Decidable.of_not_not fun ha => hkind ⟨hb, ha⟩
    exact .inr ⟨beq_eq_false_iff_ne.mpr hb, beq_iff_eq.mpr ha⟩

end Record

namespace Chord

variable {r : Record} {key : Nat}

theorem keyOf_lt (h : r.Read) (hi : r.isInit = false) : (keyOf r).toNat < 5 := by
  rcases h.live hi with ⟨hb, hn⟩ | ⟨hb, -⟩
  · rw [keyOf, if_pos hb]
    exact Nat.lt_of_le_of_lt (UInt8.le_iff_toNat_le.mp hn) (by decide)
  · simp only [keyOf, hb, Bool.false_eq_true, if_false]
    decide

theorem says?_of_live (h : r.Read) (hi : r.isInit = false) :
    r.says? key = if (keyOf r).toNat = key then some (isDown r) else none := by
  rcases h.live hi with ⟨hb, -⟩ | ⟨hb, ha⟩
  · have hax : r.isAxis = false := by
      rw [Record.isButton, beq_iff_eq] at hb
      rw [Record.isAxis, hb]
      rfl
    simp [Record.says?, keyOf, isDown, hi, hb, hax]
  · have haxis : axisKey.toNat = key ↔ key = 4 := eq_comm
    simp [Record.says?, keyOf, isDown, hi, hb, ha, haxis]
    rfl

def holds (mask : UInt8) (key : Nat) : Bool := mask.toNat.testBit key

@[simp] theorem holds_zero (key : Nat) : holds 0 key = false := Nat.zero_testBit key

theorem eq_zero_iff {mask : UInt8} : mask = 0 ↔ ∀ key, holds mask key = false := by
  constructor
  · rintro rfl key
    exact holds_zero key
  · intro h
    exact UInt8.toNat_inj.mp
      (Nat.eq_of_testBit_eq fun key => (h key).trans (Nat.zero_testBit key).symm)

theorem toNat_lt_of_holds {mask : UInt8} (h : ∀ key, holds mask key = true → key < 5) :
    mask.toNat < 32 := by
  refine Nat.lt_pow_two_of_testBit (n := 5) _ ?_
  intro key hk
  exact Bool.eq_false_iff.mpr fun hb => absurd (h key hb) (Nat.not_lt.mpr hk)

theorem holds_keyBit {k : UInt8} (hk : k.toNat < 8) :
    holds (keyBit k) key = decide (k.toNat = key) := by
  have hbit : (keyBit k).toNat = 2 ^ k.toNat := by
    have hlt : 2 ^ k.toNat < 2 ^ 8 := Nat.pow_lt_pow_right (by decide) hk
    rw [keyBit, if_pos (UInt8.lt_iff_toNat_lt.mpr hk), UInt8.toNat_shiftLeft, Nat.mod_eq_of_lt hk]
    simpa [Nat.one_shiftLeft] using Nat.mod_eq_of_lt hlt
  rw [holds, hbit, Nat.testBit_two_pow]

theorem holds_press {mask k : UInt8} (hk : k.toNat < 8) :
    holds (mask ||| keyBit k) key = (holds mask key || decide (k.toNat = key)) := by
  rw [← holds_keyBit hk, holds, UInt8.toNat_or, Nat.testBit_or]
  rfl

theorem holds_lift {mask k : UInt8} (hk : k.toNat < 8) :
    holds (mask &&& ~~~keyBit k) key = (holds mask key && !decide (k.toNat = key)) := by
  rw [← holds_keyBit hk]
  show (mask.toBitVec &&& ~~~(keyBit k).toBitVec).getLsbD key =
    (mask.toBitVec.getLsbD key && !(keyBit k).toBitVec.getLsbD key)
  rw [BitVec.getLsbD_and, BitVec.getLsbD_not]
  -- Beyond the eighth key the mask has no bit, and the complement none either.
  by_cases hlt : key < 8
  · rw [decide_eq_true hlt, Bool.true_and]
  · rw [BitVec.getLsbD_of_ge _ _ (Nat.not_lt.mp hlt), Bool.false_and, Bool.false_and]

end Chord

end VatTerminal.Keyset
