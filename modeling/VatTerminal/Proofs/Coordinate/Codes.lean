import VatTerminal.Proofs.Coordinate.RoundTrip

/-! # Numbers one after the other

What is written with the lead is a code in which no number is the beginning of
another: any numbers can be written one after the other and are read back one by
one, up to what two digits hold. Without the lead this is so of the numbers of
one byte and of no other.
-/

namespace VatTerminal.Coordinate

def readEach (read : List UInt8 → Option Int × List UInt8) :
    Nat → List UInt8 → List (Option Int) × List UInt8
  | 0, bytes => ([], bytes)
  | n + 1, bytes =>
    let (x, rest) := read bytes
    let (xs, rest) := readEach read n rest
    (x :: xs, rest)

/-- The numbers are told apart by what is written for them. Any of them, one after the other and in
front of anything, are read one by one as the values they stand for, with nothing taken of what
follows, and what is cut short is not read as a number. -/
structure Decodes (write : Int → List UInt8) (read : List UInt8 → Option Int × List UInt8)
    (value : Int → Int) (numbers : Int → Prop) : Prop where
  each : ∀ xs : List Int, (∀ x ∈ xs, numbers x) → ∀ rest,
    readEach read xs.length (xs.flatMap write ++ rest) = (xs.map fun x => some (value x), rest)
  part : ∀ x, numbers x → ∀ bytes, bytes <+: write x → bytes ≠ write x → read bytes = (none, [])

section Decodes

variable {write : Int → List UInt8} {read : List UInt8 → Option Int × List UInt8}
  {value : Int → Int} {numbers : Int → Prop}

theorem readEach_flatMap {xs : List Int}
    (h : ∀ x ∈ xs, ∀ rest, read (write x ++ rest) = (some (value x), rest)) (rest : List UInt8) :
    readEach read xs.length (xs.flatMap write ++ rest) =
      (xs.map fun x => some (value x), rest) := by
  induction xs with
  | nil => rfl
  | cons x xs ih =>
    obtain ⟨hx, hxs⟩ := List.forall_mem_cons.mp h
    simp only [List.flatMap_cons, List.append_assoc, List.length_cons, readEach, hx, ih hxs,
      List.map_cons]

theorem Decodes.congr (h : Decodes write read value numbers) {other : Int → Int}
    {fewer : Int → Prop} (hf : ∀ x, fewer x → numbers x ∧ value x = other x) :
    Decodes write read other fewer where
  each xs hxs rest := by
    rw [h.each xs fun x hx => (hf x (hxs x hx)).1]
    congr 1
    exact List.map_congr_left fun x hx => congrArg some (hf x (hxs x hx)).2
  part x hx := h.part x (hf x hx).1

end Decodes

section Parts

variable {x : Int} {b : UInt8} {bytes : List UInt8}

theorem eq_nil_of_prefix_singleton (h : bytes <+: [b]) (hne : bytes ≠ [b]) : bytes = [] := by
  rcases List.prefix_cons_iff.mp h with rfl | ⟨tail, rfl, htail⟩
  · rfl
  · exact absurd (congrArg (b :: ·) (List.prefix_nil.mp htail)) hne

/-- A number in the wide form is not complete before its low digit. -/
theorem readX_of_prefix_wide {high low : UInt8} (h : bytes <+: [escapeLead, high, low])
    (hne : bytes ≠ [escapeLead, high, low]) : readX bytes = (none, []) := by
  rcases List.prefix_cons_iff.mp h with rfl | ⟨tail, rfl, htail⟩
  · rfl
  rcases List.prefix_cons_iff.mp htail with rfl | ⟨last, rfl, hlast⟩
  · rfl
  · have hnil : last = [] := by
      refine eq_nil_of_prefix_singleton hlast ?_
      rintro rfl
      exact hne rfl
    subst hnil
    rfl

theorem readX_of_prefix_writeX (h : bytes <+: writeX x) (hne : bytes ≠ writeX x) :
    readX bytes = (none, []) := by
  unfold writeX at h hne
  split at h
  · next hs =>
    rw [if_pos hs] at hne
    rw [eq_nil_of_prefix_singleton h hne]
    rfl
  · next hs =>
    rw [if_neg hs] at hne
    exact readX_of_prefix_wide h hne

end Parts

theorem decodes_writeX : Decodes writeX readX (· % 4096) fun _ => True where
  each _ _ := readEach_flatMap fun x _ rest => readX_writeX rest x
  part _ _ _ := readX_of_prefix_writeX

theorem decodes_writeY (rows : Nat) :
    Decodes (writeY rows) (readY rows) (fun y => flipRow rows (flipRow rows y % 4096))
      fun _ => True where
  each _ _ := readEach_flatMap fun y _ rest => by
    rw [readY, writeY, readX_writeX]
    rfl
  part y _ bytes h hne := by
    rw [readY, readX_of_prefix_writeX h hne]
    rfl

theorem flipRow_mod {rows : Nat} (hr : rows ≤ 4096) {y : Int} (h₀ : 0 ≤ y) (hy : y < rows) :
    flipRow rows (flipRow rows y % 4096) = y := by
  have hmod : flipRow rows y % 4096 = flipRow rows y := by
    have he : ofExtent rows = rows := by
      rw [ofExtent, Nat.min_eq_left (Nat.le_trans hr (by decide))]
    refine Int.emod_eq_of_lt ?_ ?_
    · rw [flipRow, he]
      omega
    · rw [flipRow, he]
      omega
  rw [hmod, flipRow_flipRow]

theorem sendX_of_short {x : Int} (h : isShort x = true) : sendX x = writeX x := by
  rw [sendX, writeX, if_pos h, if_pos h]

/-- Of two bytes without the lead one is taken or, where the first could be a lead, none is enough. -/
theorem isShort_of_readX_sendX {x y : Int} (h : readX (sendX x) = (some y, [])) :
    isShort x = true := by
  cases hs : isShort x with
  | true => rfl
  | false =>
    simp only [sendX, hs, Bool.false_eq_true, if_false] at h
    by_cases hlead : digitByte (x / 64) = escapeLead
    · rw [hlead] at h
      cases h
    · rw [readX_single _ hlead] at h
      cases h

theorem decodes_sendX_iff {numbers : Int → Prop} :
    Decodes sendX readX (· % 4096) numbers ↔ ∀ x, numbers x → 0 ≤ x ∧ x ≤ 92 := by
  constructor
  · intro h x hx
    have hone := h.each [x] (by simpa using hx) []
    rw [List.flatMap_singleton, List.append_nil] at hone
    have hread : readX (sendX x) = (some (x % 4096), []) := by
      simpa [readEach, Prod.ext_iff] using hone
    have hshort := isShort_iff.mp (isShort_of_readX_sendX hread)
    omega
  · intro h
    have hshort : ∀ x, numbers x → sendX x = writeX x := by
      intro x hx
      refine sendX_of_short (isShort_iff.mpr ?_)
      have hrange := h x hx
      omega
    refine ⟨fun xs hxs => readEach_flatMap fun x hx rest => ?_, fun x hx bytes => ?_⟩
    · rw [hshort x (hxs x hx)]
      exact readX_writeX rest x
    · rw [hshort x hx]
      exact readX_of_prefix_writeX

/-- Any numbers, written with the lead one after the other and in front of anything, are read back
one by one up to multiples of 4096, and as they are where twelve bits hold them. So are rows counted
from the other end, which on at most 4096 rows are the rows of the screen themselves. Nothing of what
follows is taken, and no beginning of a number is a number. Without the lead all this is so of the
numbers of one byte and of no others. -/
theorem numbers_told_apart :
    Decodes writeX readX (· % 4096) (fun _ => True) ∧ Decodes writeX readX id Fits ∧
      (∀ rows, Decodes (writeY rows) (readY rows)
        (fun y => flipRow rows (flipRow rows y % 4096)) fun _ => True) ∧
      (∀ rows : Nat, rows ≤ 4096 →
        Decodes (writeY rows) (readY rows) id fun y => 0 ≤ y ∧ y < rows) ∧
      ∀ numbers : Int → Prop, Decodes sendX readX (· % 4096) numbers ↔
        ∀ x, numbers x → 0 ≤ x ∧ x ≤ 92 := by
  refine ⟨decodes_writeX, ?_, decodes_writeY, fun rows hr => ?_, fun _ => decodes_sendX_iff⟩
  · exact decodes_writeX.congr fun x hx => ⟨trivial, Int.emod_eq_of_lt hx.1 hx.2⟩
  · exact (decodes_writeY rows).congr fun y hy => ⟨trivial, flipRow_mod hr hy.1 hy.2⟩

/-- Around the largest number of one byte and the largest of two digits, in front of another lead; a
number that is cut short; and the smallest number that is lost without the lead. -/
theorem numbers_told_apart_boundary :
    readEach readX 5 ([92, 93, 4095, -1, -4096].flatMap writeX ++ [30, 7]) =
        ([some 92, some 93, some 4095, some 4095, some 0], [30, 7]) ∧
      [30, 34] <+: writeX 130 ∧ readX [30, 34] = (none, []) ∧
      readEach (readY 4096) 3 ([0, 4003, 4095].flatMap (writeY 4096) ++ [30]) =
        ([some 0, some 4003, some 4095], [30]) ∧
      ¬ Decodes sendX readX (· % 4096) (· = 93) := by
  obtain ⟨hall, -, -, hrows, hsend⟩ := numbers_told_apart
  have hpart : [30, 34] <+: writeX 130 := by decide
  refine ⟨?_, hpart, hall.part 130 trivial _ hpart (by decide), ?_, fun h => ?_⟩
  · exact hall.each [92, 93, 4095, -1, -4096] (fun _ _ => trivial) [30, 7]
  · exact (hrows 4096 (Nat.le_refl _)).each [0, 4003, 4095] (by decide) [30]
  · exact absurd ((hsend _).mp h 93 rfl).2 (by decide)

end VatTerminal.Coordinate
