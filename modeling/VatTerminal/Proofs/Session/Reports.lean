import VatTerminal.Proofs.Coordinate.RoundTrip
import VatTerminal.Proofs.Session.Bounds
import VatTerminal.Proofs.Session.Gestures

/-! # Reading reports

The host reads a report with the code it is written in. On every screen whose
extents that code can carry it finds the place the gesture was made at, and
after it what else the report says.
-/

namespace VatTerminal

theorem Screen.placeAt_inside {s : Screen} (hp : s.size.Positive) (p : Point) :
    (s.placeAt p).Inside s.size where
  row := Nat.lt_of_le_of_lt (Nat.min_le_right _ _) (Session.lastRow_lt hp)
  col := Nat.lt_of_le_of_lt (Nat.min_le_right _ _) (Session.lastColumn_lt hp)

namespace Coordinate

/-- The number of rows or columns that can be told apart in either form. -/
def reach (escapeWide : Bool) : Nat := if escapeWide then 4096 else 93

/-- The screen has a cell, and each of its places can be told in the form. -/
structure Legible (escapeWide : Bool) (size : Size) : Prop extends size.Positive where
  rows_le : size.rows ≤ reach escapeWide
  columns_le : size.columns ≤ reach escapeWide

theorem ofExtent_of_le_reach {escapeWide : Bool} {n : Nat} (h : n ≤ reach escapeWide) :
    ofExtent n = n := by
  have hr : reach escapeWide ≤ maxCoordinate := by cases escapeWide <;> decide
  rw [ofExtent, Nat.min_eq_left (Nat.le_trans h hr)]

theorem Writer.carries_of_lt_reach {w : Writer} {x : Int} (h₀ : 0 ≤ x)
    (h : x < reach w.escapeWide) : w.Carries x := by
  unfold reach at h
  unfold Carries
  split
  · next hw =>
    rw [if_pos hw] at h
    exact ⟨h₀, h⟩
  · next hw =>
    rw [if_neg hw] at h
    exact isShort_iff.mpr ⟨h₀, h⟩

end Coordinate

namespace Session

open Coordinate

/-- The bytes tell a place to whoever counts that many rows, and go on with the rest. -/
def Names (rows : Nat) (bytes : List UInt8) (p : Place) (rest : List UInt8) : Prop :=
  readXY rows bytes = (some ((p.col : Int), (p.row : Int)), rest)

instance (rows : Nat) (bytes : List UInt8) (p : Place) (rest : List UInt8) :
    Decidable (Names rows bytes p rest) := inferInstanceAs (Decidable (_ = _))

def placeReport (s : Session) (size : Size) (p : Place) : List UInt8 :=
  (s.writer size).putX (ofExtent p.col) ++ (s.writer size).putY (ofExtent p.row)

/-- The place under the pointer, or the first one where the pointer is unknown. -/
def pointerPlace (s : Session) (screen : Screen) : Place :=
  (s.mouse.pointer.map screen.placeAt).getD {}

section Forms

variable {s : Session} {screen : Screen} {c : Char} {b : Button} {k : UInt8} {body : List UInt8}

theorem names_placeReport {size : Size} (h : Legible s.escapeWide size) {p : Place}
    (hp : p.Inside size) (rest : List UInt8) :
    Names size.rows (s.placeReport size p ++ rest) p rest := by
  have hrow := hp.row
  have hcol := hp.col
  have hrows := h.rows_le
  have hcols := h.columns_le
  have hx : ofExtent p.col = p.col := ofExtent_of_le_reach (Nat.le_trans (Nat.le_of_lt hcol) hcols)
  have hy : ofExtent p.row = p.row := ofExtent_of_le_reach (Nat.le_trans (Nat.le_of_lt hrow) hrows)
  have hx' : (s.writer size).Carries p.col :=
    Writer.carries_of_lt_reach (by omega) (Int.ofNat_lt.mpr (Nat.lt_of_lt_of_le hcol hcols))
  -- On the wire rows are counted from the bottom, which keeps them among the rows there are.
  have hy' : (s.writer size).Carries (flipRow size.rows p.row) := by
    rw [flipRow, ofExtent_of_le_reach hrows]
    refine Writer.carries_of_lt_reach (by omega) ?_
    show _ < ((reach s.escapeWide : Nat) : Int)
    omega
  rw [Names, placeReport, hx, hy]
  exact Writer.readXY_put hx' hy' rest

theorem interrogation_reads {size : Size} (h : Legible s.escapeWide size) :
    ∃ body rest, s.interrogation size = [28, 38] ++ body ∧
      readX body = (some ((size.columns : Int) - 1), rest) ∧
      readX rest = (some ((size.rows : Int) - 1), [38, 32, 33]) := by
  have hread {n : Nat} (hn : 0 < n) (hle : n ≤ reach s.escapeWide) (rest : List UInt8) :
      readX ((s.writer size).putX (ofExtent (n - 1)) ++ rest) = (some ((n : Int) - 1), rest) := by
    have he : ofExtent (n - 1) = (n : Int) - 1 := by
      rw [ofExtent_of_le_reach (Nat.le_trans (Nat.sub_le n 1) hle)]
      omega
    rw [he]
    refine Writer.readX_putX (Writer.carries_of_lt_reach (by omega) ?_) rest
    show _ < ((reach s.escapeWide : Nat) : Int)
    omega
  refine ⟨_, _, ?_, hread h.columns h.columns_le _, hread h.rows h.rows_le _⟩
  simp only [interrogation, List.append_assoc]
  rfl

theorem enterReport_eq (s : Session) (screen : Screen) : s.enterReport screen =
    [28, 34] ++ s.placeReport screen.size (s.pointerPlace screen) ++ [4] := by
  unfold enterReport pointerPlace
  cases s.mouse.pointer <;> rfl

theorem chordedKey_cases (s : Session) (screen : Screen) (mask : UInt8) (p : Point) (c : Char) :
    (s.chordedKey screen mask p c).length ≤ 1 ∨ s.chordedKey screen mask p c =
      [28, 35, 64 + mask] ++ s.pointReport screen p ++ [lowByte c] := by
  unfold chordedKey
  split
  · exact .inl (Nat.le_refl 1)
  split
  · exact .inl (Nat.le_refl 1)
  split
  · exact .inl (Nat.le_refl 1)
  split
  · exact .inr rfl
  · exact .inl (Nat.zero_le 1)

theorem keyTyped_cases (s : Session) (screen : Screen) (c : Char) :
    let bytes := (s.keyTyped screen c).2
    bytes.length ≤ 1 ∨ bytes = [13, 10] ∨
      bytes = [28, 34] ++ s.placeReport screen.size (s.pointerPlace screen) ++ [4] ∨
      s.mouse.mask ≠ 0 ∧ bytes = [28, 35, 64 + s.mouse.mask] ++
        s.pointReport screen (s.mouse.pressPoint.getD {}) ++ [lowByte c] := by
  intro bytes
  by_cases hm : s.mouse.mask = 0
  · have hb : bytes = s.plainKey screen c := by simp only [bytes, keyTyped, if_pos hm]
    rw [plainKey, enterReport_eq] at hb
    split at hb
    · exact .inr (.inr (.inl hb))
    split at hb
    · exact .inr (.inl hb)
    · exact .inl (hb ▸ Nat.le_refl 1)
  · have hb : bytes = s.chordedKey screen s.mouse.mask (s.mouse.pressPoint.getD {}) c := by
      simp only [bytes, keyTyped, if_neg hm]
    rw [hb]
    exact (chordedKey_cases ..).imp_right fun he => .inr (.inr ⟨hm, he⟩)

theorem keyTyped_enter (h : (s.keyTyped screen c).2 = 28 :: 34 :: body) :
    body = s.placeReport screen.size (s.pointerPlace screen) ++ [4] := by
  rcases keyTyped_cases s screen c with hb | hb | hb | ⟨-, hb⟩ <;> rw [h] at hb
  · simp at hb
  · simp at hb
  · simpa using hb
  · simp at hb

theorem keyTyped_chord (h : (s.keyTyped screen c).2 = 28 :: 35 :: k :: body) :
    s.mouse.mask ≠ 0 ∧ k = 64 + s.mouse.mask ∧
      body = s.pointReport screen (s.mouse.pressPoint.getD {}) ++ [lowByte c] := by
  rcases keyTyped_cases s screen c with hb | hb | hb | ⟨hm, hb⟩ <;> rw [h] at hb
  · simp at hb
  · simp at hb
  · simp at hb
  · exact ⟨hm, by simpa using hb⟩

/-- The report of a gesture is a place and a code, a place under a chord, or at most one byte. -/
theorem gestureReport_cases (s : Session) (screen : Screen) (mask : UInt8) (p : Point) :
    (s.gestureReport screen mask p).length ≤ 1 ∨
      s.gestureReport screen mask p = [28, 34] ++ s.pointReport screen p ++ [gestureCode mask] ∨
      s.gestureReport screen mask p = [28, 35, 64] ++ s.pointReport screen p := by
  unfold gestureReport
  split
  · split
    · exact .inr (.inl rfl)
    split
    · exact .inr (.inr rfl)
    · exact .inl (Nat.zero_le 1)
  · split
    · exact .inr (.inl rfl)
    split
    · exact .inl (Nat.le_refl 1)
    · exact .inl (Nat.zero_le 1)

theorem mouseReleased_cases (s : Session) (screen : Screen) (b : Button) :
    let bytes := (s.mouseReleased screen b).2
    bytes.length ≤ 1 ∨ s.mouse.mask ≠ 0 ∧
      (bytes = [28, 34] ++ s.pointReport screen (s.mouse.pressPoint.getD {}) ++
          [gestureCode s.mouse.mask] ∨
        bytes = [28, 35, 64] ++ s.pointReport screen (s.mouse.pressPoint.getD {})) := by
  intro bytes
  by_cases hr : s.reportsRelease = true
  · have hb : bytes = s.gestureReport screen s.mouse.mask (s.mouse.pressPoint.getD {}) := if_pos hr
    have hm : s.mouse.mask ≠ 0 := by
      intro hz
      simp only [reportsRelease, hz, Bool.and_eq_true, bne_iff_ne] at hr
      exact hr.2 rfl
    rw [hb]
    exact (gestureReport_cases ..).imp_right fun he => ⟨hm, he⟩
  · have hb : bytes = [] := if_neg hr
    exact .inl (hb ▸ Nat.zero_le 1)

theorem mouseReleased_button (h : (s.mouseReleased screen b).2 = 28 :: 34 :: body) :
    s.mouse.mask ≠ 0 ∧
      body = s.pointReport screen (s.mouse.pressPoint.getD {}) ++ [gestureCode s.mouse.mask] := by
  rcases mouseReleased_cases s screen b with hb | ⟨hm, hb | hb⟩ <;> rw [h] at hb
  · simp at hb
  · exact ⟨hm, by simpa using hb⟩
  · simp at hb

theorem mouseReleased_chord (h : (s.mouseReleased screen b).2 = 28 :: 35 :: k :: body) :
    s.mouse.mask ≠ 0 ∧ k = 64 ∧ body = s.pointReport screen (s.mouse.pressPoint.getD {}) := by
  rcases mouseReleased_cases s screen b with hb | ⟨hm, hb | hb⟩ <;> rw [h] at hb
  · simp at hb
  · simp at hb
  · exact ⟨hm, by simpa using hb⟩

end Forms

/-- The host can read a report back. Whatever has been done to a session, and wherever the pointer
is, the numbers of a report are the place of the cell under it: of the pointer where an Enter
reports, of the last press otherwise. What follows them is what ends the report. An interrogation is
answered with the last column and the last row. -/
theorem run_reports (size : Size) (escapeWide : Bool) (before : List (Screen × Act))
    (screen : Screen) (hl : Legible escapeWide screen.size) :
    let s := (initial size escapeWide).run before
    (∀ c body, (s.keyTyped screen c).2 = [28, 34] ++ body →
      Names screen.size.rows body (s.pointerPlace screen) [4]) ∧
    (∀ c lead body, (s.keyTyped screen c).2 = [28, 35, lead] ++ body →
      lead = 64 + s.mouse.mask ∧ ∃ p, s.mouse.pressPoint = some p ∧
        Names screen.size.rows body (screen.placeAt p) [lowByte c]) ∧
    (∀ b body, (s.mouseReleased screen b).2 = [28, 34] ++ body →
      ∃ p, s.mouse.pressPoint = some p ∧
        Names screen.size.rows body (screen.placeAt p) [gestureCode s.mouse.mask]) ∧
    (∀ b lead body, (s.mouseReleased screen b).2 = [28, 35, lead] ++ body →
      lead = 64 ∧ ∃ p, s.mouse.pressPoint = some p ∧
        Names screen.size.rows body (screen.placeAt p) []) ∧
    ∃ body rest, (s.apply screen.size .interrogate).2.reply = [28, 38] ++ body ∧
      readX body = (some ((screen.size.columns : Int) - 1), rest) ∧
      readX rest = (some ((screen.size.rows : Int) - 1), [38, 32, 33]) := by
  intro s
  have hs : s.mouse.Sound := sound_run sound_initial before
  have hw : s.escapeWide = escapeWide := escapeWide_run _ before
  rw [← hw] at hl
  have hpress (hm : s.mouse.mask ≠ 0) (rest : List UInt8) : ∃ p, s.mouse.pressPoint = some p ∧
      Names screen.size.rows (s.pointReport screen (s.mouse.pressPoint.getD {}) ++ rest)
        (screen.placeAt p) rest := by
    obtain ⟨p, hp⟩ := Option.isSome_iff_exists.mp (hs.pressed hm)
    rw [hp]
    exact ⟨p, rfl, names_placeReport hl (Screen.placeAt_inside hl.toPositive p) rest⟩
  refine ⟨?_, ?_, ?_, ?_, interrogation_reads hl⟩
  · intro c body hb
    have he : body = _ := keyTyped_enter hb
    rw [he]
    refine names_placeReport hl ?_ [4]
    unfold pointerPlace
    cases s.mouse.pointer with
    | none => exact ⟨hl.rows, hl.columns⟩
    | some p => exact Screen.placeAt_inside hl.toPositive p
  · intro c lead body hb
    obtain ⟨hm, hk, rfl⟩ := keyTyped_chord hb
    exact ⟨hk, hpress hm _⟩
  · intro b body hb
    obtain ⟨hm, rfl⟩ := mouseReleased_button hb
    exact hpress hm _
  · intro b lead body hb
    obtain ⟨hm, hk, rfl⟩ := mouseReleased_chord hb
    rw [← List.append_nil (s.pointReport screen _)]
    exact ⟨hk, hpress hm []⟩

def wide : Screen := (Screen.blank { columns := 200, rows := 100 }).withCellSize 8 16

/-- Two buttons are held, the second pressed beyond the corner of the screen. -/
def cornered : List (Screen × Act) :=
  [(wide, .apply .coordinatesOn), (wide, .press .left ⟨0, 0⟩), (wide, .press .middle ⟨9999, -7⟩)]

theorem run_reports_cornered :
    let s := (initial wide.size true).run cornered
    let t := (initial surface.size false).run [(surface, .apply .coordinatesOn)]
    let chord : List UInt8 := [30, 35, 39, 30, 33, 67, 120]
    (s.keyTyped wide 'x').2 = [28, 35, 70] ++ chord ∧
      Names 100 chord { col := 199, row := 0 } [120] ∧
      (t.keyTyped surface '\n').2 = [28, 34] ++ [32, 34, 4] ∧ Names 3 [32, 34, 4] {} [4] := by
  intro s t chord
  have hchord : (s.keyTyped wide 'x').2 = [28, 35, 70] ++ chord := by decide +kernel
  have henter : (t.keyTyped surface '\n').2 = [28, 34] ++ [32, 34, 4] := by decide +kernel
  obtain ⟨-, hs, -⟩ := run_reports wide.size true cornered wide
    ⟨⟨by decide, by decide⟩, by decide, by decide⟩
  obtain ⟨-, p, hp, hn⟩ := hs 'x' 70 chord hchord
  obtain ⟨ht, -⟩ := run_reports surface.size false [(surface, .apply .coordinatesOn)] surface
    ⟨⟨by decide, by decide⟩, by decide, by decide⟩
  cases hp
  exact ⟨hchord, hn, henter, ht '\n' [32, 34, 4] henter⟩

end Session

end VatTerminal
