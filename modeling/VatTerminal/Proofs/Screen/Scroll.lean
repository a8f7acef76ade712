import VatTerminal.Proofs.Screen.InPlace

/-! # Regions that scroll

A region is scrolled over itself, row after row. Every cell of it gets what
the cell so many rows below or above it held beforehand, or is blank where that
one is not in the region, and no cell outside changes.
-/

namespace VatTerminal

namespace Screen

variable {s : Screen} {r : Region} {row col : Nat}

theorem carryOut_of_fits (h : s.Filled) {u : Update} (hu : u.Fits s.size) :
    s.perform u = .ok (s.draw u) ∧ u.carryOut.run s = .ok () (s.draw u) := by
  have hp := perform_of_fits hu
  refine ⟨hp, ?_⟩
  rw [run_carryOut h, hp]

/-- A cell gets that of its column in the row of its origin, which is there. -/
theorem cell?_moveRows_of_le (h : s.Filled) (hr : r.Inside s.size) {origin : Nat → Option Nat}
    (ho : row ≤ r.bottom → ∀ o ∈ origin row, o ≤ r.bottom) :
    (s.moveRows r origin).cell? row col =
      if r.Contains row col then (origin row).elim (some {}) (s.cell? · col)
      else s.cell? row col := by
  rw [cell?_moveRows h hr]
  split
  · next hc =>
    cases horigin : origin row with
    | none => rfl
    | some o =>
      have hin : Place.Inside s.size { row := o, col } :=
        ⟨Nat.lt_of_le_of_lt (ho hc.1.2 o horigin) hr.bottom, Nat.lt_of_le_of_lt hc.2.2 hr.right⟩
      obtain ⟨cell, hcell⟩ : ∃ cell, s.cell? o col = some cell := by
        rw [← Option.ne_none_iff_exists', ne_eq, h.cell?_eq_none_iff]
        exact not_not_intro hin
      rw [Option.bind_some, hcell]
      exact hcell.symm
  · rfl

theorem cell?_scrollUp (h : s.Filled) (hr : r.Inside s.size) (count : Nat) :
    (s.moveRows r (originUp r count)).cell? row col =
      if r.Contains row col then
        if row + count ≤ r.bottom then s.cell? (row + count) col else some {}
      else s.cell? row col := by
  rw [cell?_moveRows_of_le h hr]
  · refine ite_congr rfl (fun _ => ?_) fun _ => rfl
    rw [originUp]
    split <;> rfl
  · intro _ o ho
    obtain ⟨hb, he⟩ := Option.ite_none_right_eq_some.mp ho
    cases he
    exact hb

theorem cell?_scrollDown (h : s.Filled) (hr : r.Inside s.size) (count : Nat) :
    (s.moveRows r (originDown r count)).cell? row col =
      if r.Contains row col then
        if r.top + count ≤ row then s.cell? (row - count) col else some {}
      else s.cell? row col := by
  rw [cell?_moveRows_of_le h hr]
  · refine ite_congr rfl (fun _ => ?_) fun _ => rfl
    rw [originDown]
    split <;> rfl
  · intro hb o ho
    obtain ⟨-, he⟩ := Option.ite_none_right_eq_some.mp ho
    cases he
    exact Nat.le_trans (Nat.sub_le ..) hb

/-- A region that scrolls is drawn to its end, whatever the count. Each of its cells then holds, as
a whole, what the cell that many rows below (or above) it held before the first row was written, if
that one is in the region, and is blank if it is not. Nothing else of the screen changes. -/
theorem scroll_exact (h : s.Filled) (hr : r.Inside s.size) (count : Nat) :
    (∃ t : Screen, s.perform (.scrollUp r count) = .ok t ∧
      (Update.scrollUp r count).carryOut.run s = .ok () t ∧ t = { s with grid := t.grid } ∧
      ∀ row col, t.cell? row col =
        if r.Contains row col then
          if row + count ≤ r.bottom then s.cell? (row + count) col else some {}
        else s.cell? row col) ∧
    ∃ t : Screen, s.perform (.scrollDown r count) = .ok t ∧
      (Update.scrollDown r count).carryOut.run s = .ok () t ∧ t = { s with grid := t.grid } ∧
      ∀ row col, t.cell? row col =
        if r.Contains row col then
          if r.top + count ≤ row then s.cell? (row - count) col else some {}
        else s.cell? row col := by
  constructor
  · obtain ⟨hp, hc⟩ := carryOut_of_fits h (u := .scrollUp r count) hr
    exact ⟨_, hp, hc, rfl, fun row col => cell?_scrollUp h hr count⟩
  · obtain ⟨hp, hc⟩ := carryOut_of_fits h (u := .scrollDown r count) hr
    exact ⟨_, hp, hc, rfl, fun row col => cell?_scrollDown h hr count⟩

/-- Three rows, with one cell of each kind of mark. -/
def lettered : Screen where
  size := { columns := 3, rows := 3 }
  grid :=
    [[⟨'a', false, false⟩, ⟨'b', false, false⟩, ⟨'c', false, true⟩],
      [⟨'d', false, false⟩, ⟨'e', true, false⟩, ⟨'f', false, false⟩],
      [⟨'g', false, false⟩, ⟨'h', true, true⟩, ⟨'i', false, false⟩]]

def rightHalf : Region := { top := 0, left := 1, bottom := 2, right := 2 }

theorem scroll_exact_lettered :
    lettered.Filled ∧ rightHalf.Inside lettered.size ∧
      (∃ t, (Update.scrollUp rightHalf 1).carryOut.run lettered = .ok () t ∧
        t.cell? 0 1 = some ⟨'e', true, false⟩ ∧ t.cell? 1 1 = some ⟨'h', true, true⟩ ∧
        t.cell? 2 1 = some {} ∧ t.cell? 0 0 = some ⟨'a', false, false⟩) ∧
      (∃ t, (Update.scrollDown rightHalf 1).carryOut.run lettered = .ok () t ∧
        t.cell? 0 2 = some {} ∧ t.cell? 1 2 = some ⟨'c', false, true⟩ ∧
        t.cell? 2 1 = some ⟨'e', true, false⟩) ∧
      ∃ t, (Update.scrollUp rightHalf 18446744073709551615).carryOut.run lettered = .ok () t ∧
        t.cell? 0 1 = some {} ∧ t.cell? 2 2 = some {} ∧
        t.cell? 2 0 = some ⟨'g', false, false⟩ := by
  have hf : lettered.Filled := ⟨rfl, by decide⟩
  have hr : rightHalf.Inside lettered.size := by constructor <;> decide
  obtain ⟨⟨up, -, hup, -, hu⟩, down, -, hdown, -, hd⟩ := scroll_exact hf hr 1
  obtain ⟨⟨far, -, hfar, -, hc⟩, -⟩ := scroll_exact hf hr 18446744073709551615
  refine ⟨hf, hr, ⟨up, hup, ?_⟩, ⟨down, hdown, ?_⟩, far, hfar, ?_⟩
  · simp only [hu]
    decide
  · simp only [hd]
    decide
  · simp only [hc]
    decide

end Screen

end VatTerminal
