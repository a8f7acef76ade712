import VatTerminal.Screen.Update
import VatTerminal.Proofs.Screen.Fits

/-! # Rows of a screen

What the updates that a teletype needs do to the rows: a character is put into
one row, and a screen that moves up as a whole loses its first row and gains a
blank one at the end.
-/

namespace VatTerminal

def Size.whole (size : Size) : Region := ⟨0, 0, size.lastRow, size.lastColumn⟩

theorem Size.whole_inside {size : Size} (hp : size.Positive) : size.whole.Inside size where
  rows := Nat.zero_le _
  columns := Nat.zero_le _
  bottom := Nat.sub_lt hp.rows Nat.one_pos
  right := Nat.sub_lt hp.columns Nat.one_pos

namespace Screen

/-- As many rows as the size says, each of them as long as it says. -/
structure Filled (s : Screen) : Prop where
  rows : s.grid.length = s.size.rows
  columns : ∀ line ∈ s.grid, line.length = s.size.columns

theorem splice_all {columns : Nat} (hc : 0 < columns) {line source : Line}
    (hl : line.length = columns) (hs : source.length = columns) :
    splice 0 (columns - 1) line source = source := by
  have htake : source.take columns = source := List.take_of_length_le (Nat.le_of_eq hs)
  have hdrop : line.drop columns = [] := List.drop_eq_nil_of_le (Nat.le_of_eq hl)
  simp [splice, Nat.sub_add_cancel hc, htake, hdrop]

variable {s : Screen}

theorem grid_scrollUp (hp : s.size.Positive) (h : s.Filled) :
    (s.moveRows s.size.whole (originUp s.size.whole 1)).grid =
      s.grid.tail ++ [blankLine s.size.columns] := by
  have hrows := hp.rows
  have hlen := h.rows
  apply List.ext_getElem
  · simp [moveRows, hlen]
    omega
  · intro i hi _
    have hi : i < s.grid.length := by simpa [moveRows] using hi
    have hline : s.grid[i].length = s.size.columns := h.columns _ (List.getElem_mem hi)
    have hin : s.size.whole.top ≤ i ∧ i ≤ s.size.whole.bottom :=
      ⟨Nat.zero_le _, show i ≤ s.size.rows - 1 by omega⟩
    simp only [moveRows, List.getElem_mapIdx, if_pos hin]
    by_cases hlast : i + 1 < s.grid.length
    · have ho : originUp s.size.whole 1 i = some (i + 1) :=
        if_pos (show i + 1 ≤ s.size.rows - 1 by omega)
      have hnext : s.grid[i + 1].length = s.size.columns := h.columns _ (List.getElem_mem hlast)
      rw [List.getElem_append_left (by rw [List.length_tail]; omega), List.getElem_tail]
      simp only [ho, Option.bind_some, List.getElem?_eq_getElem hlast, Option.getD_some]
      exact splice_all hp.columns hline hnext
    · have ho : originUp s.size.whole 1 i = none :=
        if_neg (show ¬ i + 1 ≤ s.size.rows - 1 by omega)
      rw [List.getElem_append_right (by rw [List.length_tail]; omega)]
      simp only [ho, Option.bind_none, Option.getD_none, List.getElem_singleton]
      exact splice_all hp.columns hline (List.length_replicate ..)

end Screen

end VatTerminal
