import VatTerminal.Proofs.Screen.Rows

/-! # Cells of a screen

What each update does to the cell at a place. All but a bell either write a run
of cells where they are, or blank rows, or give a row the cells of another one,
and they leave the grid as large as it is.
-/

namespace VatTerminal

def Region.Contains (r : Region) (row col : Nat) : Prop :=
  (r.top ≤ row ∧ row ≤ r.bottom) ∧ r.left ≤ col ∧ col ≤ r.right

instance (r : Region) (row col : Nat) : Decidable (r.Contains row col) :=
  inferInstanceAs (Decidable (_ ∧ _))

namespace Screen

/-- A row of a region once it has its cells from the row of its origin. -/
def movedLine (s : Screen) (r : Region) (origin : Nat → Option Nat) (i : Nat) (line : Line) : Line :=
  splice r.left r.right line
    (((origin i).bind fun o => s.grid[o]?).getD (blankLine s.size.columns))

section Lines

variable {reversed : Bool} {text : List Char} {cells source : Line} {left right col columns : Nat}

theorem getElem?_zipWith_append_drop (f : Cell → Char → Cell) :
    (List.zipWith f cells text ++ cells.drop text.length)[col]? =
      cells[col]?.map fun cell => text[col]?.elim cell (f cell) := by
  induction cells generalizing text col with
  | nil => simp
  | cons cell cells ih =>
    cases text with
    | nil => simp
    | cons c text => cases col <;> simp [ih]

theorem getElem?_overwrite :
    (overwrite reversed left text cells)[col]? = cells[col]?.map fun cell =>
      (if left ≤ col then text[col - left]? else none).elim cell (write reversed cell) := by
  induction left generalizing cells col with
  | zero => simpa [overwrite] using getElem?_zipWith_append_drop (write reversed)
  | succ left ih =>
    obtain _ | ⟨cell, cells⟩ := cells
    · simp [overwrite]
    · have hcons : overwrite reversed (left + 1) text (cell :: cells) =
          cell :: overwrite reversed left text cells := by
        simp [overwrite, Nat.add_right_comm left 1]
      cases col with
      | zero => simp [hcons]
      | succ col => simp [hcons, ih]

theorem length_overwrite : (overwrite reversed left text cells).length = cells.length := by
  simp [overwrite]
  omega

theorem length_splice (hl : cells.length = columns) (hs : source.length = columns)
    (h : left ≤ right) (hr : right < columns) : (splice left right cells source).length = columns := by
  simp [splice, hl, hs]
  omega

theorem getElem?_splice (hl : cells.length = columns) (hs : source.length = columns)
    (h : left ≤ right) (hr : right < columns) :
    (splice left right cells source)[col]? =
      if left ≤ col ∧ col ≤ right then source[col]? else cells[col]? := by
  have hlen : (cells.take left).length = left := by
    rw [List.length_take_of_le]
    omega
  by_cases hcol : col < left
  · rw [if_neg (by omega), splice, List.append_assoc, List.getElem?_append_left (by omega),
      List.getElem?_take_of_lt hcol]
  · have hin : ((source.take (right + 1)).drop left).length = right + 1 - left := by
      rw [List.length_drop, List.length_take_of_le (by omega)]
    by_cases hright : col ≤ right
    · rw [if_pos (by omega), splice, List.append_assoc, List.getElem?_append_right (by omega), hlen,
        List.getElem?_append_left (by omega), List.getElem?_drop, List.getElem?_take_of_lt (by omega),
        Nat.add_sub_cancel' (by omega)]
    · rw [if_neg (by omega), splice, List.append_assoc, List.getElem?_append_right (by omega), hlen,
        List.getElem?_append_right (by omega), hin, List.getElem?_drop]
      congr 1
      omega

end Lines

variable {s : Screen} {row col : Nat}

section Filled

theorem Filled.length_getElem (h : s.Filled) {i : Nat} (hi : i < s.grid.length) :
    s.grid[i].length = s.size.columns := h.columns _ (List.getElem_mem hi)

theorem Filled.cell?_eq_none_iff (h : s.Filled) :
    s.cell? row col = none ↔ ¬ Place.Inside s.size { row, col } := by
  rw [cell?, Option.bind_eq_none_iff]
  constructor
  · intro hn hin
    have hrow : row < s.grid.length := by
      rw [h.rows]
      exact hin.row
    have hcol := hn _ (List.getElem?_eq_getElem hrow)
    rw [List.getElem?_eq_none_iff, h.length_getElem hrow] at hcol
    exact Nat.not_lt.mpr hcol hin.col
  · intro hout line hline
    have hrow : row < s.grid.length := (List.getElem?_eq_some_iff.mp hline).1
    rw [List.getElem?_eq_none_iff, h.columns _ (List.mem_of_getElem? hline)]
    rw [h.rows] at hrow
    exact Nat.not_lt.mp fun hcol => hout ⟨hrow, hcol⟩

end Filled

section Draw

theorem cell?_modify (i : Nat) (f : Line → Line) :
    ({ s with grid := s.grid.modify i f } : Screen).cell? row col =
      if row = i then s.grid[row]?.bind fun line => (f line)[col]? else s.cell? row col := by
  by_cases h : row = i
  · subst h
    cases hl : s.grid[row]? <;> simp [cell?, hl]
  · simp [cell?, h, Ne.symm h]

theorem cell?_modify_modify (i j : Nat) (f : Cell → Cell) :
    ({ s with grid := s.grid.modify i fun line => line.modify j f } : Screen).cell? row col =
      (s.cell? row col).map fun cell => if row = i ∧ col = j then f cell else cell := by
  rw [cell?_modify]
  by_cases h : row = i
  · simp only [if_pos h, cell?, List.getElem?_modify]
    cases s.grid[row]? with
    | none => rfl
    | some line => simp [h, eq_comm]
  · simp [h]

theorem cell?_setString (i j : Nat) (text : List Char) (reversed : Bool) :
    (s.setString i j text reversed).cell? row col = (s.cell? row col).map fun cell =>
      (if row = i ∧ j ≤ col then text[col - j]? else none).elim cell (write reversed cell) := by
  rw [setString, cell?_modify]
  by_cases h : row = i
  · simp only [cell?, getElem?_overwrite, h, true_and]
    cases s.grid[i]? <;> rfl
  · simp [h]

theorem cell?_clear : s.clear.cell? row col = (s.cell? row col).map fun _ => {} := by
  simp only [clear, cell?, List.getElem?_map]
  cases s.grid[row]? with
  | none => rfl
  | some line => exact List.getElem?_map

theorem cell?_blankRow (i : Nat) :
    (s.blankRow i).cell? row col =
      (s.cell? row col).map fun cell => if row = i then {} else cell := by
  rw [blankRow, cell?_modify]
  by_cases h : row = i
  · simp only [if_pos h, cell?, List.getElem?_map]
    cases s.grid[row]? <;> rfl
  · simp [h]

theorem cell?_pushRow (h : s.Filled) {i : Nat} (hi : i < s.size.rows)
    (hin : Place.Inside s.size { row, col }) :
    (s.pushRow i).cell? row col =
      if row < i then s.cell? row col else if row = i then some {} else s.cell? (row - 1) col := by
  have hrow : row < s.grid.length := by
    rw [h.rows]
    exact hin.row
  have hi : i ≤ s.grid.length - 1 := by
    rw [h.rows]
    omega
  simp only [cell?, pushRow, List.getElem?_insertIdx, List.getElem?_dropLast, List.length_dropLast]
  split
  · rw [if_pos (by omega)]
  · split
    · next heq => simp [blankLine, heq, hi, hin.col]
    · rw [if_pos (by omega)]

section Region

variable {r : Region} {origin : Nat → Option Nat} {i : Nat} {cells : Line}

theorem length_source (h : s.Filled) :
    (((origin i).bind fun o => s.grid[o]?).getD (blankLine s.size.columns)).length =
      s.size.columns := by
  cases ho : (origin i).bind fun o => s.grid[o]? with
  | none => exact List.length_replicate
  | some source =>
    obtain ⟨o, -, ho⟩ := Option.bind_eq_some_iff.mp ho
    exact h.columns _ (List.mem_of_getElem? ho)

theorem length_movedLine (h : s.Filled) (hr : r.Inside s.size) (hl : cells.length = s.size.columns) :
    (s.movedLine r origin i cells).length = s.size.columns :=
  length_splice hl (length_source h) hr.columns hr.right

theorem getElem?_movedLine (h : s.Filled) (hr : r.Inside s.size)
    (hl : cells.length = s.size.columns) :
    (s.movedLine r origin i cells)[col]? =
      if r.left ≤ col ∧ col ≤ r.right then
        some (((origin i).bind fun o => s.cell? o col).getD {})
      else cells[col]? := by
  rw [movedLine, getElem?_splice hl (length_source h) hr.columns hr.right]
  split
  · next hcol =>
    have hlt : col < s.size.columns := Nat.lt_of_le_of_lt hcol.2 hr.right
    simp only [cell?, ← Option.bind_assoc]
    cases ho : (origin i).bind fun o => s.grid[o]? with
    | none => simp [blankLine, hlt]
    | some source =>
      obtain ⟨o, -, ho⟩ := Option.bind_eq_some_iff.mp ho
      have hs : source.length = s.size.columns := h.columns _ (List.mem_of_getElem? ho)
      simp [hs, hlt]
  · rfl

theorem cell?_moveRows (h : s.Filled) (hr : r.Inside s.size) :
    (s.moveRows r origin).cell? row col =
      if r.Contains row col then some (((origin row).bind fun o => s.cell? o col).getD {})
      else s.cell? row col := by
  have hget : (s.moveRows r origin).grid[row]? = s.grid[row]?.map fun line =>
      if r.top ≤ row ∧ row ≤ r.bottom then s.movedLine r origin row line else line :=
    List.getElem?_mapIdx
  rw [cell?, hget]
  by_cases hrow : r.top ≤ row ∧ row ≤ r.bottom
  · have hlt : row < s.grid.length := by
      rw [h.rows]
      exact Nat.lt_of_le_of_lt hrow.2 hr.bottom
    simp [Region.Contains, hrow, cell?, getElem?_movedLine h hr (h.length_getElem hlt), hlt]
  · simp [Region.Contains, hrow, cell?]

end Region

end Draw

section Grid

theorem Filled.modify (h : s.Filled) (i : Nat) {f : Line → Line}
    (hf : ∀ line, (f line).length = line.length) :
    ({ s with grid := s.grid.modify i f } : Screen).Filled where
  rows := by
    rw [List.length_modify]
    exact h.rows
  columns := by
    intro line hm
    obtain ⟨j, hj⟩ := List.getElem?_of_mem hm
    rw [List.getElem?_modify] at hj
    obtain ⟨old, hold, rfl⟩ := Option.map_eq_some_iff.mp hj
    have hlen := h.columns old (List.mem_of_getElem? hold)
    split
    · rw [hf, hlen]
    · exact hlen

theorem Filled.clear (h : s.Filled) : s.clear.Filled where
  rows := by
    rw [Screen.clear, List.length_map]
    exact h.rows
  columns := by
    intro line hm
    obtain ⟨old, hold, rfl⟩ := List.mem_map.mp hm
    rw [List.length_map]
    exact h.columns old hold

theorem Filled.pushRow (h : s.Filled) {i : Nat} (hi : i < s.size.rows) : (s.pushRow i).Filled where
  rows := by
    have hrows := h.rows
    have hlen : s.grid.dropLast.length = s.size.rows - 1 := by rw [List.length_dropLast, hrows]
    rw [Screen.pushRow, List.length_insertIdx_of_le_length (by omega), hlen]
    exact Nat.sub_add_cancel (Nat.one_le_of_lt hi)
  columns := by
    intro line hm
    have hlen : i ≤ s.grid.dropLast.length := by
      rw [List.length_dropLast, h.rows]
      omega
    rcases (List.mem_insertIdx hlen).mp hm with rfl | hm
    · exact List.length_replicate
    · exact h.columns line (List.dropLast_subset _ hm)

theorem Filled.moveRows (h : s.Filled) {r : Region} (hr : r.Inside s.size)
    (origin : Nat → Option Nat) : (s.moveRows r origin).Filled where
  rows := by
    rw [Screen.moveRows, List.length_mapIdx]
    exact h.rows
  columns := by
    intro line hm
    obtain ⟨i, hi, rfl⟩ := List.mem_mapIdx.mp hm
    have hlen := h.length_getElem hi
    split
    · exact length_movedLine h hr hlen
    · exact hlen

theorem Filled.draw (h : s.Filled) {u : Update} (hu : u.Fits s.size) : (s.draw u).Filled := by
  cases u with
  | putChar i j c reversed => exact h.modify i fun line => List.length_modify ..
  | putString i j text reversed => exact h.modify i fun line => length_overwrite
  | clear => exact h.clear
  | eraseLine i => exact h.modify i fun line => List.length_map ..
  | insertLine i => exact h.pushRow hu.row
  | scrollUp r count => exact h.moveRows hu _
  | scrollDown r count => exact h.moveRows hu _
  | highlight i j => exact h.modify i fun line => List.length_modify ..
  | bell => exact { h with }

theorem blank_filled (size : Size) : (blank size).Filled where
  rows := List.length_replicate
  columns line hm := by
    rw [List.eq_of_mem_replicate hm]
    exact List.length_replicate

end Grid

end Screen

end VatTerminal
