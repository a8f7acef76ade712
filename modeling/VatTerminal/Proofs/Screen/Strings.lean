import VatTerminal.Proofs.Screen.Cells

/-! # Strings

A string that is put on a row is its characters put one after the other, each a
column further, as far as the row goes. The marks of the row stay, and no cell
but those under the string is touched.
-/

namespace VatTerminal.Screen

/-- Put characters one by one, each a column further, up to the right margin. -/
def putChars (s : Screen) (row col : Nat) (reversed : Bool) :
    List Char → Except OutOfBounds Screen
  | [] => return s
  | c :: text =>
    if col < s.size.columns then do
      let s ← s.perform (.putChar row col c reversed)
      s.putChars row (col + 1) reversed text
    else return s

section Lines

variable {reversed : Bool} {col : Nat} {c : Char} {text : List Char} {cells : Line}

theorem overwrite_nil : overwrite reversed col [] cells = cells := by simp [overwrite]

theorem overwrite_cons :
    overwrite reversed col (c :: text) cells =
      overwrite reversed (col + 1) text (cells.modify col fun cell => write reversed cell c) := by
  ext1 j
  rw [getElem?_overwrite, getElem?_overwrite, List.getElem?_modify]
  rcases Nat.lt_trichotomy j col with hlt | rfl | hgt
  · have hne : col ≠ j := Nat.ne_of_gt hlt
    simp [Nat.not_le.mpr hlt, Nat.not_le.mpr (Nat.lt_succ_of_lt hlt), hne]
  · have hj : ¬ j + 1 ≤ j := Nat.not_succ_le_self j
    simp only [Nat.le_refl, if_true, if_neg hj, Nat.sub_self, List.getElem?_cons_zero,
      Option.elim_some, Option.elim_none, Option.map_eq_map, Option.map_map, Function.comp_def]
  · obtain ⟨k, rfl⟩ := Nat.exists_eq_add_of_le hgt
    have hne : col ≠ col + 1 + k := by omega
    have hk : col + 1 + k - col = k + 1 := by omega
    have hle : col ≤ col + 1 + k := by omega
    simp [hne, hk, hle]

theorem overwrite_of_length_le (h : cells.length ≤ col) :
    overwrite reversed col text cells = cells := by
  have hdrop : cells.drop col = [] := List.drop_eq_nil_of_le h
  have hrest : cells.drop (col + text.length) = [] :=
    List.drop_eq_nil_of_le (Nat.le_trans h (Nat.le_add_right ..))
  simp [overwrite, hdrop, hrest, List.take_of_length_le h]

end Lines

variable {s : Screen} {row col : Nat} {reversed : Bool} {c : Char} {text : List Char}

theorem setString_nil : s.setString row col [] reversed = s := by
  have hid : overwrite reversed col [] = id := by
    ext1 cells
    exact overwrite_nil
  simp [setString, hid]

theorem setString_cons :
    s.setString row col (c :: text) reversed =
      (s.setChar row col c reversed).setString row (col + 1) text reversed := by
  have hcomp : overwrite reversed col (c :: text) = overwrite reversed (col + 1) text ∘
      fun line => line.modify col fun cell => write reversed cell c := by
    ext1 cells
    exact overwrite_cons
  simp [setString, setChar, List.modify_modify_eq, hcomp]

theorem Filled.setString_of_margin (h : s.Filled) (hc : s.size.columns ≤ col) :
    s.setString row col text reversed = s := by
  have hgrid : s.grid.modify row (overwrite reversed col text) = s.grid := by
    ext1 i
    rw [List.getElem?_modify]
    cases hl : s.grid[i]? with
    | none => rfl
    | some cells =>
      have hlen : cells.length = s.size.columns := h.columns _ (List.mem_of_getElem? hl)
      have hover : overwrite reversed col text cells = cells :=
        overwrite_of_length_le (by omega)
      simp [hover]
  simp [setString, hgrid]

theorem Filled.setChar (h : s.Filled) (row col : Nat) (c : Char) (reversed : Bool) :
    (s.setChar row col c reversed).Filled :=
  h.modify row fun _ => List.length_modify ..

theorem Filled.putChars_eq (h : s.Filled) (hrow : row < s.size.rows) :
    s.putChars row col reversed text = .ok (s.setString row col text reversed) := by
  induction text generalizing s col with
  | nil =>
    rw [setString_nil]
    rfl
  | cons c text ih =>
    rw [putChars]
    split
    · next hcol =>
      have hput : s.perform (.putChar row col c reversed) = .ok (s.setChar row col c reversed) :=
        perform_of_fits (u := .putChar row col c reversed) ⟨hrow, hcol⟩
      rw [hput, setString_cons]
      exact ih (h.setChar row col c reversed) hrow
    · next hcol =>
      rw [h.setString_of_margin (Nat.not_lt.mp hcol)]
      rfl

theorem highlighted_setString (i j : Nat) :
    ((s.setString row col text reversed).cell? i j).map (·.highlighted) =
      (s.cell? i j).map (·.highlighted) := by
  rw [cell?_setString, Option.map_map]
  congr 1
  ext1 cell
  cases (if i = row ∧ col ≤ j then text[j - col]? else none) <;> rfl

theorem cell?_setString_of_not_under {i j : Nat}
    (h : ¬ (i = row ∧ col ≤ j ∧ j < col + text.length)) :
    (s.setString row col text reversed).cell? i j = s.cell? i j := by
  have hnone : (if i = row ∧ col ≤ j then text[j - col]? else none) = none := by
    split
    · rw [List.getElem?_eq_none_iff]
      omega
    · rfl
  simp [cell?_setString, hnone]

end VatTerminal.Screen
