import VatTerminal.Proofs.Screen.Cells

/-! # Marks

Which cells are marked after an update. Writing leaves a mark where it is.
Every other update has each cell take its mark from a cell of before or have
none, and the mark of a cell that is blanked or overwritten does not stay.
-/

namespace VatTerminal.Screen

def marked (s : Screen) (p : Place) : Bool := (s.cell? p.row p.col).any (·.highlighted)

/-- The place whose mark a place has after the update, if any. -/
def Update.source? : Update → Place → Option Place
  | .clear, _ => none
  | .eraseLine row, p => if p.row = row then none else some p
  | .insertLine row, p =>
    if p.row < row then some p else if p.row = row then none else some { p with row := p.row - 1 }
  | .scrollUp r count, p =>
    if r.Contains p.row p.col then (originUp r count p.row).map ({ p with row := · }) else some p
  | .scrollDown r count, p =>
    if r.Contains p.row p.col then (originDown r count p.row).map ({ p with row := · }) else some p
  | .putChar .., p | .putString .., p | .highlight .., p | .bell, p => some p

variable {s : Screen} {u : Update} {p q : Place}

theorem marked_of_outside (h : s.Filled) (hp : ¬ p.Inside s.size) : s.marked p = false := by
  rw [marked, h.cell?_eq_none_iff.mpr hp]
  rfl

theorem marked_blank (size : Size) : (blank size).marked p = false := by
  have hcell {c : Option Cell} (h : ∀ cell ∈ c, cell = {}) : c.any (·.highlighted) = false := by
    cases c with
    | none => rfl
    | some cell => rw [h cell rfl]; rfl
  refine hcell fun cell hc => ?_
  obtain ⟨line, hline, hc⟩ := Option.bind_eq_some_iff.mp hc
  have hl : line = blankLine size.columns := List.eq_of_mem_replicate (List.mem_of_getElem? hline)
  subst hl
  exact List.eq_of_mem_replicate (List.mem_of_getElem? hc)

theorem any_write {c : Option Cell} {f : Cell → Cell}
    (hf : ∀ cell, (f cell).highlighted = cell.highlighted) :
    (c.map f).any (·.highlighted) = c.any (·.highlighted) := by
  cases c with
  | none => rfl
  | some cell => exact hf cell

theorem marked_moveRows (h : s.Filled) {r : Region} (hr : r.Inside s.size)
    (origin : Nat → Option Nat) :
    (s.moveRows r origin).marked p =
      (if r.Contains p.row p.col then (origin p.row).map ({ p with row := · }) else some p).any
        s.marked := by
  rw [marked, cell?_moveRows h hr]
  split
  · cases origin p.row with
    | none => rfl
    | some o =>
      show (some ((s.cell? o p.col).getD {})).any _ = (s.cell? o p.col).any _
      cases s.cell? o p.col <;> rfl
  · rfl

/-- Every update but one of a mark leaves each cell the mark of its source. -/
theorem marked_draw (h : s.Filled) (hu : u.Fits s.size) (hn : ∀ row col, u ≠ .highlight row col)
    (hp : p.Inside s.size) : (s.draw u).marked p = (u.source? p).any s.marked := by
  cases u with
  | putChar row col c reversed =>
    show ((s.setChar row col c reversed).cell? p.row p.col).any _ = s.marked p
    rw [setChar, cell?_modify_modify]
    exact any_write fun cell => by split <;> rfl
  | putString row col text reversed =>
    show ((s.setString row col text reversed).cell? p.row p.col).any _ = s.marked p
    rw [cell?_setString]
    refine any_write fun cell => ?_
    cases (if p.row = row ∧ col ≤ p.col then text[p.col - col]? else none) <;> rfl
  | clear =>
    show (s.clear.cell? p.row p.col).any _ = false
    rw [cell?_clear]
    cases s.cell? p.row p.col <;> rfl
  | eraseLine row =>
    show ((s.blankRow row).cell? p.row p.col).any _ = _
    rw [cell?_blankRow, Update.source?]
    split
    · cases s.cell? p.row p.col <;> rfl
    · exact any_write fun cell => rfl
  | insertLine row =>
    show ((s.pushRow row).cell? p.row p.col).any _ = _
    rw [cell?_pushRow h hu.row hp, Update.source?]
    split
    · rfl
    · split <;> rfl
  | scrollUp r count => exact marked_moveRows h hu _
  | scrollDown r count => exact marked_moveRows h hu _
  | highlight row col => exact absurd rfl (hn row col)
  | bell => rfl

theorem marked_highlight (h : s.Filled) (hq : q.Inside s.size) :
    (s.draw (.highlight q.row q.col)).marked p = if p = q then !s.marked p else s.marked p := by
  show ((s.toggleHighlight q.row q.col).cell? p.row p.col).any _ = _
  rw [toggleHighlight, cell?_modify_modify]
  have heq : p = q ↔ p.row = q.row ∧ p.col = q.col := by
    cases p
    cases q
    simp [and_comm]
  by_cases hpq : p = q
  · subst hpq
    have hsome : s.cell? p.row p.col ≠ none := fun hn => h.cell?_eq_none_iff.mp hn hq
    obtain ⟨cell, hcell⟩ := Option.ne_none_iff_exists'.mp hsome
    simp [marked, hcell]
  · rw [if_neg hpq]
    refine any_write fun cell => ?_
    rw [if_neg (mt heq.mpr hpq)]

theorem eq_or_source?_ne (hq : u.source? q = some p) : q = p ∨ u.source? p ≠ some p := by
  obtain ⟨col, row⟩ := p
  obtain ⟨col', row'⟩ := q
  cases u with
  | insertLine i => grind [Update.source?]
  | scrollUp r count => grind [Update.source?, originUp, Region.Contains]
  | scrollDown r count => grind [Update.source?, originDown, Region.Contains]
  | _ => grind [Update.source?]

theorem unmarked_draw (h : s.Filled) (hu : u.Fits s.size) (hn : ∀ row col, u ≠ .highlight row col)
    (hs : ∀ q, s.marked q = false) (p : Place) : (s.draw u).marked p = false := by
  by_cases hp : p.Inside s.size
  · rw [marked_draw h hu hn hp]
    cases u.source? p with
    | none => rfl
    | some q => exact hs q
  · exact marked_of_outside (h.draw hu) (by rwa [size_draw])

/-- The only mark of a screen stays the only one exactly if its cell keeps it. -/
theorem sole_mark_draw_iff (h : s.Filled) (hu : u.Fits s.size)
    (hn : ∀ row col, u ≠ .highlight row col) (hp : p.Inside s.size)
    (hs : ∀ q, s.marked q = true ↔ p = q) :
    (∀ q, (s.draw u).marked q = true ↔ p = q) ↔ u.source? p = some p := by
  have hafter (q : Place) : (s.draw u).marked q = true ↔ q.Inside s.size ∧ u.source? q = some p := by
    by_cases hq : q.Inside s.size
    · rw [marked_draw h hu hn hq]
      cases u.source? q with
      | none => simp
      | some o => rw [Option.any_some, hs o, Option.some_inj, eq_comm, and_iff_right hq]
    · rw [marked_of_outside (h.draw hu) (by rwa [size_draw])]
      simp [hq]
  simp only [hafter]
  constructor
  · intro hall
    exact ((hall p).mpr rfl).2
  · rintro hkeep q
    constructor
    · rintro ⟨-, hq⟩
      exact ((eq_or_source?_ne hq).resolve_right fun hne => hne hkeep).symm
    · rintro rfl
      exact ⟨hp, hkeep⟩

end VatTerminal.Screen
