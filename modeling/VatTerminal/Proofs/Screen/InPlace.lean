import VatTerminal.Proofs.Screen.Cells

/-! # Updates in place

A surface has one grid, and carries an update out on it row after row. Every
row and every run of cells is looked up first, and a look-up may fail. On a
grid that has all its cells none does, a region that is moved over itself is
read before it is written, and an update that is refused has drawn nothing.
-/

namespace VatTerminal

namespace Screen

inductive Stop where
  | refused (e : OutOfBounds)
  /-- A row or a run of cells is reached for that the grid does not have. -/
  | astray
  deriving DecidableEq

/-- Work on a screen. What has been drawn stays if the work is given up. -/
abbrev Drawing (α : Type) := EStateM Stop Screen α

namespace Drawing

def require (check : Screen → Except OutOfBounds Unit) : Drawing Unit := do
  match check (← get) with
  | .ok () => return ()
  | .error e => throw (.refused e)

def row (i : Nat) : Drawing Line := do
  match (← get).grid[i]? with
  | some line => return line
  | none => throw .astray

/-- The cells of a line from `left` on, up to `stop` and without it. -/
def slice (line : Line) (left stop : Nat) : Drawing Line :=
  if left ≤ stop ∧ stop ≤ line.length then return (line.take stop).drop left else throw .astray

def change (i left stop : Nat) (f : Line → Line) : Drawing Unit := do
  let line ← row i
  let cells ← slice line left stop
  if (f cells).length = cells.length then
    modify fun s => { s with grid := s.grid.set i (line.take left ++ f cells ++ line.drop stop) }
  else throw .astray

def insertRow (i : Nat) (line : Line) : Drawing Unit := do
  if i ≤ (← get).grid.length then
    modify fun s => { s with grid := s.grid.insertIdx i line }
  else throw .astray

def moveRow (r : Region) (origin : Nat → Option Nat) (i : Nat) : Drawing Unit := do
  match origin i with
  | some o =>
    let moved ← slice (← row o) r.left (r.right + 1)
    change i r.left (r.right + 1) fun _ => moved
  | none => change i r.left (r.right + 1) fun cells => cells.map fun _ => {}

end Drawing

open Drawing in
/-- Draw an update. A region that moves up is gone through from its first row to its last, one that
moves down from its last to its first. -/
def Update.inPlace : Update → Drawing Unit
  | .putChar i col c reversed =>
    change i col (col + 1) fun cells => cells.map fun cell => write reversed cell c
  | .putString i col text reversed => do
    change i col (← row i).length fun cells =>
      List.zipWith (write reversed) cells text ++ cells.drop text.length
  | .clear => modify Screen.clear
  | .eraseLine i => do change i 0 (← row i).length fun cells => cells.map fun _ => {}
  | .insertLine i => do
    modify fun s => { s with grid := s.grid.dropLast }
    insertRow i (blankLine (← get).size.columns)
  | .scrollUp r count =>
    (List.range' r.top (r.bottom + 1 - r.top)).forM (moveRow r (originUp r count))
  | .scrollDown r count =>
    (List.range' r.top (r.bottom + 1 - r.top)).reverse.forM (moveRow r (originDown r count))
  | .highlight i col =>
    change i col (col + 1) fun cells =>
      cells.map fun cell => { cell with highlighted := !cell.highlighted }
  | .bell => modify Screen.ring

def Update.carryOut (u : Update) : Drawing Unit := do
  Drawing.require u.check
  u.inPlace

namespace Drawing

variable {s : Screen} {i left stop : Nat} {line : Line}

theorem run_require {check : Screen → Except OutOfBounds Unit} (h : check s = .ok ()) :
    (require check).run s = .ok () s := by
  simp [require, h]

theorem run_require_refused {check : Screen → Except OutOfBounds Unit} {e : OutOfBounds}
    (h : check s = .error e) : (require check).run s = .error (.refused e) s := by
  simp [require, h]

theorem run_row (h : s.grid[i]? = some line) : (row i).run s = .ok line s := by
  simp [row, h]

theorem run_slice (h : left ≤ stop) (hs : stop ≤ line.length) :
    (slice line left stop).run s = .ok ((line.take stop).drop left) s := by
  simp [slice, h, hs]

theorem run_change {f : Line → Line} (h : s.grid[i]? = some line) (hl : left ≤ stop)
    (hs : stop ≤ line.length) (hf : ∀ cells, cells.length = stop - left →
      (f cells).length = stop - left) :
    (change i left stop f).run s = .ok ()
      { s with
        grid := s.grid.set i (line.take left ++ f ((line.take stop).drop left) ++ line.drop stop) } := by
  have hlen : ((line.take stop).drop left).length = stop - left := by
    rw [List.length_drop, List.length_take_of_le hs]
  simp [change, run_row h, run_slice hl hs, hf _ hlen, hlen]

end Drawing

section Region

variable {s : Screen} {r : Region} {origin : Nat → Option Nat}

theorem Drawing.run_moveRow (h : s.Filled) (hr : r.Inside s.size) {i : Nat}
    (hi : i < s.grid.length) (ho : ∀ o ∈ origin i, o < s.grid.length) :
    (moveRow r origin i).run s = .ok ()
      { s with grid := s.grid.set i (s.movedLine r origin i s.grid[i]) } := by
  have hget := List.getElem?_eq_getElem hi
  have hlen := h.length_getElem hi
  have hleft : r.left ≤ r.right + 1 := Nat.le_succ_of_le hr.columns
  have hstop (line : Line) (hl : line.length = s.size.columns) : r.right + 1 ≤ line.length := by
    rw [hl]
    exact hr.right
  cases horigin : origin i with
  | none =>
    rw [moveRow, horigin]
    simp only
    rw [run_change hget hleft (hstop _ hlen) (by simp)]
    simp [movedLine, horigin, splice, blankLine, List.map_const', hlen]
  | some o =>
    have hlto := ho o horigin
    have hgeto := List.getElem?_eq_getElem hlto
    have hleno := h.length_getElem hlto
    rw [moveRow, horigin]
    simp only [EStateM.run_bind]
    rw [run_row hgeto]
    simp only
    rw [run_slice hleft (hstop _ hleno)]
    simp only
    rw [run_change hget hleft (hstop _ hlen) ?_]
    · simp [movedLine, horigin, splice, hgeto]
    · intro _ _
      rw [List.length_drop, List.length_take_of_le (hstop _ hleno)]

def moveSome (s : Screen) (r : Region) (origin : Nat → Option Nat) (rows : List Nat) : Screen :=
  { s with
    grid := s.grid.mapIdx fun i line => if i ∈ rows then s.movedLine r origin i line else line }

theorem Filled.set (h : s.Filled) (i : Nat) {line : Line} (hl : line.length = s.size.columns) :
    ({ s with grid := s.grid.set i line } : Screen).Filled where
  rows := by
    rw [List.length_set]
    exact h.rows
  columns := by
    intro l hm
    rcases List.mem_or_eq_of_mem_set hm with hm | rfl
    · exact h.columns l hm
    · exact hl

theorem moveSome_nil : s.moveSome r origin [] = s := by
  have hg : (s.grid.mapIdx fun _ line => line) = s.grid := by
    apply List.ext_getElem?
    simp
  simp [moveSome, hg]

theorem movedLine_set {i j : Nat} (h : origin j ≠ some i) (new line : Line) :
    movedLine { s with grid := s.grid.set i new } r origin j line = s.movedLine r origin j line := by
  have hread : ((origin j).bind fun o => (s.grid.set i new)[o]?) =
      (origin j).bind fun o => s.grid[o]? := by
    cases ho : origin j with
    | none => rfl
    | some o =>
      have hne : i ≠ o := fun he => h (he ▸ ho)
      simp [List.getElem?_set, hne]
  exact congrArg (fun o => splice r.left r.right line (o.getD (blankLine s.size.columns))) hread

/-- The first of some rows can be moved before the others if none of them is moved from it. -/
theorem moveSome_cons {i : Nat} {rows : List Nat} (hi : i < s.grid.length)
    (hlater : ∀ j ∈ rows, i ≠ j ∧ origin j ≠ some i) :
    moveSome { s with grid := s.grid.set i (s.movedLine r origin i s.grid[i]) } r origin rows =
      s.moveSome r origin (i :: rows) := by
  have hnot : i ∉ rows := fun hm => (hlater i hm).1 rfl
  simp only [moveSome]
  congr 1
  apply List.ext_getElem?
  intro j
  rw [List.getElem?_mapIdx, List.getElem?_mapIdx, List.getElem?_set]
  by_cases hj : i = j
  · subst hj
    simp [hi, hnot]
  · by_cases hm : j ∈ rows
    · simp [hj, hm, movedLine_set (hlater j hm).2]
    · simp [hj, Ne.symm hj, hm]

/-- Rows that are moved one after the other are moved as if at once, where none is read after it
has been written. -/
theorem Drawing.run_moveRows (h : s.Filled) (hr : r.Inside s.size) {rows : List Nat}
    (horder : rows.Pairwise fun i j => i ≠ j ∧ origin j ≠ some i)
    (hin : ∀ i ∈ rows, i < s.grid.length ∧ ∀ o ∈ origin i, o < s.grid.length) :
    (rows.forM (moveRow r origin)).run s = .ok () (s.moveSome r origin rows) := by
  induction rows generalizing s with
  | nil =>
    rw [moveSome_nil]
    rfl
  | cons i rows ih =>
    rw [List.pairwise_cons] at horder
    obtain ⟨hi, ho⟩ := hin i (List.mem_cons_self ..)
    have hlen : (s.movedLine r origin i s.grid[i]).length = s.size.columns :=
      length_movedLine h hr (h.length_getElem hi)
    have hrest := ih (h.set i hlen) hr horder.2 fun j hj => by
      rw [List.length_set]
      exact hin j (List.mem_cons_of_mem _ hj)
    rw [← moveSome_cons hi horder.1, ← hrest]
    rw [List.forM_eq_forM, List.forM_cons, EStateM.run_bind, run_moveRow h hr hi ho]

theorem moveSome_eq_moveRows {rows : List Nat}
    (hrows : ∀ i, i ∈ rows ↔ r.top ≤ i ∧ i ≤ r.bottom) :
    s.moveSome r origin rows = s.moveRows r origin := by
  simp only [moveSome, hrows]
  rfl

theorem mem_rows {i : Nat} :
    i ∈ List.range' r.top (r.bottom + 1 - r.top) ↔ r.top ≤ i ∧ i ≤ r.bottom := by
  rw [List.mem_range'_1]
  omega

theorem Drawing.run_scrollUp (h : s.Filled) (hr : r.Inside s.size) (count : Nat) :
    ((List.range' r.top (r.bottom + 1 - r.top)).forM (moveRow r (originUp r count))).run s =
      .ok () (s.moveRows r (originUp r count)) := by
  have hlt {i : Nat} (hi : i ≤ r.bottom) : i < s.grid.length := by
    rw [h.rows]
    exact Nat.lt_of_le_of_lt hi hr.bottom
  rw [run_moveRows h hr, moveSome_eq_moveRows fun i => mem_rows]
  · refine (List.pairwise_lt_range' 1).imp ?_
    intro i j hij
    refine ⟨Nat.ne_of_lt hij, ?_⟩
    simp only [originUp]
    split <;> simp
    omega
  · intro i hi
    refine ⟨hlt (mem_rows.mp hi).2, ?_⟩
    simp only [originUp]
    intro o ho
    split at ho
    · next hb =>
      cases ho
      exact hlt hb
    · cases ho

theorem Drawing.run_scrollDown (h : s.Filled) (hr : r.Inside s.size) (count : Nat) :
    ((List.range' r.top (r.bottom + 1 - r.top)).reverse.forM
      (moveRow r (originDown r count))).run s = .ok () (s.moveRows r (originDown r count)) := by
  have hlt {i : Nat} (hi : i ≤ r.bottom) : i < s.grid.length := by
    rw [h.rows]
    exact Nat.lt_of_le_of_lt hi hr.bottom
  rw [run_moveRows h hr, moveSome_eq_moveRows fun i => List.mem_reverse.trans mem_rows]
  · rw [List.pairwise_reverse]
    refine (List.pairwise_lt_range' 1).imp ?_
    intro i j hij
    refine ⟨Nat.ne_of_gt hij, ?_⟩
    simp only [originDown]
    split <;> simp
    omega
  · intro i hi
    have hi := (mem_rows.mp (List.mem_reverse.mp hi)).2
    refine ⟨hlt hi, ?_⟩
    simp only [originDown]
    intro o ho
    split at ho
    · cases ho
      exact hlt (Nat.le_trans (Nat.sub_le _ _) hi)
    · cases ho

end Region

section Change

variable {s : Screen} {i col : Nat}

theorem Filled.getElem?_of_inside (h : s.Filled) (hin : Place.Inside s.size { row := i, col }) :
    ∃ (hi : i < s.grid.length), s.grid[i]? = some s.grid[i] ∧ col < s.grid[i].length := by
  have hi : i < s.grid.length := by
    rw [h.rows]
    exact hin.row
  refine ⟨hi, List.getElem?_eq_getElem hi, ?_⟩
  rw [h.length_getElem hi]
  exact hin.col

theorem modify_eq_set (hi : i < s.grid.length) (f : Line → Line) :
    s.grid.modify i f = s.grid.set i (f s.grid[i]) := by
  rw [List.modify_eq_take_cons_drop hi, List.set_eq_take_append_cons_drop, if_pos hi]

theorem Drawing.run_changeCell (h : s.Filled) (hin : Place.Inside s.size { row := i, col })
    (f : Cell → Cell) :
    (change i col (col + 1) fun cells => cells.map f).run s = .ok ()
      { s with grid := s.grid.modify i fun line => line.modify col f } := by
  obtain ⟨hi, hget, hcol⟩ := h.getElem?_of_inside hin
  have hcell : (s.grid[i].take (col + 1)).drop col = [s.grid[i][col]] := by
    rw [List.drop_take, Nat.add_sub_cancel_left, List.drop_eq_getElem_cons hcol]
    rfl
  rw [run_change hget (Nat.le_succ col) hcol (by simp), modify_eq_set hi,
    List.modify_eq_take_cons_drop hcol, hcell]
  simp

theorem Drawing.run_changeRest (h : s.Filled) (hin : Place.Inside s.size { row := i, col })
    {f : Line → Line} (hf : ∀ cells, (f cells).length = cells.length) :
    (do change i col (← row i).length f : Drawing Unit).run s = .ok ()
      { s with grid := s.grid.modify i fun line => line.take col ++ f (line.drop col) } := by
  obtain ⟨hi, hget, hcol⟩ := h.getElem?_of_inside hin
  rw [EStateM.run_bind, run_row hget]
  simp only
  rw [run_change hget (Nat.le_of_lt hcol) (Nat.le_refl _) fun cells hc => (hf cells).trans hc,
    modify_eq_set hi]
  simp

end Change

section CarryOut

open Drawing

variable {s : Screen} {u : Update}

theorem run_inPlace (h : s.Filled) (hu : u.Fits s.size) : u.inPlace.run s = .ok () (s.draw u) := by
  cases u with
  | putChar i col c reversed => exact run_changeCell h hu _
  | putString i col text reversed =>
    refine (run_changeRest h hu ?_).trans ?_
    · intro cells
      simp
      omega
    · simp only [List.drop_drop, ← List.append_assoc]
      rfl
  | clear => rfl
  | eraseLine i => exact run_changeRest h hu fun cells => List.length_map ..
  | insertLine i =>
    have hi : i ≤ s.grid.length - 1 := by
      have hrow : i < s.size.rows := hu.row
      rw [h.rows]
      omega
    simp [Update.inPlace, insertRow, hi, draw, pushRow]
  | scrollUp r count => exact run_scrollUp h hu count
  | scrollDown r count => exact run_scrollDown h hu count
  | highlight i col => exact run_changeCell h hu _
  | bell => rfl

/-- An update is drawn as a whole or, where it is refused, not at all. -/
theorem run_carryOut (h : s.Filled) (u : Update) :
    u.carryOut.run s =
      match s.perform u with
      | .ok t => .ok () t
      | .error e => .error (.refused e) s := by
  rw [perform_eq, Update.carryOut, EStateM.run_bind]
  cases hc : u.check s with
  | error e => rw [run_require_refused hc]; rfl
  | ok _ =>
    rw [run_require hc]
    exact run_inPlace h (fits_of_check hc)

/-- The screen after the work, whether or not it was given up. -/
def Drawing.leave (d : Drawing Unit) (s : Screen) : Screen :=
  match d.run s with
  | .ok _ t | .error _ t => t

theorem Filled.leave (h : s.Filled) (u : Update) :
    (u.carryOut.leave s).size = s.size ∧ (u.carryOut.leave s).Filled := by
  rw [Drawing.leave, run_carryOut h, perform_eq]
  cases hc : u.check s with
  | error e => exact ⟨rfl, h⟩
  | ok _ => exact ⟨size_draw u, h.draw (fits_of_check hc)⟩

end CarryOut

section Refusal

variable {s : Screen} {u : Update}

/-- The cells that an update addresses. A line is addressed by its first cell, and a region by the
first and the last of its own. -/
def Update.addressed : Update → List Place
  | .putChar row col _ _ | .putString row col _ _ | .highlight row col => [{ row, col }]
  | .eraseLine row | .insertLine row => [{ row, col := 0 }]
  | .scrollUp r _ | .scrollDown r _ =>
    [{ row := r.top, col := r.left }, { row := r.bottom, col := r.right }]
  | .clear | .bell => []

def Update.Inverted : Update → Prop
  | .scrollUp r _ | .scrollDown r _ => r.bottom < r.top ∨ r.right < r.left
  | _ => False

theorem fits_iff {size : Size} :
    u.Fits size ↔ (∀ p ∈ u.addressed, p.Inside size) ∧ ¬ u.Inverted := by
  cases u with
  | scrollUp r count => simpa [Update.addressed, Update.Fits, Update.Inverted] using
      Region.inside_iff
  | scrollDown r count => simpa [Update.addressed, Update.Fits, Update.Inverted] using
      Region.inside_iff
  | _ => simp [Update.Fits, Update.addressed, Update.Inverted]

theorem fits_iff_check : u.Fits s.size ↔ u.check s = .ok () := ⟨check_of_fits, fits_of_check⟩

theorem exists_error_iff (h : s.Filled) :
    (∃ e, s.perform u = .error e) ↔
      (∃ p ∈ u.addressed, s.cell? p.row p.col = none) ∨ u.Inverted := by
  have hfits : (∃ e, u.check s = .error e) ↔ ¬ u.Fits s.size := by
    rw [fits_iff_check]
    cases u.check s <;> simp
  simp only [perform_error_iff, hfits, fits_iff, Classical.not_and_iff_not_or_not, Classical.not_not,
    h.cell?_eq_none_iff]
  simp

theorem place_of_check {row col : Nat} {e : OutOfBounds} (h : s.check row col = .error e) :
    e = { row, col } := by
  unfold check at h
  split at h
  · cases h
  · exact (Except.error.inj h).symm

theorem addressed_of_error {e : OutOfBounds} (h : s.perform u = .error e) :
    { row := e.row, col := e.col } ∈ u.addressed := by
  rw [perform_error_iff] at h
  have hregion {r : Region} (h : s.checkRegion r = .error e) :
      e = { row := r.top, col := r.left } ∨ e = { row := r.bottom, col := r.right } := by
    rw [checkRegion] at h
    cases ht : s.check r.top r.left with
    | error e' =>
      rw [ht] at h
      cases h
      exact .inl (place_of_check ht)
    | ok _ =>
      cases hb : s.check r.bottom r.right with
      | error e' =>
        rw [ht, hb] at h
        cases h
        exact .inr (place_of_check hb)
      | ok _ =>
        simp only [ht, hb, bind, Except.bind] at h
        split at h
        · exact .inr (Except.error.inj h).symm
        · cases h
  cases u with
  | scrollUp r count => rcases hregion h with rfl | rfl <;> simp [Update.addressed]
  | scrollDown r count => rcases hregion h with rfl | rfl <;> simp [Update.addressed]
  | clear => cases h
  | bell => cases h
  | _ =>
    rw [place_of_check h]
    exact List.mem_singleton_self _

end Refusal

/-- The screen after updates that are carried out one after the other, refused ones among them. -/
def carryOutAll (s : Screen) (us : List Update) : Screen :=
  us.foldl (fun s u => u.carryOut.leave s) s

theorem Filled.carryOutAll {s : Screen} (h : s.Filled) (us : List Update) :
    (s.carryOutAll us).size = s.size ∧ (s.carryOutAll us).Filled := by
  induction us generalizing s with
  | nil => exact ⟨rfl, h⟩
  | cons u us ih =>
    obtain ⟨hsize, hfilled⟩ := h.leave u
    obtain ⟨hsize', hfilled'⟩ := ih hfilled
    exact ⟨hsize'.trans hsize, hfilled'⟩

/-- Whatever has been asked of a screen that was blank at first, it has every row and every column.
An update is refused exactly if a cell that it addresses is not on the grid or if its region is
inverted, and nothing has been drawn then. Every other one is carried out to its end, and never is
a row or a run of cells reached for that is not there. -/
theorem carryOutAll_sound (size : Size) (us : List Update) :
    let s := (blank size).carryOutAll us
    s.grid.length = size.rows ∧ (∀ line ∈ s.grid, line.length = size.columns) ∧
      ∀ u : Update,
        ((∃ e, s.perform u = .error e) ↔
          (∃ p ∈ u.addressed, s.cell? p.row p.col = none) ∨ u.Inverted) ∧
        (∀ e, s.perform u = .error e → u.carryOut.run s = .error (.refused e) s ∧
          { row := e.row, col := e.col } ∈ u.addressed) ∧
        (∀ t, s.perform u = .ok t → u.carryOut.run s = .ok () t) ∧
        ∀ t, u.carryOut.run s ≠ .error .astray t := by
  intro s
  obtain ⟨hsize, hfilled⟩ := (blank_filled size).carryOutAll us
  refine ⟨?_, ?_, fun u => ⟨exists_error_iff hfilled, ?_, ?_, ?_⟩⟩
  · rw [hfilled.rows, hsize]
    rfl
  · intro line hm
    rw [hfilled.columns line hm, hsize]
    rfl
  · intro e he
    rw [run_carryOut hfilled, he]
    exact ⟨rfl, addressed_of_error he⟩
  · intro t ht
    rw [run_carryOut hfilled, ht]
  · intro t
    rw [run_carryOut hfilled]
    cases s.perform u <;> simp

end Screen

end VatTerminal
