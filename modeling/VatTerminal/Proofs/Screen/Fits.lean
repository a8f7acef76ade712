import VatTerminal.Screen.Update

/-! # Updates that fit

An update fits a size if every place and every region it names is on a screen
of that size. Such updates never fail.
-/

namespace VatTerminal

structure Size.Positive (size : Size) : Prop where
  rows : 0 < size.rows
  columns : 0 < size.columns

structure Place.Inside (size : Size) (p : Place) : Prop where
  row : p.row < size.rows
  col : p.col < size.columns

/-- The region is not inverted, and lies on a screen of the size. -/
structure Region.Inside (size : Size) (r : Region) : Prop where
  rows : r.top ≤ r.bottom
  columns : r.left ≤ r.right
  bottom : r.bottom < size.rows
  right : r.right < size.columns

theorem Region.inside_iff {size : Size} {r : Region} :
    r.Inside size ↔ (Place.Inside size { row := r.top, col := r.left } ∧
      Place.Inside size { row := r.bottom, col := r.right }) ∧
        ¬(r.bottom < r.top ∨ r.right < r.left) := by
  constructor
  · intro h
    refine ⟨⟨⟨?_, ?_⟩, h.bottom, h.right⟩, ?_⟩
    · exact Nat.lt_of_le_of_lt h.rows h.bottom
    · exact Nat.lt_of_le_of_lt h.columns h.right
    · rw [not_or, Nat.not_lt, Nat.not_lt]
      exact ⟨h.rows, h.columns⟩
  · rintro ⟨⟨-, hb⟩, hn⟩
    rw [not_or, Nat.not_lt, Nat.not_lt] at hn
    exact ⟨hn.1, hn.2, hb.row, hb.col⟩

namespace Screen

def Update.Fits (size : Size) : Update → Prop
  | .putChar row col _ _ | .putString row col _ _ | .highlight row col =>
    Place.Inside size { row, col }
  | .eraseLine row | .insertLine row => Place.Inside size { row, col := 0 }
  | .scrollUp region _ | .scrollDown region _ => region.Inside size
  | .clear | .bell => True

variable {s : Screen}

theorem check_ok {row col : Nat} (h : Place.Inside s.size { row, col }) :
    s.check row col = .ok () := if_pos ⟨h.row, h.col⟩

theorem checkRegion_ok {r : Region} (h : r.Inside s.size) : s.checkRegion r = .ok () := by
  have hrow : r.top < s.size.rows := Nat.lt_of_le_of_lt h.rows h.bottom
  have hcol : r.left < s.size.columns := Nat.lt_of_le_of_lt h.columns h.right
  have hn : ¬(r.bottom < r.top ∨ r.right < r.left) := by
    rintro (hb | hr)
    · exact Nat.not_lt.mpr h.rows hb
    · exact Nat.not_lt.mpr h.columns hr
  rw [checkRegion, check_ok ⟨hrow, hcol⟩, check_ok ⟨h.bottom, h.right⟩]
  exact if_neg hn

def draw (s : Screen) : Update → Screen
  | .putChar row col c reversed => s.setChar row col c reversed
  | .putString row col text reversed => s.setString row col text reversed
  | .clear => s.clear
  | .eraseLine row => s.blankRow row
  | .insertLine row => s.pushRow row
  | .scrollUp region count => s.moveRows region (originUp region count)
  | .scrollDown region count => s.moveRows region (originDown region count)
  | .highlight row col => s.toggleHighlight row col
  | .bell => s.ring

@[simp] theorem size_draw (u : Update) : (s.draw u).size = s.size := by
  cases u <;> rfl

theorem inside_of_check {row col : Nat} (h : s.check row col = .ok ()) :
    Place.Inside s.size { row, col } := by
  unfold check at h
  split at h
  · next hin => exact ⟨hin.1, hin.2⟩
  · cases h

theorem inside_of_checkRegion {r : Region} (h : s.checkRegion r = .ok ()) : r.Inside s.size := by
  rw [checkRegion] at h
  cases ht : s.check r.top r.left with
  | error e => simp [ht, bind, Except.bind] at h
  | ok _ =>
    cases hb : s.check r.bottom r.right with
    | error e => simp [ht, hb, bind, Except.bind] at h
    | ok _ =>
      have hin := inside_of_check hb
      simp only [ht, hb, bind, Except.bind] at h
      split at h
      · cases h
      · next hn =>
        rw [not_or, Nat.not_lt, Nat.not_lt] at hn
        exact ⟨hn.1, hn.2, hin.row, hin.col⟩

def Update.check (u : Update) (s : Screen) : Except OutOfBounds Unit :=
  match u with
  | .putChar row col _ _ | .putString row col _ _ | .highlight row col => s.check row col
  | .eraseLine row | .insertLine row => s.check row 0
  | .scrollUp region _ | .scrollDown region _ => s.checkRegion region
  | .clear | .bell => .ok ()

theorem perform_eq (u : Update) : s.perform u = (do u.check s; return s.draw u) := by
  cases u <;> rfl

theorem fits_of_check {u : Update} (h : u.check s = .ok ()) : u.Fits s.size := by
  cases u with
  | putChar row col c reversed => exact inside_of_check h
  | putString row col text reversed => exact inside_of_check h
  | eraseLine row => exact inside_of_check h
  | insertLine row => exact inside_of_check h
  | highlight row col => exact inside_of_check h
  | scrollUp region count => exact inside_of_checkRegion h
  | scrollDown region count => exact inside_of_checkRegion h
  | clear => trivial
  | bell => trivial

theorem check_of_fits {u : Update} (h : u.Fits s.size) : u.check s = .ok () := by
  cases u with
  | putChar row col c reversed => exact check_ok h
  | putString row col text reversed => exact check_ok h
  | eraseLine row => exact check_ok h
  | insertLine row => exact check_ok h
  | highlight row col => exact check_ok h
  | scrollUp region count => exact checkRegion_ok h
  | scrollDown region count => exact checkRegion_ok h
  | clear => rfl
  | bell => rfl

theorem perform_of_fits {u : Update} (h : u.Fits s.size) : s.perform u = .ok (s.draw u) := by
  rw [perform_eq, check_of_fits h]
  rfl

theorem perform_error_iff {u : Update} {e : OutOfBounds} :
    s.perform u = .error e ↔ u.check s = .error e := by
  rw [perform_eq]
  cases u.check s with
  | error e' => simp [bind, Except.bind]
  | ok _ => simp [bind, Except.bind, pure, Except.pure]

end Screen

end VatTerminal
