import VatTerminal.Proofs.Screen.Strings
import VatTerminal.Proofs.Session.Mouse

/-! # Runs of blanks

Printing bytes puts them on the row of the cursor as one string, cut at the
right margin. A run of blanks that is written at once shows what as many
printed spaces show, and leaves the session alone.
-/

namespace VatTerminal

namespace Terminal

variable {t : Terminal}

/-- The screen with a string on a row, or as it is where it has no such row. -/
def withString (t : Terminal) (row col : Nat) (text : List Char) : Screen :=
  if row < t.screen.size.rows then t.screen.setString row col text t.session.reverse else t.screen

section Strings

variable {row col : Nat}

@[simp] theorem size_withString {text : List Char} :
    (t.withString row col text).size = t.screen.size := by
  unfold withString
  split <;> rfl

theorem withString_nil : t.withString row col [] = t.screen := by
  unfold withString
  split
  · exact Screen.setString_nil
  · rfl

theorem withString_cons (c : Char) (text : List Char) {u : Terminal}
    (hu : u.screen = t.withString row col [c]) (hr : u.session.reverse = t.session.reverse) :
    u.withString row (col + 1) text = t.withString row col (c :: text) := by
  by_cases hrow : row < t.screen.size.rows
  · have hone : u.screen = t.screen.setChar row col c t.session.reverse := by
      rw [hu, withString, if_pos hrow, Screen.setString_cons, Screen.setString_nil]
    have hsize : row < u.screen.size.rows := by
      rw [hone]
      exact hrow
    rw [withString, withString, if_pos hsize, if_pos hrow, hr, hone, Screen.setString_cons]
  · have hnone : u.screen = t.screen := by rw [hu, withString, if_neg hrow]
    rw [withString, withString, hnone, if_neg hrow, if_neg hrow]

theorem update_putString {text : List Char} (h : col < t.screen.size.columns) :
    (t.update (some (.putString row col text t.session.reverse))).1 =
      { t with screen := t.withString row col text } := by
  by_cases hrow : row < t.screen.size.rows
  · have hput : t.screen.perform (.putString row col text t.session.reverse) =
        .ok (t.screen.setString row col text t.session.reverse) :=
      Screen.perform_of_fits (u := .putString row col text t.session.reverse) ⟨hrow, h⟩
    simp [update, hput, withString, hrow]
  · have hput : t.screen.perform (.putString row col text t.session.reverse) =
        .error { row, col } :=
      Screen.perform_error_iff.mpr (if_neg fun hin => hrow hin.1)
    simp [update, hput, withString, hrow]

theorem perform_putChar (s : Screen) (c : Char) (reversed : Bool) :
    s.perform (.putChar row col c reversed) = s.perform (.putString row col [c] reversed) := by
  simp only [Screen.perform, Screen.setString_cons, Screen.setString_nil]

end Strings

section Prints

theorem apply_print_of_lt (h : t.session.cursor.col < t.screen.size.columns) (b : UInt8) :
    (t.apply (.print b)).1 =
      { session := t.session.setColumn (t.session.cursor.col + 1)
        screen := t.withString t.session.cursor.row t.session.cursor.col [Char.ofUInt8 b] } := by
  let moved : Terminal := { t with session := t.session.setColumn (t.session.cursor.col + 1) }
  have happly : (t.apply (.print b)).1 = (moved.update (some (.putChar t.session.cursor.row
      t.session.cursor.col (Char.ofUInt8 b) moved.session.reverse))).1 := by
    simp only [apply, Session.apply, if_pos h]
    rfl
  have hput : (moved.update (some (.putString t.session.cursor.row t.session.cursor.col
      [Char.ofUInt8 b] moved.session.reverse))).1 = _ := update_putString h
  rw [happly, update, perform_putChar]
  exact hput

theorem apply_print_of_ge (h : t.screen.size.columns ≤ t.session.cursor.col) (b : UInt8) :
    (t.apply (.print b)).1 = t := by
  simp [apply, Session.apply, Nat.not_lt.mpr h, update]

/-- Bytes that are printed one by one stand on the row of the cursor as one string, as far as the
row goes. -/
theorem screen_interpret_prints (bytes : List UInt8) :
    (t.interpret (bytes.map .print)).screen =
      t.withString t.session.cursor.row t.session.cursor.col
        ((bytes.take (t.screen.size.columns - t.session.cursor.col)).map Char.ofUInt8) := by
  induction bytes generalizing t with
  | nil =>
    rw [List.take_nil]
    exact withString_nil.symm
  | cons b bs ih =>
    show ((t.apply (.print b)).1.interpret (bs.map .print)).screen = _
    rcases Nat.lt_or_ge t.session.cursor.col t.screen.size.columns with hlt | hge
    · have hroom : t.screen.size.columns - t.session.cursor.col =
          t.screen.size.columns - (t.session.cursor.col + 1) + 1 := by omega
      rw [ih, apply_print_of_lt hlt, hroom, List.take_succ_cons, List.map_cons]
      simp only [Session.setColumn, size_withString]
      exact withString_cons _ _ rfl rfl
    · have hfull : t.screen.size.columns - t.session.cursor.col = 0 := Nat.sub_eq_zero_of_le hge
      rw [apply_print_of_ge hge, ih, hfull]
      rfl

theorem apply_writeBlanks (count : Int) :
    (t.apply (.writeBlanks count)).1 =
      { t with
        screen := t.withString t.session.cursor.row t.session.cursor.col
          (List.replicate (t.session.blankCount t.screen.size count) ' ') } := by
  simp only [apply, Session.apply]
  split
  · next hn =>
    have hcol : t.session.cursor.col < t.screen.size.columns := by
      have hle : t.session.blankCount t.screen.size count ≤
          t.screen.size.columns - t.session.cursor.col := Nat.min_le_right ..
      omega
    exact update_putString hcol
  · next hn =>
    have hnone : t.session.blankCount t.screen.size count = 0 := Nat.eq_zero_of_not_pos hn
    rw [hnone, List.replicate_zero, withString_nil]
    rfl

theorem screen_interpret_spaces (count : Int) :
    (t.interpret (List.replicate count.toNat (.print Control.space))).screen =
      t.withString t.session.cursor.row t.session.cursor.col
        (List.replicate (t.session.blankCount t.screen.size count) ' ') := by
  have hspaces := t.screen_interpret_prints (List.replicate count.toNat Control.space)
  rw [List.map_replicate, List.take_replicate, List.map_replicate, Nat.min_comm] at hspaces
  exact hspaces

end Prints

/-- Writing at once shows what writing one by one shows. Blanks that are asked for in one go are as
many printed spaces, of which those past the right margin are dropped, but for the cursor, which does
not move: nothing of the session changes. A string is its characters, put at one column after the
other up to the right margin, so that every mark stays where it is, and a cell that is not under the
string stays as it is. -/
theorem writes_one_by_one :
    (∀ (t : Terminal) (count : Int),
      (t.apply (.writeBlanks count)).1 =
        { t with
          screen :=
            (t.interpret (List.replicate count.toNat (.print Control.space))).screen }) ∧
    ∀ (s : Screen) (row col : Nat) (text : List Char) (reversed : Bool),
      s.Filled → Place.Inside s.size { row, col } →
      ∃ u : Screen, s.perform (.putString row col text reversed) = .ok u ∧
        s.putChars row col reversed text = .ok u ∧ u = { s with grid := u.grid } ∧
        (∀ i j, (u.cell? i j).map (·.highlighted) = (s.cell? i j).map (·.highlighted)) ∧
        ∀ i j, ¬ (i = row ∧ col ≤ j ∧ j < col + text.length) → u.cell? i j = s.cell? i j := by
  constructor
  · intro t count
    rw [apply_writeBlanks, screen_interpret_spaces]
  · intro s row col text reversed h hin
    refine ⟨s.setString row col text reversed, ?_, h.putChars_eq hin.row, rfl, ?_, ?_⟩
    · exact Screen.perform_of_fits (u := .putString row col text reversed) hin
    · exact Screen.highlighted_setString
    · exact fun i j => Screen.cell?_setString_of_not_under

theorem writes_one_by_one_marked :
    let t : Terminal := (start (.blank { columns := 3, rows := 2 }) false).interpret
      [.setBug 1 1, .print 65, .standoutOn]
    (t.apply (.writeBlanks 7)).1 =
        { t with screen := (t.interpret (List.replicate 7 (.print 32))).screen } ∧
      (t.apply (.writeBlanks 7)).1.screen.cell? 0 1 = some ⟨' ', true, true⟩ ∧
      (t.apply (.writeBlanks (-7))).1 = t ∧ t.screen.Filled ∧
      Place.Inside t.screen.size { row := 0, col := 1 } ∧
      ∃ u, t.screen.perform (.putString 0 1 ['x', 'y', 'z'] true) = .ok u ∧
        t.screen.putChars 0 1 true ['x', 'y', 'z'] = .ok u ∧
        u.cell? 0 1 = some ⟨'x', true, true⟩ ∧ u.cell? 0 0 = some ⟨'A', false, false⟩ := by
  intro t
  obtain ⟨hblanks, hstring⟩ := writes_one_by_one
  have hf : t.screen.Filled := ⟨by decide, by decide⟩
  have hin : Place.Inside t.screen.size { row := 0, col := 1 } := ⟨by decide, by decide⟩
  obtain ⟨u, hput, hchars, -, -, hrest⟩ := hstring t.screen 0 1 ['x', 'y', 'z'] true hf hin
  have hu : u.cell? 0 1 = some ⟨'x', true, true⟩ := by
    cases hput
    decide
  refine ⟨hblanks t 7, by decide, hblanks t (-7), hf, hin, u, hput, hchars, hu, ?_⟩
  rw [hrest 0 0 (by decide)]
  decide

end Terminal

end VatTerminal
