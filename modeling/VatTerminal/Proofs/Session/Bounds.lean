import VatTerminal.Proofs.Session.Acts
import VatTerminal.Proofs.Screen.Fits

/-! # Bounds of a session

On a screen with at least one cell the places of a session stay on the screen,
with the cursor and the saved place at most one column past the last. Nothing
that a session asks of its screen is therefore ever out of bounds.
-/

namespace VatTerminal

/-- The place is a cell of a screen of the size, or one past the last of its row. -/
structure Place.Within (size : Size) (p : Place) : Prop where
  row : p.row < size.rows
  col : p.col ≤ size.columns

namespace Session

structure Within (size : Size) (s : Session) : Prop where
  cursor : s.cursor.Within size
  saved : s.saved.Within size
  window : s.window.top ≤ s.window.bottom
  bottom : s.window.bottom < size.rows
  bug : ∀ p, s.bug = some p → p.Inside size

section Indices

variable {size : Size}

theorem lastRow_lt (hp : size.Positive) : size.lastRow < size.rows :=
  Nat.sub_lt hp.rows Nat.one_pos

theorem lastColumn_lt (hp : size.Positive) : size.lastColumn < size.columns :=
  Nat.sub_lt hp.columns Nat.one_pos

theorem rowIndex_lt (hp : size.Positive) (y : Int) : rowIndex size y < size.rows :=
  Nat.lt_of_le_of_lt (Nat.min_le_right _ _) (lastRow_lt hp)

theorem columnIndex_lt (hp : size.Positive) (x : Int) : columnIndex size x < size.columns :=
  Nat.lt_of_le_of_lt (Nat.min_le_right _ _) (lastColumn_lt hp)

theorem placeOf_inside (hp : size.Positive) (x y : Int) : (placeOf size x y).Inside size :=
  ⟨rowIndex_lt hp y, columnIndex_lt hp x⟩

theorem scrollRegion_inside (hp : size.Positive) (left right top bottom : Int) :
    (scrollRegion size left right top bottom).Inside size where
  rows := Nat.le_trans (Nat.min_le_left _ _) (Nat.le_max_left _ _)
  columns := Nat.le_trans (Nat.min_le_left _ _) (Nat.le_max_left _ _)
  bottom := Nat.max_lt.mpr ⟨rowIndex_lt hp top, rowIndex_lt hp bottom⟩
  right := Nat.max_lt.mpr ⟨columnIndex_lt hp left, columnIndex_lt hp right⟩

theorem origin_within (hp : size.Positive) : Place.Within size {} := ⟨hp.rows, Nat.zero_le _⟩

end Indices

end Session

theorem Place.Inside.within {size : Size} {p : Place} (h : p.Inside size) : p.Within size :=
  ⟨h.row, Nat.le_of_lt h.col⟩

namespace Session

variable {size : Size} {s : Session}

theorem initial_within (hp : size.Positive) (escapeWide : Bool) :
    (initial size escapeWide).Within size where
  cursor := origin_within hp
  saved := origin_within hp
  window := Nat.zero_le _
  bottom := lastRow_lt hp
  bug _ h := nomatch h

namespace Within

theorem move (h : s.Within size) {p : Place} (hw : p.Within size) :
    ({ s with cursor := p } : Session).Within size :=
  { h with cursor := hw }

theorem setColumn (h : s.Within size) {col : Nat} (hc : col ≤ size.columns) :
    (s.setColumn col).Within size :=
  h.move ⟨h.cursor.row, hc⟩

theorem advance (h : s.Within size) : (s.advance size).Within size :=
  h.setColumn (Nat.min_le_right _ _)

theorem lineDown (h : s.Within size) (hp : size.Positive) : (s.lineDown size).1.Within size := by
  unfold Session.lineDown
  split
  · next hr => exact h.move ⟨hr, h.cursor.col⟩
  · exact h.move ⟨lastRow_lt hp, h.cursor.col⟩

theorem congr (h : s.Within size) {t : Session} (hc : t.cursor = s.cursor) (hs : t.saved = s.saved)
    (hw : t.window = s.window) (hb : t.bug = s.bug) : t.Within size where
  cursor := hc ▸ h.cursor
  saved := hs ▸ h.saved
  window := hw ▸ h.window
  bottom := hw ▸ h.bottom
  bug := hb ▸ h.bug

theorem apply (h : s.Within size) (hp : size.Positive) (i : Instruction) :
    (s.apply size i).1.Within size := by
  cases i with
  | print b =>
    simp only [Session.apply]
    split
    · next hc => exact h.setColumn hc
    · exact h
  | backspace => exact h.setColumn (Nat.le_trans (Nat.sub_le _ _) h.cursor.col)
  | lineFeed =>
    simp only [Session.apply]
    split
    · exact h.advance
    · exact h.lineDown hp
  | carriageReturn =>
    simp only [Session.apply]
    split
    · exact h.advance
    · exact h.setColumn (Nat.zero_le _)
  | position x y =>
    exact { h with saved := h.cursor, cursor := (placeOf_inside hp x y).within }
  | setWindow top bottom =>
    have ht := rowIndex_lt hp top
    have hb := rowIndex_lt hp bottom
    exact { h with
      saved := ⟨Nat.lt_of_le_of_lt (Nat.min_le_left _ _) ht, Nat.zero_le _⟩
      window := Nat.le_trans (Nat.min_le_left _ _) (Nat.le_max_left _ _)
      bottom := Nat.max_lt.mpr ⟨ht, hb⟩ }
  | resumeWindow =>
    simp only [Session.apply]
    split
    · exact h.move h.saved
    · exact h
  | setBug x y =>
    exact { h with bug := by rintro p ⟨⟩; exact placeOf_inside hp x y }
  | popBug => exact { h with bug := by rintro p ⟨⟩ }
  | reset =>
    exact { h with
      saved := origin_within hp, window := Nat.zero_le _, bottom := lastRow_lt hp }
  | _ => exact h.congr rfl rfl rfl rfl

theorem fits_apply (h : s.Within size) (hp : size.Positive) (i : Instruction)
    {u : Screen.Update} (hu : (s.apply size i).2.update = some u) : u.Fits size := by
  -- The margin past the last column is no cell, but the row has one.
  have hrow : Place.Inside size { row := s.cursor.row, col := 0 } := ⟨h.cursor.row, hp.columns⟩
  cases i with
  | print b =>
    simp only [Session.apply] at hu
    split at hu
    · next hc =>
      cases hu
      exact ⟨h.cursor.row, hc⟩
    · cases hu
  | lineFeed =>
    simp only [Session.apply, Session.lineDown] at hu
    split at hu
    · cases hu
    · split at hu
      · cases hu
      · cases hu
        exact ⟨Nat.zero_le _, Nat.zero_le _, lastRow_lt hp, lastColumn_lt hp⟩
  | writeBlanks count =>
    simp only [Session.apply] at hu
    split at hu
    · next hn =>
      cases hu
      refine ⟨h.cursor.row, ?_⟩
      have : s.blankCount size count ≤ size.columns - s.cursor.col := Nat.min_le_right _ _
      show s.cursor.col < size.columns
      omega
    · cases hu
  | deleteLine => cases hu; exact hrow
  | insertLine => cases hu; exact hrow
  | setBug x y => cases hu; exact placeOf_inside hp x y
  | popBug =>
    obtain ⟨p, hp, rfl⟩ := Option.map_eq_some_iff.mp hu
    exact h.bug p hp
  | scroll left right top bottom lines =>
    have hr := scrollRegion_inside hp left right top bottom
    simp only [Session.apply, scrollUpdate] at hu
    split at hu
    · cases hu; exact hr
    · split at hu
      · cases hu; exact hr
      · cases hu
  | bell => cases hu; trivial
  | clear => cases hu; trivial
  | reset => cases hu; trivial
  | _ => cases hu

section Acts

variable {screen : Screen} (h : s.Within screen.size) (hp : screen.size.Positive) (a : Act)

include h

theorem keyTyped (c : Char) : (s.keyTyped screen c).1.Within screen.size := by
  unfold Session.keyTyped
  split
  · exact h
  · exact h.congr rfl rfl rfl rfl

include hp

theorem act : (s.act screen a).1.Within screen.size := by
  cases a with
  | apply i => exact h.apply hp i
  | key c => exact h.keyTyped c
  | resetEmulation => exact initial_within hp _
  | clear => exact initial_within hp _
  | _ => exact h.congr rfl rfl rfl rfl

theorem fits_act : ∀ u ∈ (s.act screen a).2, u.Fits screen.size := by
  intro u hu
  cases a with
  | apply i => exact h.fits_apply hp i (Option.mem_toList.mp hu)
  | clear =>
    cases List.mem_singleton.mp hu
    trivial
  | _ => cases hu

end Acts

theorem run {steps : List (Screen × Act)} (h : s.Within size) (hp : size.Positive)
    (hs : ∀ step ∈ steps, step.1.size = size) : (s.run steps).Within size := by
  refine List.foldlRecOn steps _ h ?_
  intro s h step hm
  obtain rfl : step.1.size = size := hs step hm
  exact h.act hp step.2

end Within

end Session

namespace Terminal

variable {t : Terminal}

@[simp] theorem size_update (t : Terminal) (u : Option Screen.Update) :
    (t.update u).1.screen.size = t.screen.size := by
  cases u with
  | none => rfl
  | some u =>
    rw [update, Screen.perform_eq]
    cases u.check t.screen with
    | error e => rfl
    | ok => exact Screen.size_draw u

theorem size_perform (t : Terminal) (a : Act) :
    (t.perform a).1.screen.size = t.screen.size := by
  cases a with
  | apply i => exact size_update { t with session := (t.session.apply t.screen.size i).1 } _
  | clear => exact size_update t (some .clear)
  | _ => rfl

theorem update_of_fits {u : Option Screen.Update} (h : ∀ v ∈ u.toList, v.Fits t.screen.size) :
    (t.update u).2 = [] := by
  cases u with
  | none => rfl
  | some v => rw [update, Screen.perform_of_fits (h v (List.mem_singleton.mpr rfl))]

theorem perform_of_within (h : t.session.Within t.screen.size) (hp : t.screen.size.Positive)
    (a : Act) : (t.perform a).2.failures = [] := by
  have hu := h.fits_act hp a
  cases a with
  | apply i =>
    exact update_of_fits (t := { t with session := (t.session.apply t.screen.size i).1 }) hu
  | clear => exact update_of_fits (t := t) (u := some .clear) hu
  | _ => rfl

theorem run_of_within {size : Size} (hsize : t.screen.size = size)
    (h : t.session.Within size) (hp : size.Positive) (acts : List Act) :
    (t.run acts).1.screen.size = size ∧ (t.run acts).1.session.Within size ∧
      ∀ o ∈ (t.run acts).2, o.failures = [] := by
  induction acts generalizing t with
  | nil => exact ⟨hsize, h, fun o ho => nomatch ho⟩
  | cons a as ih =>
    subst hsize
    have hf := perform_of_within h hp a
    have hw : (t.perform a).1.session.Within t.screen.size := by
      rw [session_perform]
      exact h.act hp a
    obtain ⟨hs', hw', hf'⟩ := ih (size_perform t a) hw
    refine ⟨hs', hw', ?_⟩
    rintro o (_ | ⟨_, ho⟩)
    · exact hf
    · exact hf' o ho

/-- On a screen with a cell a session stays within bounds whatever is done to it, and whatever
screens of that size it is handed meanwhile. On the screen it drives no update ever fails, so that
there is nothing to warn of. -/
theorem run_within (size : Size) (hp : size.Positive) (escapeWide : Bool) :
    (∀ steps : List (Screen × Act), (∀ step ∈ steps, step.1.size = size) →
      ((Session.initial size escapeWide).run steps).Within size) ∧
    ∀ (screen : Screen) (acts : List Act), screen.size = size →
      let r := (Terminal.start screen escapeWide).run acts
      r.1.screen.size = size ∧ r.1.session.Within size ∧
        ∀ o ∈ r.2, o.failures = [] ∧ o.heard.warnings = [] := by
  constructor
  · intro steps hs
    exact (Session.initial_within hp escapeWide).run hp hs
  · intro screen acts hsize r
    subst hsize
    have hi := Session.initial_within hp escapeWide
    obtain ⟨hs, hw, hf⟩ := run_of_within (t := .start screen escapeWide) rfl hi hp acts
    refine ⟨hs, hw, ?_⟩
    intro o ho
    refine ⟨hf o ho, ?_⟩
    show o.failures.map Warning.screenUpdateFailed = []
    rw [hf o ho, List.map_nil]

theorem run_within_small :
    let acts : List Act :=
      [.apply .lineFeed, .apply .lineFeed, .apply (.print 65), .apply (.print 66),
        .press .left {}, .key 'a', .release .left, .apply (.setBug 9 (-5)),
        .apply (.writeBlanks 7), .apply (.scroll 4095 0 0 4095 (-3)), .apply .popBug]
    let r := (Terminal.start (.blank { columns := 2, rows := 2 }) false).run acts
    r.1.session.cursor = { col := 2, row := 1 } ∧
      r.1.session.Within { columns := 2, rows := 2 } ∧ (∀ o ∈ r.2, o.failures = []) ∧
      ((Session.initial { columns := 2, rows := 2 } false).run
        [(.blank { columns := 2, rows := 2 }, .apply (.position 7 0))]).Within
          { columns := 2, rows := 2 } := by
  intro acts r
  obtain ⟨hs, ht⟩ := run_within { columns := 2, rows := 2 } ⟨by decide, by decide⟩ false
  obtain ⟨-, hw, hf⟩ := ht (.blank { columns := 2, rows := 2 }) acts rfl
  refine ⟨by decide +kernel, hw, fun o ho => (hf o ho).1, hs _ ?_⟩
  intro step hm
  rw [List.mem_singleton.mp hm]
  rfl

end Terminal

end VatTerminal
