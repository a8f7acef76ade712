import VatTerminal.Proofs.Screen.Scroll

/-! # Scrolls that add up

Scrolling a region twice the same way is scrolling it once by both counts, and
a count that leaves none of its rows blanks it. A row that is inserted pushes
the ones below it down, as a scroll by one of all that is there does.
-/

namespace VatTerminal

def Size.below (size : Size) (row : Nat) : Region := ⟨row, 0, size.lastRow, size.lastColumn⟩

theorem Size.below_inside {size : Size} (hp : size.Positive) {row : Nat} (h : row < size.rows) :
    (size.below row).Inside size where
  rows := Nat.le_sub_one_of_lt h
  columns := Nat.zero_le _
  bottom := Nat.sub_lt hp.rows Nat.one_pos
  right := Nat.sub_lt hp.columns Nat.one_pos

namespace Screen

inductive Way where
  | up | down
  deriving DecidableEq

namespace Way

def scroll : Way → Region → Nat → Update
  | up => .scrollUp
  | down => .scrollDown

def origin : Way → Region → Nat → Nat → Option Nat
  | up => originUp
  | down => originDown

section Origins

variable {w : Way} {r : Region} {n m row o : Nat}

theorem origin_zero (ht : r.top ≤ row) (hb : row ≤ r.bottom) : w.origin r 0 row = some row := by
  cases w with
  | up => exact if_pos hb
  | down => exact if_pos ht

theorem origin_inside (ht : r.top ≤ row) (hb : row ≤ r.bottom) (ho : w.origin r n row = some o) :
    r.top ≤ o ∧ o ≤ r.bottom := by
  cases w with
  | up =>
    obtain ⟨hn, he⟩ := Option.ite_none_right_eq_some.mp ho
    cases he
    omega
  | down =>
    obtain ⟨hn, he⟩ := Option.ite_none_right_eq_some.mp ho
    cases he
    omega

/-- The row that moves to a row and the row that has moved to that one before. -/
theorem origin_bind : (w.origin r m row).bind (w.origin r n) = w.origin r (n + m) row := by
  ext1 o
  cases w with
  | up =>
    simp only [origin, originUp, Option.bind_eq_some_iff, Option.ite_none_right_eq_some,
      Option.some.injEq]
    constructor
    · rintro ⟨o, ⟨hm, rfl⟩, hn, rfl⟩
      omega
    · rintro ⟨h, rfl⟩
      exact ⟨row + m, by omega, by omega⟩
  | down =>
    simp only [origin, originDown, Option.bind_eq_some_iff, Option.ite_none_right_eq_some,
      Option.some.injEq]
    constructor
    · rintro ⟨o, ⟨hm, rfl⟩, hn, rfl⟩
      omega
    · rintro ⟨h, rfl⟩
      exact ⟨row - m, by omega, by omega⟩

theorem origin_of_lt (hn : r.bottom - r.top < n) (ht : r.top ≤ row) (hb : row ≤ r.bottom) :
    w.origin r n row = none := by
  cases w with
  | up => exact if_neg (by omega)
  | down => exact if_neg (by omega)

theorem origin_min {limit : Nat} (hl : r.bottom - r.top < limit) (ht : r.top ≤ row)
    (hb : row ≤ r.bottom) : w.origin r (min n limit) row = w.origin r n row := by
  rcases Nat.le_total n limit with h | h
  · rw [Nat.min_eq_left h]
  · rw [Nat.min_eq_right h, origin_of_lt hl ht hb, origin_of_lt (by omega) ht hb]

end Origins

end Way

section Moves

variable {s t : Screen} {r : Region} {origin source : Nat → Option Nat} {row col : Nat}

theorem Filled.ext_cell? (hs : s.Filled) (ht : t.Filled) (h : t = { s with grid := t.grid })
    (hcell : ∀ row col, t.cell? row col = s.cell? row col) : t = s := by
  have hlen : t.grid.length = s.grid.length := by
    rw [ht.rows, hs.rows, h]
  have hgrid : t.grid = s.grid := by
    refine List.ext_getElem hlen fun i hi hi' => ?_
    ext1 j
    simpa [cell?, hi, hi'] using hcell i j
  rw [h, hgrid]

theorem moveRows_congr (h : ∀ row, r.top ≤ row → row ≤ r.bottom → origin row = source row) :
    s.moveRows r origin = s.moveRows r source := by
  simp only [moveRows]
  congr 1
  ext1 i
  rw [List.getElem?_mapIdx, List.getElem?_mapIdx]
  congr 1
  ext1 line
  split
  · next hin => rw [h i hin.1 hin.2]
  · rfl

theorem moveRows_self (h : s.Filled) (hr : r.Inside s.size)
    (ho : ∀ row, r.top ≤ row → row ≤ r.bottom → origin row = some row) :
    s.moveRows r origin = s := by
  have hself : s.moveRows r origin = s.moveRows r some := moveRows_congr ho
  rw [hself]
  refine h.ext_cell? (h.moveRows hr some) rfl fun row col => ?_
  rw [cell?_moveRows_of_le h hr]
  · exact ite_self _
  · rintro hb o ⟨⟩
    exact hb

/-- A move after another takes each row from where the first one has taken it. -/
theorem moveRows_moveRows (h : s.Filled) (hr : r.Inside s.size)
    (ho : ∀ row, r.top ≤ row → row ≤ r.bottom → ∀ o ∈ source row, r.top ≤ o ∧ o ≤ r.bottom) :
    (s.moveRows r origin).moveRows r source = s.moveRows r fun row => (source row).bind origin := by
  have hf := h.moveRows hr origin
  refine (h.moveRows hr _).ext_cell? (hf.moveRows hr source) rfl fun row col => ?_
  rw [cell?_moveRows hf hr, cell?_moveRows h hr, cell?_moveRows h hr]
  split
  · next hc =>
    cases hs : source row with
    | none => rfl
    | some o =>
      obtain ⟨ht, hb⟩ := ho row hc.1.1 hc.1.2 o hs
      rw [Option.bind_some, Option.bind_some, cell?_moveRows h hr, if_pos ⟨⟨ht, hb⟩, hc.2⟩]
      rfl
  · rfl

theorem cell?_moveRows_none (h : s.Filled) (hr : r.Inside s.size)
    (ho : ∀ row, r.top ≤ row → row ≤ r.bottom → origin row = none) :
    (s.moveRows r origin).cell? row col =
      if r.Contains row col then some {} else s.cell? row col := by
  have hnone : s.moveRows r origin = s.moveRows r fun _ => none := moveRows_congr ho
  rw [hnone, cell?_moveRows h hr]
  rfl

end Moves

section Scrolls

variable {s : Screen} {r : Region} (h : s.Filled) (hr : r.Inside s.size) (w : Way)

include hr

theorem perform_scroll (n : Nat) : s.perform (w.scroll r n) = .ok (s.moveRows r (w.origin r n)) := by
  cases w with
  | up => exact perform_of_fits (u := .scrollUp r n) hr
  | down => exact perform_of_fits (u := .scrollDown r n) hr

theorem moveRows_origin_min (n : Nat) {limit : Nat} (hl : s.size.rows ≤ limit) :
    s.moveRows r (w.origin r (min n limit)) = s.moveRows r (w.origin r n) := by
  refine moveRows_congr fun row ht hb => Way.origin_min ?_ ht hb
  have hbottom := hr.bottom
  omega

include h

theorem moveRows_origin_zero : s.moveRows r (w.origin r 0) = s :=
  moveRows_self h hr fun _ => Way.origin_zero

theorem moveRows_origin_add (n m : Nat) :
    (s.moveRows r (w.origin r n)).moveRows r (w.origin r m) =
      s.moveRows r (w.origin r (n + m)) := by
  rw [moveRows_moveRows h hr fun row ht hb o ho => Way.origin_inside ht hb ho]
  simp only [Way.origin_bind]

theorem cell?_moveRows_origin_of_lt {n : Nat} (hn : r.bottom - r.top < n) (row col : Nat) :
    (s.moveRows r (w.origin r n)).cell? row col =
      if r.Contains row col then some {} else s.cell? row col :=
  cell?_moveRows_none h hr fun _ => Way.origin_of_lt hn

end Scrolls

section Insertion

variable {s : Screen} {row : Nat}

/-- A row that is pushed in moves the rows from there on down by one, and the last one is lost. -/
theorem pushRow_eq_moveRows (h : s.Filled) (hp : s.size.Positive) (hrow : row < s.size.rows) :
    s.pushRow row = s.moveRows (s.size.below row) (originDown (s.size.below row) 1) := by
  have hr := Size.below_inside hp hrow
  have hf := h.moveRows hr (originDown (s.size.below row) 1)
  refine hf.ext_cell? (h.pushRow hrow) rfl fun i j => ?_
  by_cases hin : Place.Inside s.size { row := i, col := j }
  · have hi : i ≤ s.size.lastRow := Nat.le_sub_one_of_lt hin.row
    have hj : j ≤ s.size.lastColumn := Nat.le_sub_one_of_lt hin.col
    have hmoved : (s.moveRows (s.size.below row) (originDown (s.size.below row) 1)).cell? i j =
        if row ≤ i then if row + 1 ≤ i then s.cell? (i - 1) j else some {} else s.cell? i j := by
      rw [cell?_scrollDown h hr]
      have hc : (s.size.below row).Contains i j ↔ row ≤ i :=
        ⟨fun hc => hc.1.1, fun hle => ⟨⟨hle, hi⟩, Nat.zero_le j, hj⟩⟩
      exact ite_congr (propext hc) (fun _ => rfl) fun _ => rfl
    rw [cell?_pushRow h hrow hin, hmoved]
    rcases Nat.lt_trichotomy i row with hlt | rfl | hgt
    · rw [if_pos hlt, if_neg (by omega)]
    · rw [if_neg (by omega), if_pos rfl, if_pos (by omega), if_neg (by omega)]
    · rw [if_neg (by omega), if_neg (by omega), if_pos (by omega), if_pos (by omega)]
  · have hpushed : (s.pushRow row).cell? i j = none :=
      (h.pushRow hrow).cell?_eq_none_iff.mpr hin
    have hmoved := hf.cell?_eq_none_iff.mpr hin
    rw [hpushed, hmoved]

end Insertion

/-- Scrolls of a region add up, whichever way it is scrolled: two of them, one after the other, are
one by the sum of their counts, also where the sum is cut to a largest count that is no smaller than
the screen is high. A scroll by nothing is none, and one by more than there are rows below the first
blanks the region and leaves the rest. To insert a line, by taking the last row out and putting a
blank one in, is to copy all rows from there on down by one. -/
theorem scrolls_add {s : Screen} (h : s.Filled) (hp : s.size.Positive) :
    (∀ (w : Way) (r : Region), r.Inside s.size →
      (∀ n m, ∃ t u, s.perform (w.scroll r n) = .ok t ∧ t.perform (w.scroll r m) = .ok u ∧
        s.perform (w.scroll r (n + m)) = .ok u ∧
        ∀ limit, s.size.rows ≤ limit → s.perform (w.scroll r (min (n + m) limit)) = .ok u) ∧
      s.perform (w.scroll r 0) = .ok s ∧
      ∀ n, r.bottom - r.top < n → ∃ t, s.perform (w.scroll r n) = .ok t ∧
        t = { s with grid := t.grid } ∧
        ∀ row col, t.cell? row col =
          if r.Contains row col then some {} else s.cell? row col) ∧
    ∀ row, row < s.size.rows → ∃ t,
      s.perform (.insertLine row) = .ok t ∧
      s.perform (.scrollDown (s.size.below row) 1) = .ok t ∧
      (Update.insertLine row).carryOut.run s = .ok () t ∧
      (Update.scrollDown (s.size.below row) 1).carryOut.run s = .ok () t := by
  constructor
  · intro w r hr
    refine ⟨fun n m => ?_, ?_, fun n hn => ?_⟩
    · refine ⟨_, s.moveRows r (w.origin r (n + m)), perform_scroll hr w n, ?_,
        perform_scroll hr w (n + m), fun limit hl => ?_⟩
      · rw [← moveRows_origin_add h hr w n m]
        exact perform_scroll (s := s.moveRows r (w.origin r n)) hr w m
      · rw [← moveRows_origin_min hr w (n + m) hl]
        exact perform_scroll hr w (min (n + m) limit)
    · rw [perform_scroll hr, moveRows_origin_zero h hr]
    · exact ⟨_, perform_scroll hr w n, rfl, cell?_moveRows_origin_of_lt h hr w hn⟩
  · intro row hrow
    have hr := Size.below_inside hp hrow
    obtain ⟨hinsert, hinsert'⟩ := carryOut_of_fits h (u := .insertLine row) ⟨hrow, hp.columns⟩
    obtain ⟨hscroll, hscroll'⟩ := carryOut_of_fits h (u := .scrollDown (s.size.below row) 1) hr
    have heq : s.draw (.insertLine row) = s.draw (.scrollDown (s.size.below row) 1) :=
      pushRow_eq_moveRows h hp hrow
    rw [heq] at hinsert hinsert'
    exact ⟨_, hinsert, hscroll, hinsert', hscroll'⟩

/-- A marked cell goes down two rows in two steps, counts that add up to more than the largest one
leave nothing, and a line is inserted in the middle. -/
theorem scrolls_add_lettered :
    let limit := 18446744073709551615
    lettered.Filled ∧ lettered.size.Positive ∧ rightHalf.Inside lettered.size ∧
      (∃ t u, lettered.perform (.scrollDown rightHalf 1) = .ok t ∧
        t.perform (.scrollDown rightHalf 1) = .ok u ∧
        lettered.perform (.scrollDown rightHalf 2) = .ok u ∧
        u.cell? 2 2 = some ⟨'c', false, true⟩) ∧
      (∃ u, lettered.perform (.scrollUp rightHalf (min (limit + 2) limit)) = .ok u ∧
        u.cell? 0 1 = some {} ∧ u.cell? 0 0 = some ⟨'a', false, false⟩) ∧
      lettered.perform (.scrollUp rightHalf 0) = .ok lettered ∧
      ∃ t, lettered.perform (.insertLine 1) = .ok t ∧
        lettered.perform (.scrollDown (lettered.size.below 1) 1) = .ok t ∧
        t.cell? 1 0 = some {} ∧ t.cell? 2 1 = some ⟨'e', true, false⟩ := by
  intro limit
  have hf : lettered.Filled := ⟨rfl, by decide⟩
  have hp : lettered.size.Positive := ⟨by decide, by decide⟩
  have hr : rightHalf.Inside lettered.size := by constructor <;> decide
  obtain ⟨hscroll, hinsert⟩ := scrolls_add hf hp
  obtain ⟨hdown, -⟩ := hscroll .down rightHalf hr
  obtain ⟨t, u, ht, hu, htwo, -⟩ := hdown 1 1
  obtain ⟨hup, hzero, hfar⟩ := hscroll .up rightHalf hr
  obtain ⟨-, v, -, -, hv, hcut⟩ := hup limit 2
  obtain ⟨v', hv', -, hblank⟩ := hfar (limit + 2) (by decide)
  cases hv.symm.trans hv'
  obtain ⟨l, hl, hl', -⟩ := hinsert 1 (by decide)
  refine ⟨hf, hp, hr, ⟨t, u, ht, hu, htwo, ?_⟩, ⟨v, hcut limit (by decide), ?_, ?_⟩, hzero, l, hl,
    hl', ?_, ?_⟩
  · cases htwo
    decide
  · rw [hblank]
    decide
  · rw [hblank]
    decide
  · cases hl
    decide
  · cases hl
    decide

end Screen

end VatTerminal
