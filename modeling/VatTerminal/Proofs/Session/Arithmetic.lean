import VatTerminal.Proofs.Session.Reports
import VatTerminal.Proofs.Stream.Numbers

/-! # Arithmetic of a session

A session computed with flips that have to stay in range: an act comes to
nothing where one of them does not. On a screen that is no taller than
`Coordinate.tallest` that never happens, whatever instructions come off the
wire and wherever the pointer is, and the session and its reports are what they
are with numbers of any size.
-/

namespace VatTerminal

open Coordinate (flipRow flipRow? ofExtent tallest)

def Coordinate.Writer.putY? (w : Writer) (y : Int) : Option (List UInt8) :=
  (flipRow? w.rows y).map w.putX

theorem Coordinate.Writer.putY?_ofExtent (w : Writer) (n : Nat) :
    w.putY? (ofExtent n) = some (w.putY (ofExtent n)) := by
  rw [putY?, flipRow?_ofExtent]
  rfl

namespace Session

section Apply

def rowIndex? (size : Size) (y : Int) : Option Nat :=
  (flipRow? size.rows y).map fun row => min row.toNat size.lastRow

def placeOf? (size : Size) (x y : Int) : Option Place :=
  (rowIndex? size y).map fun row => { col := columnIndex size x, row }

def scrollRegion? (size : Size) (left right top bottom : Int) : Option Region := do
  let l := columnIndex size left
  let r := columnIndex size right
  let t ← rowIndex? size top
  let b ← rowIndex? size bottom
  return { top := min t b, left := min l r, bottom := max t b, right := max l r }

/-- Apply an instruction with flips in range. No other instruction names a row. -/
def applied? (s : Session) (size : Size) : Instruction → Option (Session × Effect)
  | .position x y => do
    let p ← placeOf? size x y
    return ({ s with saved := s.cursor, cursor := p, positioned := true }, {})
  | .setWindow top bottom => do
    let t ← rowIndex? size top
    let b ← rowIndex? size bottom
    return ({ s with window := ⟨min t b, max t b⟩, saved := { col := 0, row := min t b } }, {})
  | .setBug x y => do
    let p ← placeOf? size x y
    return ({ s with bug := some p }, { update := some (.highlight p.row p.col) })
  | .scroll left right top bottom lines => do
    let region ← scrollRegion? size left right top bottom
    return (s, { update := scrollUpdate region lines })
  | i => some (s.apply size i)

variable {size : Size} (h : size.rows ≤ tallest)

include h

theorem rowIndex?_of_readable {y : Int} (hy : Coordinate.Readable y) :
    rowIndex? size y = some (rowIndex size y) := by
  rw [rowIndex?, Coordinate.flipRow?_of_readable h hy]
  rfl

theorem placeOf?_of_readable {y : Int} (hy : Coordinate.Readable y) (x : Int) :
    placeOf? size x y = some (placeOf size x y) := by
  rw [placeOf?, rowIndex?_of_readable h hy]
  rfl

theorem scrollRegion?_of_readable {top bottom : Int} (ht : Coordinate.Readable top)
    (hb : Coordinate.Readable bottom) (left right : Int) :
    scrollRegion? size left right top bottom = some (scrollRegion size left right top bottom) := by
  rw [scrollRegion?, rowIndex?_of_readable h ht, rowIndex?_of_readable h hb]
  rfl

theorem applied?_of_readable (s : Session) {i : Instruction} (hi : i.Readable) :
    s.applied? size i = some (s.apply size i) := by
  cases i with
  | position x y =>
    have hy : Coordinate.Readable y := hi y (by simp [Instruction.numbers])
    rw [applied?, placeOf?_of_readable h hy]
    rfl
  | setWindow top bottom =>
    have ht : Coordinate.Readable top := hi top (by simp [Instruction.numbers])
    have hb : Coordinate.Readable bottom := hi bottom (by simp [Instruction.numbers])
    rw [applied?, rowIndex?_of_readable h ht, rowIndex?_of_readable h hb]
    rfl
  | setBug x y =>
    have hy : Coordinate.Readable y := hi y (by simp [Instruction.numbers])
    rw [applied?, placeOf?_of_readable h hy]
    rfl
  | scroll left right top bottom lines =>
    have ht : Coordinate.Readable top := hi top (by simp [Instruction.numbers])
    have hb : Coordinate.Readable bottom := hi bottom (by simp [Instruction.numbers])
    rw [applied?, scrollRegion?_of_readable h ht hb]
    rfl
  | _ => rfl

end Apply

section Report

variable (s : Session) (screen : Screen)

def pointReport? (p : Point) : Option (List UInt8) :=
  let place := screen.placeAt p
  let w := s.writer screen.size
  (w.putY? (ofExtent place.row)).map fun row => w.putX (ofExtent place.col) ++ row

/-- Only a chord of two buttons or of three reports a place. -/
def chordedKey? (mask : UInt8) (p : Point) (c : Char) : Option (List UInt8) :=
  if mask = 6 ∨ mask = 7 then
    (s.pointReport? screen p).map fun place =>
      [reportLead, chordReport, chordBase + mask] ++ place ++ [lowByte c]
  else some (s.chordedKey screen mask p c)

def enterReport? : Option (List UInt8) :=
  let w := s.writer screen.size
  let place? :=
    match s.mouse.pointer with
    | some p => s.pointReport? screen p
    | none => (w.putY? 0).map fun row => w.putX 0 ++ row
  place?.map fun place => [reportLead, buttonReport] ++ place ++ [enterTerminator]

def plainKey? (c : Char) : Option (List UInt8) :=
  if lowByte c = 10 ∧ s.coordinates then s.enterReport? screen else some (s.plainKey screen c)

def keyTyped? (c : Char) : Option (Session × List UInt8) :=
  if s.mouse.mask = 0 then (s.plainKey? screen c).map (s, ·)
  else
    (s.chordedKey? screen s.mouse.mask (s.mouse.pressPoint.getD {}) c).map
      ({ s with mouse := { s.mouse with keyWithButton := true } }, ·)

def gestureReport? (mask : UInt8) (p : Point) : Option (List UInt8) :=
  let button? := (s.pointReport? screen p).map fun place =>
    [reportLead, buttonReport] ++ place ++ [gestureCode mask]
  if s.mouse.keyWithButton then
    if mask = 1 ∨ mask = 5 then button?
    else if mask = 6 ∨ mask = 7 then
      (s.pointReport? screen p).map ([reportLead, chordReport, chordBase] ++ ·)
    else some []
  else if 1 ≤ mask ∧ mask ≤ 5 then button?
  else if mask = 6 then some [gestureCode mask]
  else some []

def mouseReleased? (b : Button) : Option (Session × List UInt8) :=
  if s.reportsRelease then
    (s.gestureReport? screen s.mouse.mask (s.mouse.pressPoint.getD {})).map
      ((s.mouseReleased screen b).1, ·)
  else some (s.mouseReleased screen b)

theorem pointReport?_eq (p : Point) : s.pointReport? screen p = some (s.pointReport screen p) := by
  simp only [pointReport?, Coordinate.Writer.putY?_ofExtent]
  rfl

theorem chordedKey?_eq (mask : UInt8) (p : Point) (c : Char) :
    s.chordedKey? screen mask p c = some (s.chordedKey screen mask p c) := by
  rw [chordedKey?]
  split
  · next hm =>
    rw [pointReport?_eq]
    rcases hm with rfl | rfl <;> rfl
  · rfl

theorem enterReport?_eq : s.enterReport? screen = some (s.enterReport screen) := by
  unfold enterReport? enterReport
  cases s.mouse.pointer with
  | none =>
    have h : (s.writer screen.size).putY? 0 = some ((s.writer screen.size).putY 0) :=
      Coordinate.Writer.putY?_ofExtent _ 0
    simp only [h]
    rfl
  | some p =>
    simp only [pointReport?_eq]
    rfl

theorem plainKey?_eq (c : Char) : s.plainKey? screen c = some (s.plainKey screen c) := by
  rw [plainKey?]
  split
  · next h => rw [enterReport?_eq, plainKey, if_pos h]
  · rfl

theorem keyTyped?_eq (c : Char) : s.keyTyped? screen c = some (s.keyTyped screen c) := by
  rw [keyTyped?, keyTyped, plainKey?_eq, chordedKey?_eq]
  split <;> rfl

theorem gestureReport?_eq (mask : UInt8) (p : Point) :
    s.gestureReport? screen mask p = some (s.gestureReport screen mask p) := by
  simp only [gestureReport?, gestureReport, pointReport?_eq]
  split
  · split
    · rfl
    split <;> rfl
  · split
    · rfl
    split <;> rfl

theorem mouseReleased?_eq (b : Button) :
    s.mouseReleased? screen b = some (s.mouseReleased screen b) := by
  rw [mouseReleased?]
  split
  · next h =>
    rw [gestureReport?_eq]
    simp [mouseReleased, h]
  · rfl

end Report

end Session

namespace Terminal

def perform? (t : Terminal) : Act → Option (Terminal × Outcome)
  | .apply i => do
    let (session, effect) ← t.session.applied? t.screen.size i
    let (t, failures) := { t with session }.update effect.update
    return (t, { updates := effect.update.toList, failures, reply := effect.reply })
  | .key c => do
    let (session, reply) ← t.session.keyTyped? t.screen c
    return ({ t with session }, { reply })
  | .release b => do
    let (session, reply) ← t.session.mouseReleased? t.screen b
    return ({ t with session }, { reply })
  | a => some (t.perform a)

def run? (t : Terminal) : List Act → Option (Terminal × List Outcome)
  | [] => some (t, [])
  | a :: as => do
    let (t, outcome) ← t.perform? a
    let (t, outcomes) ← t.run? as
    return (t, outcome :: outcomes)

variable {t : Terminal}

theorem perform?_eq (h : t.screen.size.rows ≤ tallest) {a : Act}
    (ha : ∀ i, a = .apply i → i.Readable) : t.perform? a = some (t.perform a) := by
  cases a with
  | apply i =>
    rw [perform?, Session.applied?_of_readable h t.session (ha i rfl)]
    rfl
  | key c =>
    rw [perform?, Session.keyTyped?_eq]
    rfl
  | release b =>
    rw [perform?, Session.mouseReleased?_eq]
    rfl
  | _ => rfl

theorem run?_eq (h : t.screen.size.rows ≤ tallest) {acts : List Act}
    (ha : ∀ i, .apply i ∈ acts → i.Readable) : t.run? acts = some (t.run acts) := by
  induction acts generalizing t with
  | nil => rfl
  | cons a as ih =>
    have hhead : t.perform? a = some (t.perform a) :=
      perform?_eq h fun i hi => ha i (hi ▸ List.mem_cons_self)
    have htail : (t.perform a).1.run? as = some ((t.perform a).1.run as) :=
      ih (by rwa [size_perform]) fun i hi => ha i (List.mem_cons_of_mem a hi)
    rw [run?, hhead]
    simp only [Option.bind_eq_bind, Option.bind_some, htail]
    rfl

/-- Every number of every instruction that a stream makes of what is put to it can be read off the
wire. With such instructions, on a screen that is no taller than `tallest`, no flip leaves the range
of coordinates, whatever is done to a terminal and wherever its pointer is. On a screen with a cell
the rows and columns that come of a flip are on the screen, and so is the row that a report tells the
host. -/
theorem run_in_range :
    (∀ (telnet : Telnet.Endpoint) (inputs : List Stream.Input) (i : Instruction),
      .instruction i ∈ (({ telnet } : Stream).feed inputs).2 →
        ∀ x ∈ i.numbers, Coordinate.Readable x) ∧
    ∀ (t : Terminal) (acts : List Act), t.screen.size.rows ≤ tallest →
      (∀ i, .apply i ∈ acts → ∀ x ∈ i.numbers, Coordinate.Readable x) →
      t.run? acts = some (t.run acts) ∧
        (t.screen.size.Positive →
          (∀ x y, (Session.placeOf t.screen.size x y).Inside t.screen.size) ∧
          ∀ p, (t.screen.placeAt p).Inside t.screen.size ∧
            0 ≤ flipRow t.screen.size.rows (ofExtent (t.screen.placeAt p).row) ∧
            flipRow t.screen.size.rows (ofExtent (t.screen.placeAt p).row) < t.screen.size.rows) := by
  constructor
  · intro telnet inputs i hi
    exact (Stream.feed_keeps Parser.keeps_readable Parser.readable_ground inputs).2 i hi
  · intro t acts h ha
    refine ⟨run?_eq h ha, fun hp => ⟨Session.placeOf_inside hp, fun p => ?_⟩⟩
    have hin := Screen.placeAt_inside hp p
    exact ⟨hin, Coordinate.flipRow_ofExtent_mem h hin.row⟩

/-- The byte 0 as a row, and a press beyond the last row, on the tallest screen; with one row more
there is no result. -/
theorem run_in_range_tallest :
    let tall (rows : Nat) : Terminal := .start { size := { columns := 1, rows }, grid := [] } true
    let acts : List Act :=
      [.apply (.position (-32) (-32)), .apply .coordinatesOn, .press .left ⟨-9, 2147483647⟩,
        .release .left]
    let t := tall tallest
    .instruction (.position (-32) (-32)) ∈
        (({} : Stream).feed ([27, 32, 0, 0].map Stream.Input.byte)).2 ∧
      Coordinate.Readable (-32) ∧ t.run? acts = some (t.run acts) ∧
      (t.run acts).1.session.cursor = { col := 0, row := tallest - 1 } ∧
      (t.run acts).2.map (·.reply) = [[], [], [], [28, 34, 32, 32, 1]] ∧
      (t.screen.placeAt ⟨-9, 2147483647⟩).Inside t.screen.size ∧
      (tall (tallest + 1)).run? acts = none := by
  intro tall acts t
  obtain ⟨hread, hrun⟩ := run_in_range
  have hmem : .instruction (.position (-32) (-32)) ∈
      (({} : Stream).feed ([27, 32, 0, 0].map Stream.Input.byte)).2 := by decide +kernel
  have hr : Coordinate.Readable (-32) := hread {} _ _ hmem (-32) (by decide)
  have ha : ∀ i, .apply i ∈ acts → ∀ x ∈ i.numbers, Coordinate.Readable x := by
    intro i hi
    simp only [acts, List.mem_cons, Act.apply.injEq, reduceCtorEq, List.not_mem_nil,
      or_false] at hi
    rcases hi with rfl | rfl
    · exact hread {} _ _ hmem
    · decide
  obtain ⟨hsome, hin⟩ := hrun t acts (by decide) ha
  obtain ⟨-, hpoint⟩ := hin ⟨by decide, by decide⟩
  exact ⟨hmem, hr, hsome, by decide +kernel, by decide +kernel, (hpoint _).1, by decide +kernel⟩

end Terminal

end VatTerminal
