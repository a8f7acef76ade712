import VatTerminal.Proofs.Screen.Rows
import VatTerminal.Proofs.Session.Mouse
import VatTerminal.Proofs.Stream.Alike
import VatTerminal.Proofs.Stream.RoundTrip
import VatTerminal.Session.Console

/-! # Transcripts

Lines of text, each ended by a carriage return and a line feed, leave on a
blank screen what a teletype would have left on paper: the last lines, as many
as there are rows, each cut to the width of the screen.
-/

namespace VatTerminal

theorem Console.feed_terminal {c : Console} {bytes : List UInt8} {is : List Instruction}
    (h : (c.stream.drain bytes).2 = is.map .instruction) :
    (c.feed bytes).1.terminal = c.terminal.interpret is := by
  induction bytes generalizing c is with
  | nil =>
    obtain rfl : is = [] := by simpa [Stream.drain] using h
    rfl
  | cons b bs ih =>
    have hb : (c.step b).1.stream = (c.stream.step b).1.takeStrays.2 := by
      unfold step accept
      rcases c.stream.step b with ⟨s, _ | _ | _⟩ <;> rfl
    -- Taking what has collected of meaningless bytes does not change what is read next.
    have hdrain : ((c.step b).1.stream.drain bs).2 = ((c.stream.step b).1.drain bs).2 := by
      rw [hb]
      exact ((Stream.alike_takeStrays _).drain bs).2.symm
    rw [Stream.drain] at h
    rcases hs : c.stream.step b with ⟨s, _ | e⟩
    · rw [hs] at h hdrain
      have ht : (c.step b).1.terminal = c.terminal := by simp [step, hs, accept]
      rw [feed, ih (hdrain.trans h), ht]
    · rw [hs] at h hdrain
      rcases is with _ | ⟨i, is⟩
      · simp at h
      · obtain ⟨rfl, hrest⟩ : e = .instruction i ∧ (s.drain bs).2 = is.map .instruction := by
          simpa using h
        have ht : (c.step b).1.terminal = (c.terminal.apply i).1 := by simp [step, hs, accept]
        rw [feed, ih (hdrain.trans hrest), ht]
        rfl

namespace Transcript

def Printable (line : List UInt8) : Prop := ∀ b ∈ line, Control.space ≤ b ∧ b ≠ Control.pad

/-- Lines with a carriage return and a line feed between them. -/
def encode : List (List UInt8) → List UInt8
  | [] => []
  | line :: lines =>
    line ++ lines.flatMap fun l => Control.carriageReturn :: Control.lineFeed :: l

def following (line : List UInt8) : List Instruction :=
  .carriageReturn :: .lineFeed :: line.map .print

theorem run_line {line : List UInt8} (h : Printable line) (rest : List UInt8) :
    Parser.ground.run (line ++ rest) =
      ((Parser.ground.run rest).1, line.map .print ++ (Parser.ground.run rest).2) := by
  induction line with
  | nil => rfl
  | cons b bs ih =>
    obtain ⟨hb, hbs⟩ := List.forall_mem_cons.mp h
    obtain ⟨he, hs⟩ := Parser.single?_of_printable hb.1 hb.2
    simp [Parser.push, he, hs, Parser.goOn, ih hbs]

theorem run_encode {line : List UInt8} {lines : List (List UInt8)}
    (h : ∀ l ∈ line :: lines, Printable l) :
    Parser.ground.run (encode (line :: lines)) =
      (.ground, line.map .print ++ lines.flatMap following) := by
  obtain ⟨hline, hlines⟩ := List.forall_mem_cons.mp h
  rw [encode, run_line hline]
  suffices hrest : Parser.ground.run
      (lines.flatMap fun l => Control.carriageReturn :: Control.lineFeed :: l) =
        (.ground, lines.flatMap following) by
    rw [hrest]
  clear h hline
  induction lines with
  | nil => rfl
  | cons l ls ih =>
    obtain ⟨hl, hls⟩ := List.forall_mem_cons.mp hlines
    have hbreak (bytes : List UInt8) :
        Parser.ground.run (Control.carriageReturn :: Control.lineFeed :: bytes) =
          ((Parser.ground.run bytes).1,
            .carriageReturn :: .lineFeed :: (Parser.ground.run bytes).2) := rfl
    rw [List.flatMap_cons, List.cons_append, List.cons_append, hbreak, run_line hl, ih hls]
    rfl

section Pages

def latest {α : Type} (count : Nat) (lines : List α) : List α := lines.drop (lines.length - count)

def glyph (b : UInt8) : Cell := { char := Char.ofUInt8 b }

/-- A line of text on a row of its own, cut or filled up with blanks. -/
def typed (columns : Nat) (line : List UInt8) : Screen.Line :=
  (line.take columns).map glyph ++ Screen.blankLine (columns - line.length)

/-- The last lines from the first row on, and blank rows below them. -/
def page (size : Size) (lines : List (List UInt8)) : List Screen.Line :=
  (latest size.rows lines).map (typed size.columns) ++
    List.replicate (size.rows - lines.length) (Screen.blankLine size.columns)

variable {α : Type} {count : Nat} {lines : List α} {size : Size}

theorem length_latest : (latest count lines).length = min lines.length count := by
  rw [latest, List.length_drop]
  omega

theorem latest_concat (hc : 0 < count) (x : α) :
    latest count (lines ++ [x]) = latest (count - 1) lines ++ [x] := by
  have hn : (lines ++ [x]).length - count = lines.length - (count - 1) := by
    rw [List.length_append, List.length_singleton]
    omega
  rw [latest, latest, hn, List.drop_append_of_le_length (Nat.sub_le _ _)]

theorem latest_of_length_le (h : lines.length ≤ count) : latest count lines = lines := by
  rw [latest, Nat.sub_eq_zero_of_le h, List.drop_zero]

theorem tail_latest (hc : 0 < count) (h : count ≤ lines.length) :
    (latest count lines).tail = latest (count - 1) lines := by
  have hn : lines.length - count + 1 = lines.length - (count - 1) := by omega
  rw [latest, List.tail_drop, hn, latest]

theorem typed_nil (columns : Nat) : typed columns [] = Screen.blankLine columns := by
  simp [typed, Screen.blankLine]

theorem length_typed (columns : Nat) (line : List UInt8) :
    (typed columns line).length = columns := by
  simp [typed, Screen.blankLine]
  omega

theorem typed_concat_of_lt {columns : Nat} {line : List UInt8} (h : line.length < columns)
    (b : UInt8) :
    typed columns (line ++ [b]) =
      (typed columns line).modify line.length fun cell =>
        Screen.write false cell (Char.ofUInt8 b) := by
  obtain ⟨n, rfl⟩ := Nat.exists_eq_add_of_lt h
  have hcells (line : List UInt8) (k : Nat) :
      typed (line.length + k) line = line.map glyph ++ Screen.blankLine k := by
    simp [typed, List.take_of_length_le]
  have hleft := hcells (line ++ [b]) n
  rw [List.length_append, List.length_singleton, Nat.add_right_comm] at hleft
  rw [hleft, Nat.add_assoc, hcells, List.modify_eq_take_drop]
  simp [Screen.write, Screen.blankLine, List.replicate_succ, glyph]

theorem typed_concat_of_ge {columns : Nat} {line : List UInt8} (h : columns ≤ line.length)
    (b : UInt8) : typed columns (line ++ [b]) = typed columns line := by
  have hn : columns - (line.length + 1) = columns - line.length := by omega
  simp [typed, List.take_append_of_le_length h, hn]

theorem page_filled {s : Screen} (lines : List (List UInt8)) :
    ({ s with grid := page s.size lines } : Screen).Filled where
  rows := by
    simp [page, length_latest]
    omega
  columns := by
    simp only [page, List.mem_append, List.mem_map, List.mem_replicate]
    rintro line (⟨l, -, rfl⟩ | ⟨-, rfl⟩)
    · exact length_typed _ l
    · exact List.length_replicate

/-- The row of the last line, between the rows above and those below. -/
theorem page_concat (hp : size.Positive) (lines : List (List UInt8)) (line : List UInt8) :
    page size (lines ++ [line]) =
      (latest (size.rows - 1) lines).map (typed size.columns) ++ typed size.columns line ::
        List.replicate (size.rows - (lines.length + 1)) (Screen.blankLine size.columns) := by
  simp [page, latest_concat hp.rows]

theorem page_blank_line (hp : size.Positive) {lines : List (List UInt8)}
    (h : lines.length < size.rows) : page size (lines ++ [[]]) = page size lines := by
  have hn : size.rows - lines.length = size.rows - (lines.length + 1) + 1 := by omega
  rw [page_concat hp, page, latest_of_length_le (by omega), latest_of_length_le (by omega), hn,
    List.replicate_succ, typed_nil]

theorem page_scrolled (hp : size.Positive) {lines : List (List UInt8)}
    (h : size.rows ≤ lines.length) :
    page size (lines ++ [[]]) = (page size lines).tail ++ [Screen.blankLine size.columns] := by
  have hn : size.rows - lines.length = 0 := by omega
  have hm : size.rows - (lines.length + 1) = 0 := by omega
  rw [page_concat hp, page, hn, hm, typed_nil, ← tail_latest hp.rows h]
  simp

end Pages

/-- The terminal shows the lines on what was a blank screen, with the cursor behind the last of
them. -/
structure Shows (screen : Screen) (lines : List (List UInt8)) (t : Terminal) : Prop where
  screen_eq : t.screen = { screen with grid := page screen.size lines }
  row : t.session.cursor.row = min lines.length screen.size.rows - 1
  col : ∀ line ∈ lines.getLast?, t.session.cursor.col = min line.length screen.size.columns
  positioned : t.session.positioned = false
  reverse : t.session.reverse = false

namespace Shows

variable {screen : Screen} {lines : List (List UInt8)} {line : List UInt8} {t : Terminal}

theorem size_eq (h : Shows screen lines t) : t.screen.size = screen.size := by rw [h.screen_eq]

theorem start (hb : screen.grid = (Screen.blank screen.size).grid) (hp : screen.size.Positive)
    (escapeWide : Bool) : Shows screen [[]] (.start screen escapeWide) where
  screen_eq := by
    have hblank : page screen.size ([] ++ [[]]) = page screen.size [] :=
      page_blank_line hp hp.rows
    have hg : page screen.size [[]] = screen.grid := by
      rw [hb, ← List.nil_append [[]], hblank]
      simp [page, latest, Screen.blank]
    rw [hg]
    rfl
  row := by
    show 0 = min 1 screen.size.rows - 1
    omega
  col := by
    rintro line ⟨⟩
    exact (Nat.zero_min _).symm
  positioned := rfl
  reverse := rfl

theorem row_eq (h : Shows screen (lines ++ [line]) t) :
    t.session.cursor.row = min lines.length (screen.size.rows - 1) := by
  rw [h.row, List.length_append, List.length_singleton]
  omega

theorem col_eq (h : Shows screen (lines ++ [line]) t) :
    t.session.cursor.col = min line.length screen.size.columns :=
  h.col line (by simp)

theorem print (hp : screen.size.Positive) (h : Shows screen (lines ++ [line]) t) (b : UInt8) :
    Shows screen (lines ++ [line ++ [b]]) (t.apply (.print b)).1 := by
  have hrows := hp.rows
  have hrow := h.row_eq
  have hcol := h.col_eq
  have hlast (x : Nat) (hx : x = min (line.length + 1) screen.size.columns) :
      ∀ l ∈ (lines ++ [line ++ [b]]).getLast?, x = min l.length screen.size.columns := by
    simpa using hx
  rcases Nat.lt_or_ge line.length screen.size.columns with hlt | hge
  · have hc : t.session.cursor.col = line.length := by omega
    have hin : Place.Inside t.screen.size { row := t.session.cursor.row, col := line.length } := by
      rw [h.size_eq]
      exact ⟨by simp only; omega, hlt⟩
    have hperform := Screen.perform_of_fits
      (u := .putChar t.session.cursor.row line.length (Char.ofUInt8 b) false) hin
    have happly : (t.apply (.print b)).1 =
        { session := t.session.setColumn (line.length + 1)
          screen := t.screen.setChar t.session.cursor.row line.length (Char.ofUInt8 b) false } := by
      simp [Terminal.apply, Session.apply, h.size_eq, hc, hlt, h.reverse, Terminal.update,
        hperform, Screen.draw]
    rw [happly]
    refine ⟨?_, by simpa [Session.setColumn] using h.row, hlast _ ?_, h.positioned, h.reverse⟩
    · have hlen : ((latest (screen.size.rows - 1) lines).map (typed screen.size.columns)).length =
          t.session.cursor.row := by
        rw [List.length_map, length_latest, hrow]
      rw [h.screen_eq, page_concat hp, page_concat hp, typed_concat_of_lt hlt, Screen.setChar,
        ← hlen, List.modify_eq_take_drop]
      simp
    · simp only [Session.setColumn]
      omega
  · have hn : ¬ t.session.cursor.col < t.screen.size.columns := by
      rw [h.size_eq]
      omega
    have hstay : (t.apply (.print b)).1 = t := by
      simp [Terminal.apply, Session.apply, hn, Terminal.update]
    rw [hstay]
    refine ⟨?_, by simpa using h.row, hlast _ (by omega), h.positioned, h.reverse⟩
    rw [h.screen_eq, page_concat hp, page_concat hp, typed_concat_of_ge hge]

theorem prints (hp : screen.size.Positive) (h : Shows screen (lines ++ [line]) t)
    (text : List UInt8) :
    Shows screen (lines ++ [line ++ text]) (t.interpret (text.map .print)) := by
  induction text generalizing line t with
  | nil =>
    rw [List.append_nil]
    exact h
  | cons b bs ih =>
    have hrest := ih (h.print hp b)
    rw [List.append_assoc, List.singleton_append] at hrest
    exact hrest

/-- A new line goes below the last one. Where there is no row left, the first one goes. -/
theorem lineBreak (hp : screen.size.Positive) (h : Shows screen (lines ++ [line]) t) :
    Shows screen (lines ++ [line] ++ [[]]) (t.interpret [.carriageReturn, .lineFeed]) := by
  have hrows := hp.rows
  have hrow := h.row_eq
  have hreturn : (t.apply .carriageReturn).1 = { t with session := t.session.setColumn 0 } := by
    simp [Terminal.apply, Session.apply, h.positioned, Terminal.update]
  show Shows screen _ ((t.apply .carriageReturn).1.apply .lineFeed).1
  rw [hreturn]
  have hcol (x : Nat) (hx : x = 0) :
      ∀ l ∈ (lines ++ [line] ++ [[]]).getLast?, x = min l.length screen.size.columns := by
    simpa using hx
  have hlen : (lines ++ [line]).length = lines.length + 1 := by simp
  rcases Nat.lt_or_ge (lines.length + 1) screen.size.rows with hlt | hge
  · have happly : (({ t with session := t.session.setColumn 0 } : Terminal).apply .lineFeed).1 =
        { t with session := { t.session with cursor := ⟨0, t.session.cursor.row + 1⟩ } } := by
      have hnext : t.session.cursor.row + 1 < screen.size.rows := by omega
      simp [Terminal.apply, Session.apply, Session.setColumn, h.positioned, Session.lineDown,
        h.size_eq, hnext, Terminal.update]
    rw [happly]
    refine ⟨?_, ?_, hcol _ rfl, h.positioned, h.reverse⟩
    · rw [page_blank_line hp (by omega)]
      exact h.screen_eq
    · simp only [List.length_append, List.length_singleton]
      omega
  · have hperform : t.screen.perform (.scrollUp screen.size.whole 1) = 
        .ok (t.screen.moveRows screen.size.whole (Screen.originUp screen.size.whole 1)) :=
      Screen.perform_of_fits (u := .scrollUp screen.size.whole 1)
        (h.size_eq ▸ Size.whole_inside (h.size_eq ▸ hp))
    have happly : (({ t with session := t.session.setColumn 0 } : Terminal).apply .lineFeed).1 =
        { session := { t.session with cursor := ⟨0, screen.size.lastRow⟩ }
          screen := t.screen.moveRows screen.size.whole
            (Screen.originUp screen.size.whole 1) } := by
      have hnext : ¬ t.session.cursor.row + 1 < screen.size.rows := by omega
      unfold Size.whole at hperform ⊢
      simp [Terminal.apply, Session.apply, Session.setColumn, h.positioned, Session.lineDown,
        h.size_eq, hnext, Terminal.update, hperform]
    rw [happly]
    refine ⟨?_, ?_, hcol _ rfl, h.positioned, h.reverse⟩
    · rw [h.screen_eq, page_scrolled hp (by rwa [hlen])]
      have hscroll := Screen.grid_scrollUp
        (s := { screen with grid := page screen.size (lines ++ [line]) }) hp (page_filled _)
      exact congrArg (fun grid => ({ screen with grid } : Screen)) hscroll
    · simp only [List.length_append, List.length_singleton, Size.lastRow]
      omega

theorem next (hp : screen.size.Positive) (h : Shows screen lines t) (hne : lines ≠ [])
    (text : List UInt8) : Shows screen (lines ++ [text]) (t.interpret (following text)) := by
  obtain ⟨above, line, rfl⟩ := lines.eq_nil_or_concat'.resolve_left hne
  exact (h.lineBreak hp).prints hp text

theorem run (hp : screen.size.Positive) (h : Shows screen lines t) (hne : lines ≠ [])
    (more : List (List UInt8)) :
    Shows screen (lines ++ more) (t.interpret (more.flatMap following)) := by
  induction more generalizing lines t with
  | nil =>
    rw [List.append_nil]
    exact h
  | cons text more ih =>
    have hrest := ih (h.next hp hne text) (by simp)
    rw [List.append_assoc, List.singleton_append] at hrest
    rw [List.flatMap_cons, Terminal.interpret_append]
    exact hrest

end Shows

theorem page_plain {size : Size} {lines : List (List UInt8)} {line : Screen.Line} {cell : Cell}
    (hline : line ∈ page size lines) (hcell : cell ∈ line) :
    cell.reversed = false ∧ cell.highlighted = false := by
  have hblank {n : Nat} (h : cell ∈ Screen.blankLine n) :
      cell.reversed = false ∧ cell.highlighted = false := by
    rw [List.eq_of_mem_replicate h]
    exact ⟨rfl, rfl⟩
  rcases List.mem_append.mp hline with h | h
  · obtain ⟨text, -, rfl⟩ := List.mem_map.mp h
    rcases List.mem_append.mp hcell with hc | hc
    · obtain ⟨b, -, rfl⟩ := List.mem_map.mp hc
      exact ⟨rfl, rfl⟩
    · exact hblank hc
  · rw [List.eq_of_mem_replicate h] at hcell
    exact hblank hcell

end Transcript

namespace Console

open Transcript

/-- Lines that are fed to a fresh console stand on its screen as on paper. -/
theorem feed_transcript {stream : Stream} (hs : stream.AtRest) {screen : Screen}
    (hp : screen.size.Positive) (hb : screen.grid = (Screen.blank screen.size).grid)
    (escapeWide : Bool) {lines : List (List UInt8)} (hne : lines ≠ [])
    (hl : ∀ line ∈ lines, Printable line) :
    let c := (feed { stream, terminal := .start screen escapeWide }
      (Telnet.encodeData (encode lines))).1
    c.terminal.screen = { screen with grid := page screen.size lines } ∧
      (∀ line ∈ c.terminal.screen.grid, ∀ cell ∈ line,
        cell.reversed = false ∧ cell.highlighted = false) ∧
      c.terminal.session.cursor =
        { row := min lines.length screen.size.rows - 1
          col := min (lines.getLast hne).length screen.size.columns } := by
  intro c
  obtain ⟨line, more, rfl⟩ := List.exists_cons_of_ne_nil hne
  have hread : (stream.drain (Telnet.encodeData (encode (line :: more)))).2 =
      (line.map Instruction.print ++ more.flatMap following).map .instruction := by
    rw [Stream.drain_encodeData hs.framing, hs.parser, run_encode hl]
  have hfed : c.terminal = (Terminal.start screen escapeWide).interpret
      (line.map .print ++ more.flatMap following) := feed_terminal hread
  have hstart : Shows screen ([] ++ [[]]) (.start screen escapeWide) := .start hb hp escapeWide
  have hfirst : Shows screen [line] ((Terminal.start screen escapeWide).interpret
      (line.map .print)) := hstart.prints hp line
  have h : Shows screen (line :: more) c.terminal := by
    rw [hfed, Terminal.interpret_append]
    exact hfirst.run hp (by simp) more
  have hgrid : c.terminal.screen.grid = page screen.size (line :: more) := by rw [h.screen_eq]
  refine ⟨h.screen_eq, ?_, ?_⟩
  · rw [hgrid]
    exact fun _ hline _ hcell => page_plain hline hcell
  · have hcol := h.col _ (List.getLast_mem_getLast? hne)
    rw [← h.row, ← hcol]

theorem feed_transcript_short :
    let lines : List (List UInt8) := [[72], [255, 65, 66, 67], [73, 74]]
    let c := (feed { terminal := .start (.blank { columns := 3, rows := 2 }) true }
      (Telnet.encodeData (encode lines))).1
    (∀ line ∈ lines, Printable line) ∧
      c.terminal.screen.grid.map Screen.rowChars = [[Char.ofNat 255, 'A', 'B'], ['I', 'J', ' ']] ∧
      c.terminal.session.cursor = { row := 1, col := 2 } := by
  intro lines c
  have hl : ∀ line ∈ lines, Printable line := by
    unfold lines Printable
    decide +kernel
  have hrest : ({} : Stream).AtRest := ⟨rfl, rfl⟩
  have hp : (Screen.blank { columns := 3, rows := 2 }).size.Positive := ⟨by decide, by decide⟩
  obtain ⟨hscreen, -, hcursor⟩ :=
    feed_transcript hrest hp rfl true (List.cons_ne_nil _ _) hl
  refine ⟨hl, ?_, hcursor⟩
  rw [hscreen]
  decide

end Console

end VatTerminal
