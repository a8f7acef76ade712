import VatTerminal.Proofs.Session.Acts

/-! # Going back

Giving a place saves the one before it, and going back moves the cursor to what
was saved. Where that is changes only with a further place, a window or a reset,
so nothing that is shown or typed in between is lost on the way back.
-/

namespace VatTerminal

/-- The instructions that say where to go back to, or that there is no way back. -/
def Instruction.setsReturn : Instruction → Bool
  | position _ _ | setWindow _ _ | reset => true
  | _ => false

def Act.setsReturn : Act → Bool
  | apply i => i.setsReturn
  | resetEmulation | clear => true
  | key _ | press _ _ | release _ | move _ | exit => false

namespace Session

def returnPlace? (s : Session) : Option Place := if s.positioned then some s.saved else none

variable {s : Session} {size : Size} {screen : Screen} {i : Instruction} {a : Act}

theorem apply_resumeWindow :
    s.apply size .resumeWindow = ({ s with cursor := s.returnPlace?.getD s.cursor }, {}) := by
  simp only [apply, returnPlace?]
  split <;> rfl

theorem returnPlace?_position (x y : Int) :
    (s.apply size (.position x y)).1.returnPlace? = some s.cursor := rfl

theorem returnPlace?_apply (h : i.setsReturn = false) :
    (s.apply size i).1.returnPlace? = s.returnPlace? := by
  cases i with
  | position | setWindow | reset => cases h
  | print b =>
    simp only [apply]
    split <;> rfl
  | lineFeed =>
    simp only [apply, lineDown]
    split
    · rfl
    · split <;> rfl
  | carriageReturn =>
    simp only [apply]
    split <;> rfl
  | resumeWindow => rw [apply_resumeWindow]; rfl
  | _ => rfl

theorem returnPlace?_act (h : a.setsReturn = false) :
    (s.act screen a).1.returnPlace? = s.returnPlace? := by
  cases a with
  | apply i => exact returnPlace?_apply h
  | key c =>
    simp only [act, keyTyped]
    split <;> rfl
  | resetEmulation | clear => cases h
  | _ => rfl

theorem returnPlace?_run {steps : List (Screen × Act)}
    (h : ∀ step ∈ steps, step.2.setsReturn = false) :
    (s.run steps).returnPlace? = s.returnPlace? :=
  List.foldlRecOn (motive := fun t : Session => t.returnPlace? = s.returnPlace?) steps _ rfl
    fun _ ht step hm => (returnPlace?_act (h step hm)).trans ht

theorem returnPlace?_run_position (x y : Int) (before : Screen) {between : List (Screen × Act)}
    (h : ∀ step ∈ between, step.2.setsReturn = false) :
    (s.run ((before, .apply (.position x y)) :: between)).returnPlace? = some s.cursor :=
  (returnPlace?_run h).trans (returnPlace?_position x y)

end Session

namespace Terminal

variable {t : Terminal}

theorem run_append (acts more : List Act) :
    (t.run (acts ++ more)).1 = ((t.run acts).1.run more).1 := by
  induction acts generalizing t with
  | nil => rfl
  | cons a as ih => exact ih

theorem exists_session_run (acts : List Act) :
    ∃ steps : List (Screen × Act), steps.map (·.2) = acts ∧
      (t.run acts).1.session = t.session.run steps := by
  induction acts generalizing t with
  | nil => exact ⟨[], rfl, rfl⟩
  | cons a as ih =>
    obtain ⟨steps, rfl, hs⟩ := ih (t := (t.perform a).1)
    rw [session_perform] at hs
    exact ⟨(t.screen, a) :: steps, rfl, hs⟩

theorem apply_resumeWindow {p : Place} (h : t.session.returnPlace? = some p) :
    (t.apply .resumeWindow).1 = { t with session := { t.session with cursor := p } } := by
  simp only [apply, Session.apply_resumeWindow, h]
  rfl

/-- Going back undoes the giving of a place. Whatever else is applied, typed or done with the mouse
in between, the cursor is again exactly where it was before, and nothing else is changed. This is
so on a screen of any extents, and also for a session that is handed another screen each time. -/
theorem run_resumed (x y : Int) :
    (∀ (t : Terminal) (between : List Act), (∀ a ∈ between, a.setsReturn = false) →
      let there := (t.run (.apply (.position x y) :: between)).1
      (t.run (.apply (.position x y) :: between ++ [.apply .resumeWindow])).1 =
        { there with session := { there.session with cursor := t.session.cursor } }) ∧
    ∀ (s : Session) (before after : Screen) (between : List (Screen × Act)),
      (∀ step ∈ between, step.2.setsReturn = false) →
      let there := s.run ((before, .apply (.position x y)) :: between)
      s.run ((before, .apply (.position x y)) :: between ++ [(after, .apply .resumeWindow)]) =
        { there with cursor := s.cursor } := by
  constructor
  · intro t between h there
    obtain ⟨steps, hacts, hthere⟩ := exists_session_run (t := t)
      (.apply (.position x y) :: between)
    cases steps with
    | nil => cases hacts
    | cons step steps =>
      obtain ⟨before, act⟩ := step
      obtain ⟨rfl, rfl⟩ := List.cons.inj hacts
      have hsteps : ∀ step ∈ steps, step.2.setsReturn = false :=
        fun step hm => h step.2 (List.mem_map_of_mem hm)
      rw [run_append]
      refine apply_resumeWindow ?_
      rw [hthere]
      exact Session.returnPlace?_run_position x y before hsteps
  · intro s before after between h there
    rw [Session.run, List.foldl_append]
    show (there.apply after.size .resumeWindow).1 = _
    rw [Session.apply_resumeWindow, Session.returnPlace?_run_position x y before h]
    rfl

/-- The cursor past the last column of the last row is come back to, over a scroll, a line printed
beyond the margin, a bug, a chord of the mouse and an earlier way back. -/
theorem run_resumed_margin :
    let small : Screen := .blank { columns := 2, rows := 2 }
    let t : Terminal :=
      (Terminal.start small false).run [.apply .lineFeed, .apply (.print 65), .apply (.print 66)] |>.1
    let between : List Act :=
      [.apply .lineFeed, .apply (.print 67), .apply (.print 68), .apply .carriageReturn,
        .apply (.writeBlanks 7), .press .left {}, .key 'a', .apply .resumeWindow, .apply .backspace,
        .release .left, .apply (.setBug 0 0), .apply .standoutOn, .apply .clear, .exit,
        .apply (.scroll 0 1 0 1 (-1)), .apply .coordinatesOn, .key '\n']
    (∀ a ∈ between, a.setsReturn = false) ∧ t.session.cursor = { col := 2, row := 1 } ∧
      (t.run (.apply (.position (-32) 4095) :: between)).1.session.cursor = { col := 1, row := 1 } ∧
      (t.run (.apply (.position (-32) 4095) :: between ++ [.apply .resumeWindow])).1.session.cursor =
        { col := 2, row := 1 } ∧
      (t.session.run ((small, .apply (.position 4095 0)) :: [(.blank {columns := 9, rows := 1},
        .apply .lineFeed)] ++ [(small, .apply .resumeWindow)])).cursor = { col := 2, row := 1 } := by
  intro small t between
  have hbetween : ∀ a ∈ between, a.setsReturn = false := by decide
  have hcursor : t.session.cursor = { col := 2, row := 1 } := by decide
  refine ⟨hbetween, hcursor, by decide, ?_, ?_⟩
  · rw [(run_resumed (-32) 4095).1 t between hbetween]
    exact hcursor
  · rw [(run_resumed 4095 0).2 t.session small small _ (by simp [Act.setsReturn, Instruction.setsReturn])]
    exact hcursor

end Terminal

end VatTerminal
