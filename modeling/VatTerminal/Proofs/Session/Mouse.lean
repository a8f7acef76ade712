import VatTerminal.Session.Terminal

/-! # The mouse and the screen

Instructions neither read nor change the mouse, and the inputs of the user
change nothing else. What is shown therefore depends on the instructions alone,
and of these only on those that say that they may change a cell.
-/

namespace VatTerminal

theorem Session.apply_mouse (s : Session) (m : Mouse) (size : Size) (i : Instruction) :
    ({ s with mouse := m } : Session).apply size i =
      ({ (s.apply size i).1 with mouse := m }, (s.apply size i).2) := by
  cases i with
  | print b =>
    simp only [apply]
    split <;> rfl
  | lineFeed =>
    simp only [apply, lineDown]
    split
    · rfl
    · split <;> rfl
  | carriageReturn =>
    simp only [apply]
    split <;> rfl
  | resumeWindow =>
    simp only [apply]
    split <;> rfl
  | _ => rfl

namespace Terminal

/-- The same terminal with a mouse that has never been touched. -/
def forgetMouse (t : Terminal) : Terminal := { t with session := { t.session with mouse := {} } }

theorem screen_of_forgetMouse {t u : Terminal} (h : t.forgetMouse = u.forgetMouse) :
    t.screen = u.screen := congrArg (·.screen) h

variable (t : Terminal)

theorem forgetMouse_update (u : Option Screen.Update) :
    (t.update u).1.forgetMouse = (t.forgetMouse.update u).1 := by
  cases u with
  | none => rfl
  | some u =>
    rw [update, update, show t.forgetMouse.screen = t.screen from rfl]
    cases t.screen.perform u <;> rfl

theorem forgetMouse_apply (i : Instruction) :
    (t.apply i).1.forgetMouse = (t.forgetMouse.apply i).1 := by
  have hm : t.forgetMouse.session.apply t.forgetMouse.screen.size i =
      ({ (t.session.apply t.screen.size i).1 with mouse := {} },
        (t.session.apply t.screen.size i).2) := Session.apply_mouse t.session {} t.screen.size i
  simp only [apply, forgetMouse_update, hm]
  rfl

theorem forgetMouse_key (c : Char) : (t.key c).1.forgetMouse = t.forgetMouse := by
  simp only [key, Session.keyTyped]
  split <;> rfl

/-- Only an instruction that says so changes a cell. A bell is no cell. -/
theorem grid_apply {i : Instruction} (h : i.mutatesScreen = false) :
    (t.apply i).1.screen.grid = t.screen.grid := by
  cases i with
  | print | lineFeed | writeBlanks | deleteLine | insertLine | setBug | popBug | clear | reset
  | scroll => cases h
  | _ => rfl

def interpret (is : List Instruction) : Terminal := is.foldl (fun t i => (t.apply i).1) t

@[simp] theorem interpret_append (is js : List Instruction) :
    t.interpret (is ++ js) = (t.interpret is).interpret js := List.foldl_append

end Terminal

end VatTerminal
