import VatTerminal.Session.Console

/-! # Acts of a terminal

Everything that can be done to a terminal, one after the other. What becomes
of the session depends on the screen only through its extents, so a session
is also followed without its screen, handed another one in every step.
-/

namespace VatTerminal

inductive Act where
  | apply (i : Instruction)
  | key (c : Char)
  | press (b : Button) (p : Point)
  | release (b : Button)
  | move (p : Point)
  | exit
  | resetEmulation
  | clear
  deriving DecidableEq

namespace Session

def act (s : Session) (screen : Screen) : Act → Session × List Screen.Update
  | .apply i =>
    let (s, effect) := s.apply screen.size i
    (s, effect.update.toList)
  | .key c => ((s.keyTyped screen c).1, [])
  | .press b p => (s.mousePressed b p, [])
  | .release b => ((s.mouseReleased screen b).1, [])
  | .move p => (s.mouseMoved p, [])
  | .exit => (s.mouseExited, [])
  | .resetEmulation => (s.resetEmulation screen.size, [])
  | .clear => (s.resetEmulation screen.size, [.clear])

/-- The session after acts, each on a screen of its own. -/
def run (s : Session) (steps : List (Screen × Act)) : Session :=
  steps.foldl (fun s step => (s.act step.1 step.2).1) s

variable (s : Session) (screen : Screen)

theorem escapeWide_apply (size : Size) (i : Instruction) :
    (s.apply size i).1.escapeWide = s.escapeWide := by
  cases i with
  | print b =>
    simp only [apply]
    split <;> rfl
  | lineFeed =>
    simp only [apply, lineDown]
    split
    · rfl
    · split <;> rfl
  | carriageReturn =>
    simp only [apply]
    split <;> rfl
  | resumeWindow =>
    simp only [apply]
    split <;> rfl
  | _ => rfl

theorem escapeWide_act (a : Act) : (s.act screen a).1.escapeWide = s.escapeWide := by
  cases a with
  | apply i => exact s.escapeWide_apply screen.size i
  | key c =>
    simp only [act, keyTyped]
    split <;> rfl
  | _ => rfl

theorem escapeWide_run (steps : List (Screen × Act)) : (s.run steps).escapeWide = s.escapeWide :=
  List.foldlRecOn (motive := fun t : Session => t.escapeWide = s.escapeWide) steps _ rfl
    fun t ht step _ => (t.escapeWide_act step.1 step.2).trans ht

end Session

namespace Terminal

def perform (t : Terminal) : Act → Terminal × Outcome
  | .apply i => t.apply i
  | .key c => t.key c
  | .press b p => (t.press b p, {})
  | .release b => t.release b
  | .move p => (t.move p, {})
  | .exit => (t.exit, {})
  | .resetEmulation => (t.resetEmulation, {})
  | .clear => t.clear

def run (t : Terminal) : List Act → Terminal × List Outcome
  | [] => (t, [])
  | a :: as =>
    let (t, outcome) := t.perform a
    let (t, outcomes) := t.run as
    (t, outcome :: outcomes)

variable (t : Terminal)

@[simp] theorem session_update (u : Option Screen.Update) : (t.update u).1.session = t.session := by
  unfold update
  split
  · rfl
  · split <;> rfl

@[simp] theorem session_perform (a : Act) :
    (t.perform a).1.session = (t.session.act t.screen a).1 := by
  cases a with
  | apply i => exact session_update _ _
  | clear =>
    show (t.update (some .clear)).1.session.resetEmulation _ = t.session.resetEmulation _
    rfl
  | _ => rfl

end Terminal

end VatTerminal
