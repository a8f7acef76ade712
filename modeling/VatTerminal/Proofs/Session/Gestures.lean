import Mathlib.Data.List.Induction
import Mathlib.Data.List.Infix
import VatTerminal.Proofs.Session.Acts
import VatTerminal.Proofs.Session.Mouse

/-! # Gestures

A gesture lasts from a moment at which every button is up to the next. Of its
releases only the first reports anything, and what it reports is read off what
was done since the gesture began: the buttons that were pressed, where the last
of them was, and whether a key was typed.
-/

namespace VatTerminal

structure Mouse.Sound (m : Mouse) : Prop where
  mask : m.mask ≤ 7
  releasing : m.releasing = true → m.mask ≠ 0
  keyWithButton : m.keyWithButton = true → m.mask ≠ 0
  pressed : m.mask ≠ 0 → m.pressPoint.isSome

namespace Act

def buttons : Act → UInt8
  | press b _ => b.bit
  | _ => 0

def pressPoint? : Act → Option Point
  | press _ p => some p
  | _ => none

def isRelease : Act → Bool
  | release _ => true
  | _ => false

def isKey : Act → Bool
  | key _ => true
  | _ => false

end Act

namespace Session

section Steps

def buttons (steps : List (Screen × Act)) : UInt8 :=
  steps.foldl (fun mask step => mask ||| step.2.buttons) 0

def lastPress? (steps : List (Screen × Act)) : Option Point :=
  (steps.filterMap (·.2.pressPoint?)).getLast?

def released (steps : List (Screen × Act)) : Bool := steps.any (·.2.isRelease)

def typed (steps : List (Screen × Act)) : Bool := steps.any (·.2.isKey)

variable (steps : List (Screen × Act)) (step : Screen × Act)

@[simp] theorem buttons_concat : buttons (steps ++ [step]) = buttons steps ||| step.2.buttons :=
  List.foldl_append

@[simp] theorem lastPress?_concat :
    lastPress? (steps ++ [step]) = step.2.pressPoint?.or (lastPress? steps) := by
  unfold lastPress?
  cases h : step.2.pressPoint? <;> simp [h]

@[simp] theorem released_concat :
    released (steps ++ [step]) = (released steps || step.2.isRelease) := by
  simp [released]

@[simp] theorem typed_concat : typed (steps ++ [step]) = (typed steps || step.2.isKey) := by
  simp [typed]

theorem buttons_of_lastPress?_none {steps : List (Screen × Act)} (h : lastPress? steps = none) :
    buttons steps = 0 := by
  induction steps using List.reverseRecOn with
  | nil => rfl
  | append_singleton steps step ih =>
    rw [lastPress?_concat, Option.or_eq_none_iff] at h
    obtain ⟨hstep, hsteps⟩ := h
    have hb : step.2.buttons = 0 := by
      cases ha : step.2 with
      | press b p =>
        rw [ha] at hstep
        cases hstep
      | _ => rfl
    rw [buttons_concat, ih hsteps, hb]
    rfl

end Steps

section Mouse

variable (s : Session) (screen : Screen)

theorem mouse_apply (size : Size) (i : Instruction) : (s.apply size i).1.mouse = s.mouse :=
  congrArg (·.1.mouse) (s.apply_mouse s.mouse size i)

variable {s} {b : Button}

theorem bit_le (b : Button) : b.bit ≤ 7 := by cases b <;> decide

theorem or_bit_le {mask : UInt8} (h : mask ≤ 7) (b : Button) : mask ||| b.bit ≤ 7 := by
  have hm : mask.toNat < 2 ^ 3 := Nat.lt_succ_of_le (UInt8.le_iff_toNat_le.mp h)
  have hb : b.bit.toNat < 2 ^ 3 := Nat.lt_succ_of_le (UInt8.le_iff_toNat_le.mp (bit_le b))
  rw [UInt8.le_iff_toNat_le, UInt8.toNat_or]
  exact Nat.le_of_lt_succ (Nat.or_lt_two_pow hm hb)

theorem or_bit_ne_zero (mask : UInt8) (b : Button) : mask ||| b.bit ≠ 0 := by
  intro hz
  have hb : b.bit.toNat = 0 := by
    have := congrArg UInt8.toNat hz
    rw [UInt8.toNat_or] at this
    exact (Nat.or_eq_zero_iff.mp this).2
  cases b <;> cases hb

theorem lift_le {mask : UInt8} (h : mask ≤ 7) (b : Button) : mask &&& ~~~b.bit ≤ 7 := by
  rw [UInt8.le_iff_toNat_le, UInt8.toNat_and]
  exact Nat.le_trans Nat.and_le_left (UInt8.le_iff_toNat_le.mp h)

/-- Whatever flags a mouse has, when a button goes up they stay only while another is down. -/
theorem sound_lift {m : Mouse} (hmask : m.mask ≤ 7) (hpressed : m.mask ≠ 0 → m.pressPoint.isSome)
    (b : Button) : (lift m b).Sound := by
  have hle := lift_le hmask b
  simp only [lift]
  split
  · next hz =>
    rw [hz] at hle ⊢
    exact ⟨hle, nofun, nofun, fun hn => absurd rfl hn⟩
  · next hz =>
    refine ⟨hle, fun _ => hz, fun _ => hz, fun _ => hpressed ?_⟩
    intro hm
    rw [hm] at hz
    exact hz (UInt8.zero_and ..)

theorem sound_initial : Mouse.Sound {} := ⟨by decide, nofun, nofun, fun hn => absurd rfl hn⟩

theorem sound_point {m : Mouse} (h : m.Sound) (p : Option Point) :
    ({ m with pointer := p } : Mouse).Sound :=
  ⟨h.mask, h.releasing, h.keyWithButton, h.pressed⟩

theorem sound_act (h : s.mouse.Sound) (a : Act) : (s.act screen a).1.mouse.Sound := by
  cases a with
  | apply i =>
    show (s.apply screen.size i).1.mouse.Sound
    rwa [mouse_apply]
  | key c =>
    simp only [act, keyTyped]
    split
    · exact h
    · next hm => exact ⟨h.mask, h.releasing, fun _ => hm, h.pressed⟩
  | press b p =>
    simp only [act, mousePressed]
    split
    · exact sound_point h _
    · have hne := or_bit_ne_zero s.mouse.mask b
      exact ⟨or_bit_le h.mask b, fun _ => hne, fun _ => hne, fun _ => rfl⟩
  | release b =>
    let m : Mouse :=
      { s.mouse with
        releasing := true
        keyWithButton := s.mouse.keyWithButton && !s.reportsRelease }
    exact sound_lift (m := m) h.mask h.pressed b
  | move p => exact sound_point h _
  | exit => exact sound_point h _
  | resetEmulation | clear => exact sound_initial

theorem sound_run (h : s.mouse.Sound) (steps : List (Screen × Act)) :
    (s.run steps).mouse.Sound :=
  List.foldlRecOn (motive := fun s : Session => s.mouse.Sound) steps _ h fun _ h step _ =>
    sound_act step.1 h step.2

end Mouse

/-- A gesture is under way: every button was up at first, and at no moment since. -/
structure Underway (s : Session) (steps : List (Screen × Act)) : Prop where
  start : s.mouse.mask = 0
  down : ∀ seen, seen ≠ [] → seen <+: steps → (s.run seen).mouse.mask ≠ 0

/-- What the mouse knows of a gesture. After a release it need not know more than that. -/
structure Tracks (steps : List (Screen × Act)) (m : Mouse) : Prop where
  releasing : m.releasing = released steps
  mask : released steps = false → m.mask = buttons steps
  point : released steps = false → ∀ p, lastPress? steps = some p → m.pressPoint = some p
  typed : released steps = false → m.keyWithButton = typed steps

/-- What the first release of a gesture reports: the buttons that were pressed and the place of the
last press, in another form if a key was typed meanwhile. -/
def gestureBytes (typed : Bool) (mask : UInt8) (place : List UInt8) : List UInt8 :=
  let report (code : UInt8) := [28, 34] ++ place ++ [code]
  if mask = 1 then report 4
  else if mask = 5 then report 27
  else if mask = 6 then if typed then [28, 35, 64] ++ place else [23]
  else if typed then []
  else if mask = 2 then report 24
  else if mask = 3 then report 2
  else if mask = 4 then report 1
  else []

section Gesture

variable {s : Session} {steps : List (Screen × Act)} {step : Screen × Act}

theorem run_concat (s : Session) (steps : List (Screen × Act)) (step : Screen × Act) :
    s.run (steps ++ [step]) = ((s.run steps).act step.1 step.2).1 := List.foldl_append

theorem Underway.of_concat (h : s.Underway (steps ++ [step])) : s.Underway steps :=
  ⟨h.start, fun seen hne hp => h.down seen hne (hp.trans (List.prefix_append ..))⟩

theorem Tracks.start (h : s.mouse.Sound) (h0 : s.mouse.mask = 0) : Tracks [] s.mouse where
  releasing := Bool.eq_false_iff.mpr fun hr => h.releasing hr h0
  mask _ := h0
  point _ _ hp := nomatch hp
  typed _ := Bool.eq_false_iff.mpr fun hk => h.keyWithButton hk h0

theorem Tracks.of_released {m : Mouse} (hs : released steps = true) (hm : m.releasing = true) :
    Tracks steps m where
  releasing := hm.trans hs.symm
  mask hf := nomatch hs.symm.trans hf
  point hf := nomatch hs.symm.trans hf
  typed hf := nomatch hs.symm.trans hf

theorem Tracks.idle {m n : Mouse} (h : Tracks steps m) {a : Act} (screen : Screen)
    (ha : a.buttons = 0 ∧ a.pressPoint? = none ∧ a.isRelease = false ∧ a.isKey = false)
    (hn : ∃ pointer, n = { m with pointer }) : Tracks (steps ++ [(screen, a)]) n := by
  obtain ⟨hb, hp, hr, hk⟩ := ha
  obtain ⟨pointer, rfl⟩ := hn
  refine ⟨?_, ?_, ?_, ?_⟩
  · rw [released_concat, hr, Bool.or_false]
    exact h.releasing
  · rw [released_concat, hr, Bool.or_false, buttons_concat, hb, UInt8.or_zero]
    exact h.mask
  · rw [released_concat, hr, Bool.or_false, lastPress?_concat, hp]
    exact h.point
  · rw [released_concat, hr, Bool.or_false, typed_concat, hk, Bool.or_false]
    exact h.typed

theorem Tracks.key (h : Tracks steps s.mouse) (screen : Screen) (c : Char)
    (hd : s.mouse.mask ≠ 0) :
    Tracks (steps ++ [(screen, .key c)]) (s.keyTyped screen c).1.mouse := by
  rw [keyTyped, if_neg hd]
  refine ⟨?_, ?_, ?_, ?_⟩
  · rw [released_concat]
    exact h.releasing.trans (Bool.or_false _).symm
  · rw [released_concat, buttons_concat]
    exact fun hr => (h.mask ((Bool.or_false _).symm.trans hr)).trans UInt8.or_zero.symm
  · rw [released_concat, lastPress?_concat]
    exact fun hr => h.point ((Bool.or_false _).symm.trans hr)
  · rw [typed_concat]
    exact fun _ => (Bool.or_true _).symm

theorem Tracks.press (h : Tracks steps s.mouse) (screen : Screen) (b : Button) (p : Point) :
    Tracks (steps ++ [(screen, .press b p)]) (s.mousePressed b p).mouse := by
  have hr : released (steps ++ [(screen, .press b p)]) = released steps := by
    rw [released_concat]
    exact Bool.or_false _
  unfold mousePressed
  split
  · next hs => exact .of_released (hr.trans (h.releasing.symm.trans hs)) hs
  · next hs =>
    have hn : released steps = false := h.releasing.symm.trans (Bool.eq_false_iff.mpr hs)
    refine ⟨h.releasing.trans hr.symm, fun _ => ?_, fun _ q hq => ?_, fun _ => ?_⟩
    · rw [buttons_concat, ← h.mask hn]
      rfl
    · rw [lastPress?_concat] at hq
      exact hq
    · rw [typed_concat]
      exact (h.typed hn).trans (Bool.or_false _).symm

theorem Tracks.release (steps : List (Screen × Act)) (screen : Screen) (b : Button)
    (hd : (s.mouseReleased screen b).1.mouse.mask ≠ 0) :
    Tracks (steps ++ [(screen, .release b)]) (s.mouseReleased screen b).1.mouse := by
  refine .of_released ?_ ?_
  · rw [released_concat]
    exact Bool.or_true _
  · simp only [mouseReleased, lift] at hd ⊢
    split
    · next hz =>
      rw [if_pos hz] at hd
      exact absurd hz hd
    · rfl

theorem Tracks.act (h : Tracks steps s.mouse) (step : Screen × Act)
    (hd : (s.act step.1 step.2).1.mouse.mask ≠ 0) :
    Tracks (steps ++ [step]) (s.act step.1 step.2).1.mouse := by
  obtain ⟨screen, a⟩ := step
  cases a with
  | apply i => exact h.idle screen ⟨rfl, rfl, rfl, rfl⟩ ⟨s.mouse.pointer, s.mouse_apply ..⟩
  | key c =>
    refine h.key screen c fun hz => hd ?_
    show (s.keyTyped screen c).1.mouse.mask = 0
    rw [keyTyped, if_pos hz]
    exact hz
  | press b p => exact h.press screen b p
  | release b => exact .release steps screen b hd
  | move p => exact h.idle screen ⟨rfl, rfl, rfl, rfl⟩ ⟨some p, rfl⟩
  | exit => exact h.idle screen ⟨rfl, rfl, rfl, rfl⟩ ⟨none, rfl⟩
  | resetEmulation | clear => exact absurd rfl hd

theorem Underway.tracks (h : s.Underway steps) (hs : s.mouse.Sound) :
    Tracks steps (s.run steps).mouse := by
  induction steps using List.reverseRecOn with
  | nil => exact .start hs h.start
  | append_singleton steps step ih =>
    have hd := h.down (steps ++ [step]) (by simp) (List.prefix_refl _)
    rw [run_concat] at hd ⊢
    exact (ih h.of_concat).act step hd

theorem mask_cases {mask : UInt8} (h : mask ≤ 7) :
    mask = 0 ∨ mask = 1 ∨ mask = 2 ∨ mask = 3 ∨ mask = 4 ∨ mask = 5 ∨ mask = 6 ∨ mask = 7 := by
  simp only [← UInt8.toNat_inj, UInt8.le_iff_toNat_le, UInt8.reduceToNat] at *
  omega

/-- What is reported is what the table says. All buttons together have no code, and are silent. -/
theorem gestureReport_eq {mask : UInt8} (hm : mask ≤ 7) (screen : Screen) (p : Point) :
    (if gestureCode mask ≠ 0 then s.gestureReport screen mask p else []) =
      gestureBytes s.mouse.keyWithButton mask (s.pointReport screen p) := by
  rcases mask_cases hm with rfl | rfl | rfl | rfl | rfl | rfl | rfl | rfl <;>
    cases hk : s.mouse.keyWithButton <;>
    simp [gestureCode, gestureCodes, gestureReport, gestureBytes, hk, reportLead, buttonReport,
      chordReport, chordBase]

theorem mouseReleased_of_tracks (h : Tracks steps s.mouse) (hs : s.mouse.Sound) (screen : Screen)
    (b : Button) :
    (s.mouseReleased screen b).2 =
      if s.coordinates ∧ released steps = false then
        ((lastPress? steps).map fun p =>
          gestureBytes (typed steps) (buttons steps) (s.pointReport screen p)).getD []
      else [] := by
  have hbytes : (s.mouseReleased screen b).2 = if s.reportsRelease then
      s.gestureReport screen s.mouse.mask (s.mouse.pressPoint.getD {}) else [] := rfl
  have hreports : s.reportsRelease = true ↔
      (s.coordinates = true ∧ released steps = false) ∧ gestureCode s.mouse.mask ≠ 0 := by
    simp [reportsRelease, h.releasing, and_comm]
  rw [hbytes]
  by_cases hc : s.coordinates = true ∧ released steps = false
  · rw [if_pos hc, if_congr (hreports.trans (and_iff_right hc)) rfl rfl, gestureReport_eq hs.mask,
      h.mask hc.2, h.typed hc.2]
    cases hp : lastPress? steps with
    | none =>
      rw [buttons_of_lastPress?_none hp]
      cases typed steps <;> rfl
    | some p =>
      rw [h.point hc.2 p hp]
      rfl
  · rw [if_neg hc, if_neg fun hr => hc (hreports.mp hr).1]

end Gesture

/-- In every state the flags of the mouse stand only while a button is down, and a button is down
only where a press has been. In a gesture only the first release reports, and only where reports are
asked for. It reports all buttons pressed since the gesture began and the place of the last press.
After it presses move the pointer, and do nothing else. -/
theorem run_gesture (size : Size) (escapeWide : Bool) (before : List (Screen × Act)) :
    let s := (initial size escapeWide).run before
    s.mouse.Sound ∧ ∀ during, s.Underway during →
      let t := s.run during
      (∀ screen b, (t.mouseReleased screen b).2 =
        if t.coordinates ∧ released during = false then
          ((lastPress? during).map fun p =>
            gestureBytes (typed during) (buttons during) (t.pointReport screen p)).getD []
        else []) ∧
      (released during = true → ∀ b p,
        t.mousePressed b p = { t with mouse := { t.mouse with pointer := some p } }) := by
  intro s
  have hs : s.mouse.Sound := sound_run sound_initial before
  refine ⟨hs, ?_⟩
  intro during hu t
  have ht : Tracks during t.mouse := hu.tracks hs
  have hsound : t.mouse.Sound := sound_run hs during
  refine ⟨mouseReleased_of_tracks ht hsound, ?_⟩
  intro hr b p
  rw [mousePressed, if_pos (ht.releasing.trans hr)]

def surface : Screen := .blank { columns := 4, rows := 3 }

/-- Two buttons, a key and a move, on a terminal that is asked for reports. -/
def chorded : List (Screen × Act) :=
  [(surface, .press .left ⟨3, 1⟩), (surface, .press .middle ⟨2, 0⟩), (surface, .key 'x'),
    (surface, .move ⟨0, 0⟩)]

/-- The same with the release of a button that was not down, and a press that comes too late. -/
def late : List (Screen × Act) :=
  chorded ++ [(surface, .release .right), (surface, .press .right ⟨1, 1⟩)]

theorem run_gesture_chorded :
    let s := (initial surface.size false).run [(surface, .apply .coordinatesOn)]
    (s.Underway chorded ∧ ((s.run chorded).mouseReleased surface .right).2 =
      [28, 35, 64] ++ [34, 34]) ∧
      s.Underway late ∧ ((s.run late).mouseReleased surface .left).2 = [] := by
  intro s
  have hlate : s.Underway late := by
    have hdown : ∀ seen ∈ late.inits, seen ≠ [] → (s.run seen).mouse.mask ≠ 0 := by decide
    exact ⟨rfl, fun seen hne hp => hdown seen ((List.mem_inits _ _).mpr hp) hne⟩
  have hchorded : s.Underway chorded :=
    ⟨rfl, fun seen hne hp => hlate.down seen hne (hp.trans (List.prefix_append ..))⟩
  obtain ⟨-, hg⟩ := run_gesture surface.size false [(surface, .apply .coordinatesOn)]
  exact ⟨⟨hchorded, ((hg chorded hchorded).1 surface .right).trans (by decide)⟩,
    hlate, ((hg late hlate).1 surface .left).trans (by decide)⟩

end Session

end VatTerminal
