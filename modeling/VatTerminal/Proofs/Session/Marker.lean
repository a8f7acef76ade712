import Mathlib.Data.List.Induction
import VatTerminal.Proofs.Screen.Marks
import VatTerminal.Proofs.Session.Bounds
import VatTerminal.Proofs.Session.Mouse
import VatTerminal.Session.Console

/-! # The mark of the bug

A bug is a place in the session and a mark on the screen. The two agree as long
as nothing happens to the cell of a bug that is set, and no other bug is set
meanwhile. A mark goes with its cell where a row is blanked or moved, and the
place does not, so that a bug which is then taken away leaves a mark behind.
-/

namespace VatTerminal

namespace Terminal

/-- The marks of the screen are the bug, or none where no bug is set. -/
def Marked (t : Terminal) : Prop := ∀ p, t.screen.marked p = true ↔ t.session.bug = some p

/-- The instruction sets a bug over one that is set, or has the cell of that one blanked or given
the contents of another. -/
def Disturbs (t : Terminal) (i : Instruction) : Prop :=
  ∃ p, t.session.bug = some p ∧
    ((∃ x y, i = .setBug x y) ∨
      ∃ u, (t.session.apply t.screen.size i).2.update = some u ∧ u.source? p ≠ some p)

structure Sound (size : Size) (t : Terminal) : Prop where
  positive : size.Positive
  size_eq : t.screen.size = size
  filled : t.screen.Filled
  within : t.session.Within size

section Step

variable {t : Terminal} {size : Size} {i : Instruction}

theorem Sound.start (hp : size.Positive) (escapeWide : Bool) :
    (start (.blank size) escapeWide).Sound size where
  positive := hp
  size_eq := rfl
  filled := Screen.blank_filled size
  within := Session.initial_within hp escapeWide

theorem Sound.apply_eq (h : t.Sound size) (i : Instruction) :
    (t.apply i).1 =
      { session := (t.session.apply size i).1
        screen := (t.session.apply size i).2.update.elim t.screen t.screen.draw } := by
  obtain ⟨hp, rfl, -, hw⟩ := h
  have hfits := fun u => hw.fits_apply hp i (u := u)
  rw [apply]
  cases hu : (t.session.apply t.screen.size i).2.update with
  | none => simp [hu, update]
  | some u => simp [hu, update, Screen.perform_of_fits (hfits u hu)]

theorem Sound.apply (h : t.Sound size) (i : Instruction) : (t.apply i).1.Sound size := by
  have hw := h.within.apply h.positive i
  have hfits := fun u => h.within.fits_apply h.positive i (u := u)
  rw [h.apply_eq]
  cases hu : (t.session.apply size i).2.update with
  | none => exact ⟨h.positive, h.size_eq, h.filled, hw⟩
  | some u =>
    refine ⟨h.positive, (Screen.size_draw u).trans h.size_eq, h.filled.draw ?_, hw⟩
    rw [h.size_eq]
    exact hfits u hu

theorem Sound.interpret (h : t.Sound size) (is : List Instruction) : (t.interpret is).Sound size :=
  List.foldlRecOn is _ h fun _ h i _ => h.apply i

theorem bug_apply (s : Session) (size : Size) (hset : ∀ x y, i ≠ .setBug x y) (hpop : i ≠ .popBug) :
    (s.apply size i).1.bug = s.bug ∧
      ∀ u, (s.apply size i).2.update = some u → ∀ row col, u ≠ .highlight row col := by
  cases i with
  | setBug x y => exact absurd rfl (hset x y)
  | popBug => exact absurd rfl hpop
  | print b =>
    simp only [Session.apply]
    split <;> simp +contextual [Session.setColumn]
  | lineFeed =>
    simp only [Session.apply, Session.lineDown]
    split
    · simp [Session.advance, Session.setColumn]
    · split <;> simp +contextual
  | carriageReturn =>
    simp only [Session.apply]
    split <;> simp [Session.advance, Session.setColumn]
  | resumeWindow =>
    simp only [Session.apply]
    split <;> simp
  | writeBlanks count =>
    simp only [Session.apply]
    split <;> simp +contextual
  | scroll left right top bottom lines =>
    simp only [Session.apply, Session.scrollUpdate]
    split
    · simp +contextual
    · split <;> simp +contextual
  | _ => simp +contextual [Session.apply, Session.setColumn]

theorem Sound.marked_highlight (h : t.Sound size) {q : Place} (hq : q.Inside size) (p : Place) :
    (t.screen.draw (.highlight q.row q.col)).marked p =
      if p = q then !t.screen.marked p else t.screen.marked p :=
  Screen.marked_highlight h.filled (by rwa [h.size_eq])

/-- Setting a bug toggles a cell, and no cell but the one of the bug of before is marked. -/
theorem marked_setBug (h : t.Sound size) (hm : t.Marked) (x y : Int) :
    (t.apply (.setBug x y)).1.Marked ↔ t.session.bug = none := by
  rw [h.apply_eq]
  have hafter := h.marked_highlight (Session.placeOf_inside h.positive x y)
  generalize hq : Session.placeOf size x y = q at hafter
  suffices (∀ p, (t.screen.draw (.highlight q.row q.col)).marked p = true ↔ some q = some p) ↔
      t.session.bug = none by simpa [Marked, Session.apply, hq] using this
  simp only [hafter]
  cases hbug : t.session.bug with
  | none =>
    have hclear (p : Place) : t.screen.marked p = false := by simpa [hbug] using hm p
    simp [hclear, eq_comm]
  | some b =>
    have hold (p : Place) : t.screen.marked p = true ↔ b = p := by simpa [hbug] using hm p
    refine iff_of_false (fun hall => ?_) (Option.some_ne_none b)
    by_cases hb : b = q
    · simpa [(hold q).mpr hb] using hall q
    · simpa [hb, (hold b).mpr rfl, Ne.symm hb] using hall b

theorem marked_popBug (h : t.Sound size) (hm : t.Marked) : (t.apply .popBug).1.Marked := by
  rw [h.apply_eq]
  intro p
  cases hbug : t.session.bug with
  | none => simpa [Session.apply, hbug] using hm p
  | some b =>
    have hold : t.screen.marked p = true ↔ b = p := by simpa [hbug] using hm p
    have hafter := h.marked_highlight (h.within.bug b hbug) p
    suffices (t.screen.draw (.highlight b.row b.col)).marked p = false by
      simpa [Session.apply, hbug] using this
    rw [hafter]
    split
    case isTrue hp => simp [hold.mpr hp.symm]
    case isFalse hp => exact Bool.eq_false_iff.mpr fun hmark => hp (hold.mp hmark).symm

theorem marked_draw_iff (h : t.Sound size) (hm : t.Marked) {u : Screen.Update}
    (hu : u.Fits size) (hn : ∀ row col, u ≠ .highlight row col) :
    (∀ p, (t.screen.draw u).marked p = true ↔ t.session.bug = some p) ↔
      ∀ p, t.session.bug = some p → u.source? p = some p := by
  rw [← h.size_eq] at hu
  cases hbug : t.session.bug with
  | none =>
    have hclear (p : Place) : t.screen.marked p = false := by simpa [hbug] using hm p
    simp [Screen.unmarked_draw h.filled hu hn hclear]
  | some b =>
    have hold (p : Place) : t.screen.marked p = true ↔ b = p := by rw [hm p, hbug, Option.some_inj]
    have hb : b.Inside t.screen.size := h.size_eq ▸ h.within.bug b hbug
    simp only [Option.some_inj, forall_eq']
    exact Screen.sole_mark_draw_iff h.filled hu hn hb hold

theorem marked_apply_iff (h : t.Sound size) (hm : t.Marked) (i : Instruction) :
    (t.apply i).1.Marked ↔ ¬ t.Disturbs i := by
  by_cases hset : ∃ x y, i = .setBug x y
  · obtain ⟨x, y, rfl⟩ := hset
    have hdisturbs : t.Disturbs (.setBug x y) ↔ ∃ p, t.session.bug = some p := by
      simp [Disturbs]
    rw [marked_setBug h hm, hdisturbs, Option.eq_none_iff_forall_ne_some, not_exists]
  by_cases hpop : i = .popBug
  · subst hpop
    -- What it asks for, if anything, is a mark, and a mark leaves each cell where it is.
    have hdisturbs : ¬ t.Disturbs .popBug := by
      simp +contextual [Disturbs, Session.apply, Screen.Update.source?]
    exact iff_of_true (marked_popBug h hm) hdisturbs
  have hset' : ∀ x y, i ≠ .setBug x y := fun x y hi => hset ⟨x, y, hi⟩
  obtain ⟨hbug, hn⟩ := bug_apply t.session size hset' hpop
  have hdisturbs : t.Disturbs i ↔ ∃ p, t.session.bug = some p ∧
      ∃ u, (t.session.apply size i).2.update = some u ∧ u.source? p ≠ some p := by
    simp [Disturbs, hset', h.size_eq]
  rw [hdisturbs, h.apply_eq, Marked, hbug]
  cases hu : (t.session.apply size i).2.update with
  | none =>
    have hm' : ∀ p, t.screen.marked p = true ↔ t.session.bug = some p := hm
    simpa using hm'
  | some u =>
    simpa using marked_draw_iff h hm (h.within.fits_apply h.positive i hu) (hn u hu)

end Step

section Run

variable {size : Size}

theorem marked_start (escapeWide : Bool) : (start (.blank size) escapeWide).Marked := fun p => by
  simp [start, Session.initial, Screen.marked_blank]

theorem unmarked_popBug {t : Terminal} (h : t.Sound size) (hm : t.Marked) (p : Place) :
    (t.apply .popBug).1.screen.marked p = false := by
  have hbug : (t.apply .popBug).1.session.bug = none := by
    rw [h.apply_eq]
    rfl
  have hafter := marked_popBug h hm p
  simpa [hbug] using hafter

/-- The marks of the screen are the bug all along exactly if no instruction disturbs it, and taking
it away then leaves none. -/
theorem interpret_marked_iff (hp : size.Positive) (escapeWide : Bool) (is : List Instruction) :
    let t := fun js => (start (.blank size) escapeWide).interpret js
    ((∀ js, js <+: is → (t js).Marked) ↔ ∀ js i, js ++ [i] <+: is → ¬ (t js).Disturbs i) ∧
      ∀ js, (t js).Marked → ∀ p, ((t js).apply .popBug).1.screen.marked p = false := by
  intro t
  have hsound (js : List Instruction) : (t js).Sound size :=
    (Sound.start hp escapeWide).interpret js
  have hnext (js : List Instruction) (i : Instruction) : t (js ++ [i]) = ((t js).apply i).1 :=
    interpret_append _ js [i]
  refine ⟨⟨fun hall js i hpre => ?_, fun hall js => ?_⟩, fun js => unmarked_popBug (hsound js)⟩
  · have hbefore := hall js ((List.prefix_append js [i]).trans hpre)
    have hafter := hall (js ++ [i]) hpre
    rw [hnext] at hafter
    exact (marked_apply_iff (hsound js) hbefore i).mp hafter
  · induction js using List.reverseRecOn with
    | nil => exact fun _ => marked_start escapeWide
    | append_singleton js i ih =>
      intro hpre
      rw [hnext]
      have hbefore := ih ((List.prefix_append js [i]).trans hpre)
      exact (marked_apply_iff (hsound js) hbefore i).mpr (hall js i hpre)

theorem interpret_marked_small :
    let size : Size := { columns := 3, rows := 2 }
    let t := fun js => (start (.blank size) true).interpret js
    size.Positive ∧ (t [.setBug 1 1]).Disturbs .clear ∧
      ¬ (∀ js, js <+: [.setBug 1 1, .clear] → (t js).Marked) ∧
      ∀ p, ((t [.setBug 1 1]).apply .popBug).1.screen.marked p = false := by
  intro size t
  have hp : size.Positive := ⟨by decide, by decide⟩
  have hdisturbs : (t [.setBug 1 1]).Disturbs .clear :=
    ⟨⟨1, 0⟩, by decide +kernel, .inr ⟨.clear, rfl, nofun⟩⟩
  obtain ⟨hiff, -⟩ := interpret_marked_iff hp true [.setBug 1 1, .clear]
  obtain ⟨hset, hpop⟩ := interpret_marked_iff hp true [.setBug 1 1]
  refine ⟨hp, hdisturbs, fun hall => hiff.mp hall [.setBug 1 1] .clear (List.prefix_refl _) hdisturbs,
    hpop _ (hset.mpr ?_ _ (List.prefix_refl _))⟩
  intro js i hpre
  have hjs : js = [] := List.eq_nil_of_length_eq_zero (by simpa using hpre.length_le)
  subst hjs
  rintro ⟨p, hbug, -⟩
  cases hbug

/-- A bug is set, the screen cleared, and the bug taken away: no bug is set, and a cell is
marked. -/
theorem cleared_bug_leaves_mark :
    let c : Console := { terminal := start (.blank { columns := 3, rows := 2 }) true }
    let t := (c.feed [27, 38, 33, 33, 27, 40, 27, 39]).1.terminal
    t = c.terminal.interpret [.setBug 1 1, .clear, .popBug] ∧
      t.session.bug = none ∧ t.screen.marked ⟨1, 0⟩ = true ∧ ¬ t.Marked := by
  intro c t
  have hbug : t.session.bug = none := by decide +kernel
  have hmark : t.screen.marked ⟨1, 0⟩ = true := by decide +kernel
  refine ⟨by decide +kernel, hbug, hmark, fun hall => ?_⟩
  simpa [hbug] using (hall ⟨1, 0⟩).mp hmark

end Run

end Terminal

end VatTerminal
