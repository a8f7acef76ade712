import Mathlib.Data.List.Destutter
import VatTerminal.Proofs.Keyset.Chords

/-! # Records said again

A record that is said again at once changes neither mask: it strikes the same
key the same way, and the character of a chord has been typed before. Dropping
such records therefore changes nothing but how often the stroke is told.
-/

namespace VatTerminal.Keyset

/-- Whether an event tells of a key and not of a character. -/
def Event.isStroke : Event → Bool
  | pressed _ _ | released _ _ => true
  | typed _ _ => false

def strokes (es : List Event) : List Event := es.filter Event.isStroke

def characters (es : List Event) : List Event := es.filter fun e => !e.isStroke

theorem strokes_strokes (es : List Event) : strokes (strokes es) = strokes es := by
  simp [strokes]

theorem characters_strokes (es : List Event) : characters (strokes es) = [] := by
  simp [characters, strokes, List.filter_filter]

theorem characters_append (es fs : List Event) :
    characters (es ++ fs) = characters es ++ characters fs := List.filter_append ..

structure Report where
  record : Record
  events : List Event
  deriving DecidableEq

namespace Report

def told (reports : List Report) : List Event := reports.flatMap (·.events)

/-- A record said again at once is told by the strokes of the report before it. -/
def Echoing (reports : List Report) : Prop :=
  reports.IsChain fun p q => p.record = q.record → q.events = strokes p.events

/-- The reports without those of a record said again. -/
def distinct (reports : List Report) : List Report :=
  reports.destutter fun p q => p.record ≠ q.record

variable {p q : Report} {reports : List Report}

@[simp] theorem told_cons : told (p :: reports) = p.events ++ told reports := rfl

theorem Echoing.skip (h : Echoing (p :: q :: reports)) (he : p.record = q.record) :
    Echoing (p :: reports) := by
  obtain ⟨hpq, hq⟩ := List.isChain_cons_cons.mp h
  cases reports with
  | nil => exact List.IsChain.singleton p
  | cons r reports =>
    obtain ⟨hqr, hr⟩ := List.isChain_cons_cons.mp hq
    refine List.isChain_cons_cons.mpr ⟨fun hpr => ?_, hr⟩
    rw [hqr (he.symm.trans hpr), hpq he, strokes_strokes]

theorem characters_distinct (h : Echoing reports) :
    characters (told (distinct reports)) = characters (told reports) := by
  unfold distinct
  cases reports with
  | nil => rfl
  | cons p reports =>
    rw [List.destutter_cons']
    induction reports generalizing p with
    | nil => rfl
    | cons q reports ih =>
      by_cases he : p.record = q.record
      · have hq : characters q.events = [] := by
          rw [(List.isChain_cons_cons.mp h).1 he, characters_strokes]
        rw [List.destutter'_cons_neg _ (not_not.mpr he), ih p (h.skip he)]
        simp only [told_cons, characters_append, hq, List.nil_append]
      · have ih := ih q (List.isChain_cons_cons.mp h).2
        rw [List.destutter'_cons_pos _ he]
        simp only [told_cons, characters_append] at ih ⊢
        rw [ih]

end Report

namespace Chord

variable {c d : Chord} {r : Record} {rs history : List Record} {k : UInt8} {es : List Event}
  {reports : List Report}

theorem press_press (c : Chord) (k : UInt8) : (c.press k).press k = c.press k := by
  simp only [press, UInt8.or_assoc, UInt8.or_self]

theorem release_release (c : Chord) (k : UInt8) :
    (c.release k).1.release k = ((c.release k).1, .ok none) := by
  have hlift : c.current &&& ~~~keyBit k &&& ~~~keyBit k = c.current &&& ~~~keyBit k := by
    rw [UInt8.and_assoc, UInt8.and_self]
  by_cases hc : c.current &&& ~~~keyBit k = 0
  · have hreset : (c.release k).1 = {} := by
      simp only [release, hc, ne_eq, not_true_eq_false, if_false]
      split
      · rfl
      · split <;> rfl
    rw [hreset]
    simp [release]
  · have hheld : (c.release k).1 = { c with current := c.current &&& ~~~keyBit k } := by
      simp [release, hc]
    rw [hheld]
    simp [release, hlift, hc]

theorem process_process (h : (c.process r).2 = .ok es) :
    (c.process r).1.process r = ((c.process r).1, .ok (strokes es)) := by
  cases hi : r.isInit with
  | true =>
    rw [process_of_init (c := c) hi] at h ⊢
    cases h
    exact process_of_init hi
  | false =>
    cases hd : isDown r with
    | true =>
      rw [process_of_down hi hd] at h ⊢
      cases h
      rw [process_of_down hi hd, press_press]
      rfl
    | false =>
      rw [process_of_up hi hd] at h ⊢
      cases ht : (c.release (keyOf r)).2 with
      | error e =>
        rw [ht] at h
        cases h
      | ok typed =>
        rw [ht] at h
        cases h
        rw [process_of_up hi hd, release_release]
        cases typed <;> rfl

/-- Take in records one after the other, with what comes of each. One that fails ends it. -/
def processAll (c : Chord) : List Record → Except Error (Chord × List Report)
  | [] => .ok (c, [])
  | r :: rs =>
    match c.process r with
    | (_, .error e) => .error e
    | (c, .ok events) =>
      (c.processAll rs).map fun (d, reports) => (d, { record := r, events } :: reports)

theorem processAll_cons (h : (c.process r).2 = .ok es) :
    c.processAll (r :: rs) = ((c.process r).1.processAll rs).map fun (d, reports) =>
      (d, { record := r, events := es } :: reports) := by
  have hp : c.process r = ((c.process r).1, .ok es) := Prod.ext rfl h
  rw [processAll, hp]

theorem processAll_cons_iff :
    c.processAll (r :: rs) = .ok (d, reports) ↔
      ∃ es more, (c.process r).2 = .ok es ∧ (c.process r).1.processAll rs = .ok (d, more) ∧
        reports = { record := r, events := es } :: more := by
  constructor
  · intro h
    cases hp : (c.process r).2 with
    | error e =>
      rw [processAll, show c.process r = (_, .error e) from Prod.ext rfl hp] at h
      cases h
    | ok es =>
      rw [processAll_cons hp] at h
      cases hm : (c.process r).1.processAll rs with
      | error e =>
        rw [hm] at h
        cases h
      | ok p =>
        rw [hm] at h
        cases h
        exact ⟨es, p.2, rfl, rfl, rfl⟩
  · rintro ⟨es, more, hes, hmore, rfl⟩
    rw [processAll_cons hes, hmore]
    rfl

theorem echoing_processAll (h : c.processAll rs = .ok (d, reports)) : Report.Echoing reports := by
  induction rs generalizing c reports with
  | nil =>
    cases h
    exact List.IsChain.nil
  | cons r rs ih =>
    obtain ⟨es, more, hes, hmore, rfl⟩ := processAll_cons_iff.mp h
    have hm := ih hmore
    cases rs with
    | nil =>
      cases hmore
      exact List.IsChain.singleton _
    | cons q rs =>
      obtain ⟨fs, last, hfs, -, rfl⟩ := processAll_cons_iff.mp hmore
      refine List.isChain_cons_cons.mpr ⟨?_, hm⟩
      rintro (rfl : r = q)
      rw [process_process hes] at hfs
      exact (Except.ok.inj hfs).symm

theorem records_processAll (h : c.processAll rs = .ok (d, reports)) :
    reports.map (·.record) = rs := by
  induction rs generalizing c reports with
  | nil =>
    cases h
    rfl
  | cons r rs ih =>
    obtain ⟨es, more, -, hmore, rfl⟩ := processAll_cons_iff.mp h
    exact congrArg (r :: ·) (ih hmore)

/-- Without the records said again the same chord comes of it, and the other reports stay. -/
theorem processAll_destutter (h : c.processAll rs = .ok (d, reports)) :
    c.processAll (rs.destutter (· ≠ ·)) = .ok (d, Report.distinct reports) := by
  cases rs with
  | nil =>
    cases h
    rfl
  | cons r rs =>
    rw [List.destutter_cons']
    induction rs generalizing c r reports with
    | nil =>
      obtain ⟨es, more, hes, hmore, rfl⟩ := processAll_cons_iff.mp h
      cases hmore
      exact h
    | cons q rs ih =>
      obtain ⟨es, more, hes, hmore, rfl⟩ := processAll_cons_iff.mp h
      obtain ⟨fs, last, hfs, hlast, rfl⟩ := processAll_cons_iff.mp hmore
      by_cases he : r = q
      · subst he
        rw [process_process hes] at hlast
        have hskip := ih r (processAll_cons_iff.mpr ⟨es, last, hes, hlast, rfl⟩)
        rw [List.destutter'_cons_neg _ (not_not.mpr rfl), hskip]
        simp [Report.distinct, List.destutter_cons']
      · rw [List.destutter'_cons_pos _ he]
        refine processAll_cons_iff.mpr ⟨es, _, hes, ih q hmore, ?_⟩
        simp [Report.distinct, List.destutter_cons', he]

theorem Follows.exists_processAll (h : Follows history c) (hr : ∀ r ∈ rs, r.Read) :
    ∃ reports, c.processAll rs = .ok (rs.foldl (fun c r => (c.process r).1) c, reports) := by
  induction rs generalizing c history with
  | nil => exact ⟨[], rfl⟩
  | cons r rs ih =>
    obtain ⟨hread, hreads⟩ := List.forall_mem_cons.mp hr
    obtain ⟨es, hes, -⟩ := h.typed hread
    obtain ⟨reports, hreports⟩ := ih (h.process hread) hreads
    exact ⟨_, processAll_cons_iff.mpr ⟨es, reports, hes, hreports, rfl⟩⟩

/-- Dropping records that are said again at once never changes what is typed. Whatever records came
before, all are taken in either way, the chord comes out the same and so do the characters with
their times. The reports that are lost are those of the records dropped, and each of them tells only
strokes that the report before it has told. -/
theorem processAll_distinct {history rs : List Record} (hh : ∀ r ∈ history, r.Read)
    (hr : ∀ r ∈ rs, r.Read) :
    ∃ reports, (after history).processAll rs = .ok (after (history ++ rs), reports) ∧
      (after history).processAll (rs.destutter (· ≠ ·)) =
        .ok (after (history ++ rs), Report.distinct reports) ∧
      reports.map (·.record) = rs ∧ Report.Echoing reports ∧
      characters (Report.told (Report.distinct reports)) = characters (Report.told reports) := by
  obtain ⟨reports, h⟩ := (Follows.after hh).exists_processAll hr
  rw [after, ← List.foldl_append] at h
  have he := echoing_processAll h
  exact ⟨reports, h, processAll_destutter h, records_processAll h, he,
    Report.characters_distinct he⟩

def begun : List Record := [button 1 0, axis (-9000)]

/-- A press, both releases and a report of the initial state, each said again. -/
def stuttering : List Record :=
  [axis (-9000), axis (-9000), button 0 0, button 0 0, axis (-13000), axis (-13000),
    axis (-13000), ⟨0, 1, 129, 9⟩, ⟨0, 1, 129, 9⟩, axis (-13000)]

theorem processAll_distinct_stuttering :
    (∀ r ∈ begun, r.Read) ∧ (∀ r ∈ stuttering, r.Read) ∧
      ∃ reports, (after begun).processAll stuttering =
          .ok (after (begun ++ stuttering), reports) ∧
        (after begun).processAll (stuttering.destutter (· ≠ ·)) =
          .ok (after (begun ++ stuttering), Report.distinct reports) ∧
        Report.told (Report.distinct reports) =
          [.pressed 0 4, .released 0 0, .released 0 4, .typed 0 'q', .released 0 4] ∧
        characters (Report.told reports) = [.typed 0 'q'] := by
  have hpress : (axis (-9000)).Read := ⟨[0, 0, 0, 0, 216, 220, 2, 0], rfl, rfl⟩
  have hrelease : (axis (-13000)).Read := ⟨[0, 0, 0, 0, 56, 205, 2, 0], rfl, rfl⟩
  have hlift : (button 0 0).Read := ⟨[0, 0, 0, 0, 0, 0, 1, 0], rfl, rfl⟩
  have hinit : Record.Read ⟨0, 1, 129, 9⟩ := ⟨[0, 0, 0, 0, 1, 0, 129, 9], rfl, rfl⟩
  have hbegun : ∀ r ∈ begun, r.Read := by
    simp only [begun, List.forall_mem_cons]
    exact ⟨⟨[0, 0, 0, 0, 1, 0, 1, 0], rfl, rfl⟩, hpress, List.forall_mem_nil _⟩
  have hstuttering : ∀ r ∈ stuttering, r.Read := by
    simp only [stuttering, List.forall_mem_cons]
    exact ⟨hpress, hpress, hlift, hlift, hrelease, hrelease, hrelease, hinit, hinit, hrelease,
      List.forall_mem_nil _⟩
  obtain ⟨reports, hall, hdistinct, -, -, hc⟩ := processAll_distinct hbegun hstuttering
  have hkept : some (Report.told (Report.distinct reports)) =
      some [.pressed 0 4, .released 0 0, .released 0 4, .typed 0 'q', .released 0 4] := by
    have he := congrArg (fun p => p.toOption.map fun p => Report.told p.2) hdistinct
    exact he.symm.trans (by decide)
  refine ⟨hbegun, hstuttering, reports, hall, hdistinct, Option.some.inj hkept, ?_⟩
  rw [← hc, Option.some.inj hkept]
  rfl

end Chord

end VatTerminal.Keyset
