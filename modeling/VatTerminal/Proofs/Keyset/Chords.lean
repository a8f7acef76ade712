import Mathlib.Data.List.Induction
import VatTerminal.Proofs.Keyset.Masks

/-! # Chords and the history of the keys

What the two masks hold is read off the records alone: the keys that were last
said to be down, and those that went down since all were up. No record makes a
chord fail, and a character is typed when the last key goes up.
-/

namespace VatTerminal.Keyset

/-- The keys that are down after records: the last of them to speak of the key says so. -/
def held (rs : List Record) (key : Nat) : Bool :=
  (rs.filterMap (·.says? key)).getLast? == some true

def Idle (rs : List Record) : Prop := ∀ key, held rs key = false

/-- The key has gone down since all keys were up: from then on some key always was down. -/
def PressedSince (rs : List Record) (key : Nat) : Prop :=
  ∃ before r after, rs = before ++ r :: after ∧ r.says? key = some true ∧
    ∀ seen, seen <+: after → ¬ Idle (before ++ r :: seen)

section History

variable {rs : List Record} {r : Record} {key : Nat}

theorem held_concat : held (rs ++ [r]) key = (r.says? key).getD (held rs key) := by
  unfold held
  cases h : r.says? key with
  | none => simp [h]
  | some down => cases down <;> simp [h]

theorem not_idle_of_held (h : held rs key = true) : ¬ Idle rs := by
  intro hi
  rw [hi key] at h
  cases h

theorem PressedSince.not_idle (h : PressedSince rs key) : ¬ Idle rs := by
  obtain ⟨before, r, after, rfl, -, hs⟩ := h
  exact hs after (List.prefix_refl after)

theorem pressedSince_concat :
    PressedSince (rs ++ [r]) key ↔
      ¬ Idle (rs ++ [r]) ∧ (PressedSince rs key ∨ r.says? key = some true) := by
  constructor
  · intro h
    refine ⟨h.not_idle, ?_⟩
    obtain ⟨before, p, after, he, hp, hs⟩ := h
    rcases List.eq_nil_or_concat after with rfl | ⟨init, last, rfl⟩
    · obtain ⟨-, hr⟩ := List.append_inj' he rfl
      obtain rfl : r = p := List.head_eq_of_cons_eq hr
      exact .inr hp
    · rw [List.concat_eq_append, ← List.cons_append, ← List.append_assoc] at he
      obtain ⟨hrs, -⟩ := List.append_inj' he rfl
      refine .inl ⟨before, p, init, hrs, hp, ?_⟩
      intro seen hseen
      exact hs seen (hseen.trans (List.prefix_concat last init))
  · rintro ⟨hidle, ⟨before, p, after, rfl, hp, hs⟩ | hr⟩
    · refine ⟨before, p, after ++ [r], by simp, hp, ?_⟩
      intro seen hseen
      rcases List.prefix_concat_iff.mp hseen with rfl | hseen
      · simpa using hidle
      · exact hs seen hseen
    · refine ⟨rs, r, [], rfl, hr, ?_⟩
      intro seen hseen
      rw [List.prefix_nil.mp hseen]
      exact hidle

theorem pressedSince_of_held (h : held rs key = true) : PressedSince rs key := by
  induction rs using List.reverseRecOn with
  | nil => cases h
  | append_singleton rs r ih =>
    refine pressedSince_concat.mpr ⟨not_idle_of_held h, ?_⟩
    rw [held_concat] at h
    cases hr : r.says? key with
    | none =>
      rw [hr] at h
      exact .inl (ih h)
    | some down =>
      rw [hr] at h
      exact .inr (congrArg some h)

end History

namespace Chord

variable {rs : List Record} {c : Chord} {r : Record} {k : UInt8} {key : Nat}

section Process

theorem process_of_init (h : r.isInit = true) : c.process r = (c, .ok []) := if_pos h

theorem process_of_down (hi : r.isInit = false) (hd : isDown r = true) :
    c.process r = (c.press (keyOf r), .ok [.pressed r.time (keyOf r)]) := by
  simp only [process, hi, hd, Bool.false_eq_true, if_false, if_true]

theorem process_of_up (hi : r.isInit = false) (hd : isDown r = false) :
    c.process r = ((c.release (keyOf r)).1, (c.release (keyOf r)).2.map fun typed =>
      .released r.time (keyOf r) :: (typed.map fun ch => .typed r.time ch).toList) := by
  simp only [process, hi, hd, Bool.false_eq_true, if_false]

theorem release_eq (hp : c.pressed.toNat < 32) :
    c.release k =
      if c.current &&& ~~~keyBit k = 0 then
        ({}, .ok (if c.pressed = 0 then none else some (chordChar c.pressed)))
      else ({ c with current := c.current &&& ~~~keyBit k }, .ok none) := by
  have hrange : ¬ 31 < c.pressed := by
    rw [UInt8.lt_iff_toNat_lt]
    exact Nat.not_lt.mpr (Nat.le_of_lt_succ hp)
  unfold release
  by_cases hc : c.current &&& ~~~keyBit k = 0
  · by_cases h : c.pressed = 0 <;> simp [hc, h, hrange]
  · simp [hc]

theorem current_press_ne_zero (hk : k.toNat < 8) : (c.press k).current ≠ 0 := by
  intro hz
  have h := eq_zero_iff.mp hz k.toNat
  simp [press, holds_press hk] at h

end Process

def after (rs : List Record) : Chord := rs.foldl (fun c r => (c.process r).1) {}

theorem after_concat (rs : List Record) (r : Record) :
    after (rs ++ [r]) = ((after rs).process r).1 := by
  rw [after, List.foldl_append]
  rfl

/-- The masks hold what the records say. -/
structure Follows (rs : List Record) (c : Chord) : Prop where
  current : ∀ key, holds c.current key = held rs key
  pressed : ∀ key, holds c.pressed key = true ↔ PressedSince rs key
  five : ∀ key, holds c.pressed key = true → key < 5

namespace Follows

theorem start : Follows [] {} where
  current _ := holds_zero _
  pressed key := by
    constructor
    · intro h
      cases (holds_zero key).symm.trans h
    · rintro ⟨before, r, after, he, -⟩
      exact absurd he (by simp)
  five key h := by cases (holds_zero key).symm.trans h

theorem current_eq_zero_iff (h : Follows rs c) : c.current = 0 ↔ Idle rs := by
  rw [eq_zero_iff]
  exact forall_congr' fun key => by rw [h.current]

theorem subset (h : Follows rs c) (hk : holds c.current key = true) :
    holds c.pressed key = true :=
  (h.pressed key).mpr (pressedSince_of_held ((h.current key).symm.trans hk))

theorem pressed_eq_zero_iff (h : Follows rs c) : c.pressed = 0 ↔ c.current = 0 := by
  constructor
  · intro hp
    refine eq_zero_iff.mpr fun key => Bool.eq_false_iff.mpr fun hk => ?_
    exact Bool.eq_false_iff.mp (eq_zero_iff.mp hp key) (h.subset hk)
  · intro hc
    refine eq_zero_iff.mpr fun key => Bool.eq_false_iff.mpr fun hk => ?_
    exact ((h.pressed key).mp hk).not_idle (h.current_eq_zero_iff.mp hc)

theorem toNat_pressed_lt (h : Follows rs c) : c.pressed.toNat < 32 := toNat_lt_of_holds h.five

/-- It is enough that a record changes the masks as it changes what has been said. -/
theorem concat (h : Follows rs c) {d : Chord}
    (hc : ∀ key, holds d.current key = (r.says? key).getD (holds c.current key))
    (hp : ∀ key, holds d.pressed key = true ↔
      d.current ≠ 0 ∧ (holds c.pressed key = true ∨ r.says? key = some true))
    (h5 : ∀ key, r.says? key = some true → key < 5) : Follows (rs ++ [r]) d := by
  have hcurrent (key : Nat) : holds d.current key = held (rs ++ [r]) key := by
    rw [hc, h.current, held_concat]
  have hidle : d.current = 0 ↔ Idle (rs ++ [r]) := by
    rw [eq_zero_iff]
    exact forall_congr' fun key => by rw [hcurrent]
  refine ⟨hcurrent, ?_, ?_⟩
  · intro key
    rw [hp, pressedSince_concat, h.pressed, ne_eq, hidle]
  · intro key hk
    rcases ((hp key).mp hk).2 with hk | hk
    · exact h.five key hk
    · exact h5 key hk

theorem press (h : Follows rs c) (h5 : k.toNat < 5)
    (hs : ∀ key, r.says? key = if k.toNat = key then some true else none) :
    Follows (rs ++ [r]) (c.press k) := by
  have h8 : k.toNat < 8 := Nat.lt_trans h5 (by decide)
  have hreport (key : Nat) : r.says? key = some true ↔ k.toNat = key := by simp [hs]
  refine h.concat ?_ ?_ fun key hk => (hreport key).mp hk ▸ h5
  · intro key
    rw [Chord.press, holds_press h8, hs]
    by_cases hk : k.toNat = key <;> simp [hk]
  · intro key
    rw [hreport, and_iff_right (current_press_ne_zero h8), Chord.press, holds_press h8,
      Bool.or_eq_true, decide_eq_true_iff]

/-- A key that goes up leaves the keys held now. With the last of them both masks are cleared. -/
theorem release (h : Follows rs c) (h5 : k.toNat < 5)
    (hs : ∀ key, r.says? key = if k.toNat = key then some false else none) :
    Follows (rs ++ [r]) (c.release k).1 := by
  have h8 : k.toNat < 8 := Nat.lt_trans h5 (by decide)
  have hreport (key : Nat) : r.says? key ≠ some true := by
    rw [hs]
    split <;> simp
  have hlift (key : Nat) : holds (c.current &&& ~~~keyBit k) key =
      (r.says? key).getD (holds c.current key) := by
    rw [holds_lift h8, hs]
    by_cases hk : k.toNat = key <;> simp [hk]
  rw [release_eq h.toNat_pressed_lt]
  split
  · next hz =>
    rw [hz] at hlift
    refine h.concat hlift ?_ fun key hk => absurd hk (hreport key)
    simp
  · next hz =>
    refine h.concat hlift ?_ fun key hk => absurd hk (hreport key)
    intro key
    rw [or_iff_left (hreport key)]
    exact (and_iff_right hz).symm

theorem process (h : Follows rs c) (hr : r.Read) : Follows (rs ++ [r]) (c.process r).1 := by
  cases hi : r.isInit with
  | true =>
    rw [process_of_init hi]
    have hs := Record.says?_of_init hi
    refine h.concat (fun key => by rw [hs]; rfl) ?_ fun key hk => by cases (hs key).symm.trans hk
    intro key
    rw [hs, or_iff_left (Option.some_ne_none true).symm]
    exact (and_iff_right_of_imp fun hk hz => ((h.pressed key).mp hk).not_idle
      (h.current_eq_zero_iff.mp hz)).symm
  | false =>
    have h5 := keyOf_lt hr hi
    have hs (key : Nat) : r.says? key =
        if (keyOf r).toNat = key then some (isDown r) else none := says?_of_live hr hi
    cases hd : isDown r with
    | true =>
      rw [hd] at hs
      rw [process_of_down hi hd]
      exact h.press h5 hs
    | false =>
      rw [hd] at hs
      rw [process_of_up hi hd]
      exact h.release h5 hs

theorem after {rs : List Record} (hrs : ∀ r ∈ rs, r.Read) : Follows rs (after rs) := by
  induction rs using List.reverseRecOn with
  | nil => exact start
  | append_singleton rs r ih =>
    obtain ⟨hrs, hr⟩ := List.forall_mem_append.mp hrs
    rw [after_concat]
    exact (ih hrs).process (hr r (List.mem_singleton_self r))

theorem typed (h : Follows rs c) (hr : r.Read) :
    ∃ es, (c.process r).2 = .ok es ∧ es.filterMap Event.typed? =
      if c.current ≠ 0 ∧ (c.process r).1.current = 0 then [chordChar c.pressed] else [] := by
  cases hi : r.isInit with
  | true =>
    rw [process_of_init hi, if_neg fun hc => hc.1 hc.2]
    exact ⟨[], rfl, rfl⟩
  | false =>
    cases hd : isDown r with
    | true =>
      have hne : (c.press (keyOf r)).current ≠ 0 :=
        current_press_ne_zero (Nat.lt_trans (keyOf_lt hr hi) (by decide))
      rw [process_of_down hi hd, if_neg fun hc => hne hc.2]
      exact ⟨_, rfl, rfl⟩
    | false =>
      rw [process_of_up hi hd, release_eq h.toNat_pressed_lt]
      split
      · by_cases hc : c.current = 0
        · rw [if_pos (h.pressed_eq_zero_iff.mpr hc), if_neg fun hn => hn.1 hc]
          exact ⟨_, rfl, rfl⟩
        · rw [if_neg fun hp => hc (h.pressed_eq_zero_iff.mp hp), if_pos ⟨hc, rfl⟩]
          exact ⟨_, rfl, rfl⟩
      · next hz =>
        rw [if_neg fun hn => hz hn.2]
        exact ⟨_, rfl, rfl⟩

theorem chordChar_eq (h : Follows rs c) (hc : c.current ≠ 0) :
    lowerCase[c.pressed.toNat - 1]? = some (chordChar c.pressed) ∧
      chordChar c.pressed ≠ unmapped := by
  have hp : c.pressed.toNat ≠ 0 := fun hz =>
    hc (h.pressed_eq_zero_iff.mp (UInt8.toNat_inj.mp hz))
  have hlt : c.pressed.toNat - 1 < lowerCase.length := by
    have h32 := h.toNat_pressed_lt
    show c.pressed.toNat - 1 < 31
    omega
  have hget : lowerCase[c.pressed.toNat - 1]? = some (chordChar c.pressed) := by
    have hrange : 1 ≤ c.pressed.toNat ∧ c.pressed.toNat ≤ 31 :=
      ⟨Nat.pos_of_ne_zero hp, Nat.le_of_lt_succ h.toNat_pressed_lt⟩
    rw [chordChar, lookup, if_pos hrange, List.getD_eq_getElem?_getD,
      List.getElem?_eq_getElem hlt, Option.getD_some]
  have htable : unmapped ∉ lowerCase := by decide
  exact ⟨hget, fun hu => htable (hu ▸ List.mem_of_getElem? hget)⟩

end Follows

/-- After any records the keys held now are those whose last stroke went down, and the keys pressed
are those that went down since all were up. No further record fails, and the one with which the
last key goes up types the character of the keys pressed, as no other record types any. -/
theorem process_history {rs : List Record} (hrs : ∀ r ∈ rs, r.Read) :
    let c := after rs
    (∀ key, holds c.current key = held rs key) ∧
      (∀ key, holds c.pressed key = true ↔ PressedSince rs key) ∧
      (∀ key, holds c.current key = true → holds c.pressed key = true) ∧
      (c.pressed = 0 ↔ c.current = 0) ∧
      ∀ r : Record, r.Read → ∃ es, c.process r = (after (rs ++ [r]), .ok es) ∧
        if c.current ≠ 0 ∧ (after (rs ++ [r])).current = 0 then
          ∃ ch, es.filterMap Event.typed? = [ch] ∧ lowerCase[c.pressed.toNat - 1]? = some ch ∧
            ch ≠ unmapped
        else es.filterMap Event.typed? = [] := by
  intro c
  have h : Follows rs c := .after hrs
  refine ⟨h.current, h.pressed, fun key => h.subset, h.pressed_eq_zero_iff, ?_⟩
  intro r hr
  obtain ⟨es, hes, ht⟩ := h.typed hr
  rw [after_concat]
  refine ⟨es, Prod.ext rfl hes, ?_⟩
  split
  · next hc =>
    rw [if_pos hc] at ht
    exact ⟨_, ht, h.chordChar_eq hc.1⟩
  · next hc => rwa [if_neg hc] at ht

def button (value : Int16) (number : UInt8) : Record := ⟨0, value, Record.buttonKind, number⟩

def axis (value : Int16) : Record := ⟨0, value, Record.axisKind, 0⟩

/-- A report of the initial state, a stray release, a key that is lifted before the others, and an
axis that trembles while it is held. -/
def trembling : List Record :=
  [⟨0, 1, 129, 9⟩, button 0 3, button 1 0, button 1 2, button 0 0, axis (-9000), axis (-12999),
    button 0 2]

theorem process_history_trembling :
    let c := after trembling
    (∀ r ∈ trembling, r.Read) ∧ (axis (-13000)).Read ∧
      (held trembling 4 = true ∧ holds c.current 4 = true) ∧
      (PressedSince trembling 0 ∧ ¬ PressedSince trembling 3 ∧ holds c.current 0 = false) ∧
      ∃ es, (c.process (axis (-13000))).2 = .ok es ∧ es.filterMap Event.typed? = ['u'] := by
  intro c
  have hread : ∀ r ∈ trembling, r.Read := by
    simp only [trembling, List.forall_mem_cons]
    refine ⟨⟨[0, 0, 0, 0, 1, 0, 129, 9], rfl, rfl⟩, ⟨[0, 0, 0, 0, 0, 0, 1, 3], rfl, rfl⟩,
      ⟨[0, 0, 0, 0, 1, 0, 1, 0], rfl, rfl⟩, ⟨[0, 0, 0, 0, 1, 0, 1, 2], rfl, rfl⟩,
      ⟨[0, 0, 0, 0, 0, 0, 1, 0], rfl, rfl⟩, ⟨[0, 0, 0, 0, 216, 220, 2, 0], rfl, rfl⟩,
      ⟨[0, 0, 0, 0, 57, 205, 2, 0], rfl, rfl⟩, ⟨[0, 0, 0, 0, 0, 0, 1, 2], rfl, rfl⟩, ?_⟩
    exact fun _ hr => nomatch hr
  have hlast : (axis (-13000)).Read := ⟨[0, 0, 0, 0, 56, 205, 2, 0], rfl, rfl⟩
  obtain ⟨hcurrent, hpressed, -, -, hnext⟩ := process_history hread
  obtain ⟨es, hes, ht⟩ := hnext _ hlast
  rw [if_pos (by decide)] at ht
  obtain ⟨ch, hch, hget, -⟩ := ht
  have hu : ch = 'u' := Option.some.inj (hget.symm.trans (by decide))
  have h4 : held trembling 4 = true := by decide
  refine ⟨hread, hlast, ⟨h4, (hcurrent 4).trans h4⟩, ⟨(hpressed 0).mp (by decide), ?_,
    (hcurrent 0).trans (by decide)⟩, es, congrArg Prod.snd hes, hu ▸ hch⟩
  exact fun h => absurd ((hpressed 3).mpr h) (by decide)

end Chord

end VatTerminal.Keyset
