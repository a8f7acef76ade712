import VatTerminal.Telnet.Endpoint

/-! # The halves of an endpoint

Every code has a half for each side; one that is not registered counts as off
and unsupported. A request and a received verb both move a single half, and
say what its verdict calls for.
-/

namespace VatTerminal.Telnet

section ReviseFirst

variable {α : Type} {p q : α → Bool} {f : α → α} {l : List α}

theorem map_reviseFirst {β : Type} {g : α → β} (hf : ∀ x, g (f x) = g x) :
    (reviseFirst p f l).map g = l.map g := by
  induction l with
  | nil => rfl
  | cons x xs ih =>
    rw [reviseFirst]
    split
    · simp [hf]
    · simp [ih]

theorem find?_reviseFirst (hf : ∀ x, p (f x) = p x) :
    (reviseFirst p f l).find? p = (l.find? p).map f := by
  induction l with
  | nil => rfl
  | cons x xs ih =>
    rw [reviseFirst]
    by_cases hx : p x = true
    · simp [hx, hf]
    · simp [hx, ih]

theorem find?_reviseFirst_of_disjoint (hf : ∀ x, q (f x) = q x)
    (hpq : ∀ x, p x = true → q x = false) : (reviseFirst p f l).find? q = l.find? q := by
  induction l with
  | nil => rfl
  | cons x xs ih =>
    rw [reviseFirst]
    by_cases hx : p x = true
    · simp [hx, hf, hpq x hx]
    · simp only [hx, Bool.false_eq_true, if_false, List.find?_cons, ih]

/-- What another test finds is what it found before, or the revision of it. -/
theorem find?_reviseFirst_or (hf : ∀ x, q (f x) = q x) :
    (reviseFirst p f l).find? q = l.find? q ∨
      (reviseFirst p f l).find? q = (l.find? q).map f := by
  induction l with
  | nil => exact .inl rfl
  | cons x xs ih =>
    rw [reviseFirst]
    split
    · cases hx : q x with
      | true => exact .inr (by simp [hf, hx])
      | false => exact .inl (by simp [hf, hx])
    · cases hx : q x with
      | true => exact .inl (by simp [hx])
      | false => simpa [hx] using ih

end ReviseFirst

namespace OptionSet

def codes (s : OptionSet) : List UInt8 := s.entries.map (·.code)

def Distinct (s : OptionSet) : Prop := s.codes.Nodup

/-- The half of a code on one side. One that is not registered is off. -/
def half (s : OptionSet) (code : UInt8) (side : Side) : Half :=
  ((s.get? code).map (·.half side)).getD {}

def supports (s : OptionSet) (code : UInt8) (side : Side) : Bool :=
  ((s.get? code).map (·.support side)).getD false

/-- Only the half of one code on one side has changed. -/
structure Moved (s t : OptionSet) (code : UInt8) (side : Side) (h : Half) : Prop where
  codes_eq : t.codes = s.codes
  supports_eq : ∀ c d, t.supports c d = s.supports c d
  half_eq : ∀ c d, t.half c d = if c = code ∧ d = side then h else s.half c d

variable {s t : OptionSet} {code : UInt8} {side : Side} {o : TelnetOption}

theorem half_of_get? (h : s.get? code = some o) : s.half code side = o.half side := by
  simp [half, h]

theorem supports_of_get? (h : s.get? code = some o) : s.supports code side = o.support side := by
  simp [supports, h]

theorem get?_of_mem (hs : s.Distinct) (ho : o ∈ s.entries) : s.get? o.code = some o := by
  obtain ⟨l⟩ := s
  simp only [Distinct, codes, get?] at *
  induction l with
  | nil => simp at ho
  | cons x xs ih =>
    rw [List.map_cons, List.nodup_cons] at hs
    rcases List.mem_cons.mp ho with rfl | ho
    · simp
    · have hx : x.code ≠ o.code := fun he => hs.1 (he ▸ List.mem_map_of_mem ho)
      simp [hx, ih hs.2 ho]

theorem reviseFirst_eq_of_find? {p : TelnetOption → Bool} {f : TelnetOption → TelnetOption}
    (hs : s.Distinct) (h : s.entries.find? p = some o) :
    reviseFirst p f s.entries = reviseFirst (fun x => x.code == o.code) f s.entries := by
  obtain ⟨l⟩ := s
  simp only [Distinct, codes] at *
  induction l with
  | nil => simp at h
  | cons x xs ih =>
    rw [List.map_cons, List.nodup_cons] at hs
    rw [List.find?_cons] at h
    cases hx : p x with
    | true =>
      obtain rfl : x = o := by simpa [hx] using h
      simp [reviseFirst, hx]
    | false =>
      rw [hx] at h
      have ho := List.mem_of_find?_eq_some h
      have hc : x.code ≠ o.code := fun he => hs.1 (he ▸ List.mem_map_of_mem ho)
      simp [reviseFirst, hx, hc, ih hs.2 h]

theorem moved_reviseFirst {f : TelnetOption → TelnetOption} {g : TelnetOption → Half}
    (hf : ∀ x, f x = x.setHalf side (g x)) (ho : s.get? code = some o) :
    Moved s ⟨reviseFirst (fun x => x.code == code) f s.entries⟩ code side (g o) := by
  have hcode (x : TelnetOption) : (f x).code = x.code := by simp [hf]
  have hget (c : UInt8) : get? ⟨reviseFirst (fun x => x.code == code) f s.entries⟩ c =
      if c = code then some (f o) else s.get? c := by
    split
    · next hc =>
      subst hc
      rw [get?, find?_reviseFirst (by simp [hcode])]
      exact congrArg (Option.map f) ho
    · next hc =>
      apply find?_reviseFirst_of_disjoint (by simp [hcode])
      intro x hx
      have hx : x.code = code := by simpa using hx
      simpa [hx] using Ne.symm hc
  refine ⟨map_reviseFirst hcode, ?_, ?_⟩
  · intro c d
    by_cases hc : c = code
    · subst hc
      rw [supports, hget, if_pos rfl, supports_of_get? ho]
      simp [hf]
    · rw [supports, hget, if_neg hc, supports]
  · intro c d
    by_cases hc : c = code
    · subst hc
      rw [half, hget, if_pos rfl, half_of_get? ho]
      by_cases hd : d = side
      · simp [hd, hf]
      · simp [hd, hf, TelnetOption.half_setHalf_of_ne _ _ _ _ (Ne.symm hd)]
    · rw [half, hget, if_neg hc, half, if_neg (by simp [hc])]

theorem moved_refl (hh : s.half code side = {}) : Moved s s code side {} := by
  refine ⟨rfl, fun _ _ => rfl, ?_⟩
  intro c d
  split
  · next h => rw [h.1, h.2, hh]
  · rfl

theorem request_ok {name : String} {enable : Bool} {answer : Option Verb} (hs : s.Distinct)
    (h : s.request name side enable = .ok (t, code, answer)) :
    Moved s t code side ((s.half code side).request (enable && s.supports code side)).1 ∧
      answer = ((s.half code side).request (enable && s.supports code side)).2.verb? side := by
  rw [request] at h
  split at h
  · simp at h
  · next o ho =>
    simp only [Except.ok.injEq, Prod.mk.injEq] at h
    obtain ⟨rfl, rfl, rfl⟩ := h
    have hget := get?_of_mem hs (List.mem_of_find?_eq_some ho)
    rw [half_of_get? hget, supports_of_get? hget, reviseFirst_eq_of_find? hs ho]
    exact ⟨moved_reviseFirst
      (g := fun x => ((x.half side).request (enable && x.support side)).1) (fun _ => rfl) hget, rfl⟩

theorem receive?_some {v : Verb} {answer : Option Verb}
    (h : s.receive? v code = some (t, o, answer)) :
    Moved s t code v.side
        ((s.half code v.side).receive v.enables (s.supports code v.side)).1 ∧
      answer =
        ((s.half code v.side).receive v.enables (s.supports code v.side)).2.verb? v.side := by
  obtain ⟨x, hget, hx⟩ := Option.map_eq_some_iff.mp h
  simp only [Prod.mk.injEq] at hx
  obtain ⟨rfl, hx⟩ := hx
  rw [half_of_get? hget, supports_of_get? hget]
  refine ⟨moved_reviseFirst (g := fun x => ((x.half v.side).receive v.enables (x.support v.side)).1)
    (fun _ => rfl) hget, ?_⟩
  rw [TelnetOption.receive, Prod.mk.injEq] at hx
  exact hx.2.symm

theorem get?_of_receive?_none {v : Verb} (h : s.receive? v code = none) : s.get? code = none :=
  Option.map_eq_none_iff.mp h

end OptionSet

end VatTerminal.Telnet
