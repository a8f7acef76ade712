import VatTerminal.Telnet.Half

/-! # What two halves say to each other

A half of an option and its counterpart at the other end tell each other on or
off. From rest a dialogue can only take a few shapes: at most one request of
each half is under way, and no half is told what it did not ask for while it
waits. Every shape is kept by a request and by the arrival of what is next.
-/

namespace VatTerminal.Telnet

def Verdict.words : Verdict → List Bool
  | .ignore => []
  | .agree => [true]
  | .refuse => [false]

def Verdict.tell (on : Bool) : Verdict := if on then .agree else .refuse

@[simp] theorem Verdict.words_ignore : Verdict.ignore.words = [] := rfl

@[simp] theorem Verdict.words_tell (on : Bool) : (Verdict.tell on).words = [on] := by
  cases on <;> rfl

namespace Half

/-- At rest, on or off. -/
def settled (on : Bool) : Half := ⟨if on then .yes else .no, false⟩

/-- With a request under way, and perhaps one against it queued. -/
def wanting (on queued : Bool) : Half := ⟨if on then .wantYes else .wantNo, queued⟩

theorem request_settled_self (on : Bool) : (settled on).request on = (settled on, .ignore) := by
  cases on <;> rfl

theorem request_settled_ne {on enable : Bool} (h : enable ≠ on) :
    (settled on).request enable = (wanting enable false, .tell enable) := by
  cases on <;> cases enable <;> first | rfl | exact absurd rfl h

theorem request_wanting (on queued enable : Bool) :
    (wanting on queued).request enable = (wanting on (enable != on), .ignore) := by
  cases on <;> cases enable <;> rfl

theorem receive_settled_not (on : Bool) :
    (settled !on).receive on true = (settled on, .tell on) := by
  cases on <;> rfl

theorem receive_wanting_self (on : Bool) :
    (wanting on false).receive on true = (settled on, .ignore) := by
  cases on <;> rfl

theorem receive_wanting_queued (on : Bool) :
    (wanting on true).receive on true = (wanting (!on) false, .tell !on) := by
  cases on <;> rfl

theorem receive_wanting_refused (queued : Bool) :
    (wanting true queued).receive false true = (settled false, .ignore) := by
  cases queued <;> rfl

end Half

open Half

/-- The shapes of a dialogue that the half `p` leads, with what is on its way to `q` and to `p`.
The bits say whether `p` and `q` are supported. -/
inductive Talk (s t : Bool) : Half → Half → List Bool → List Bool → Prop where
  | rest (on : Bool) : (on = true → s = true ∧ t = true) →
      Talk s t (settled on) (settled on) [] []
  | asked (on queued : Bool) : s = true → (on = false → t = true) →
      Talk s t (wanting on queued) (settled !on) [on] []
  | answered (on queued : Bool) : s = true → t = true →
      Talk s t (wanting on queued) (settled on) [] [on]
  | refused (queued : Bool) : s = true → t = false →
      Talk s t (wanting true queued) (settled false) [] [false]
  | overtaken (on queued queued' : Bool) : s = true → t = true →
      Talk s t (wanting on queued) (wanting (!on) queued') [] [on, !on]
  | crossed (on queued queued' : Bool) : s = true → t = true →
      Talk s t (wanting on queued) (wanting on queued') [on] [on]

def Dialogue (s t : Bool) (p q : Half) (toQ toP : List Bool) : Prop :=
  Talk s t p q toQ toP ∨ Talk t s q p toP toQ

namespace Talk

variable {s t : Bool} {p q : Half} {toQ toP : List Bool}

theorem request_left (h : Talk s t p q toQ toP) {on : Bool} (hon : on = true → s = true) :
    Dialogue s t (p.request on).1 q (toQ ++ (p.request on).2.words) toP := by
  cases h with
  | rest on' hst =>
    by_cases he : on = on'
    · subst he
      rw [request_settled_self]
      exact .inl (.rest on hst)
    · rw [request_settled_ne he, Verdict.words_tell]
      obtain rfl : on' = !on := by cases on <;> cases on' <;> simp_all
      have hs : s = true := by cases on <;> simp_all
      exact .inl (.asked on false hs fun h => (hst (by simp [h])).2)
  | asked on' queued hs ht =>
    rw [request_wanting]
    exact .inl (.asked on' _ hs ht)
  | answered on' queued hs ht =>
    rw [request_wanting]
    exact .inl (.answered on' _ hs ht)
  | refused queued hs ht =>
    rw [request_wanting]
    exact .inl (.refused _ hs ht)
  | overtaken on' queued queued' hs ht =>
    rw [request_wanting]
    exact .inl (.overtaken on' _ _ hs ht)
  | crossed on' queued queued' hs ht =>
    rw [request_wanting]
    exact .inl (.crossed on' _ _ hs ht)

theorem request_right (h : Talk s t p q toQ toP) {on : Bool} (hon : on = true → t = true) :
    Dialogue s t p (q.request on).1 toQ (toP ++ (q.request on).2.words) := by
  cases h with
  | rest on' hst => exact (request_left (.rest on' fun h => (hst h).symm) hon).symm
  | asked on' queued hs ht =>
    by_cases he : on = on'
    · subst he
      have ht' : t = true := by cases on <;> simp_all
      rw [request_settled_ne (by simp), Verdict.words_tell]
      exact .inl (.crossed on queued false hs ht')
    · obtain rfl : on = !on' := by cases on <;> cases on' <;> simp_all
      rw [request_settled_self]
      exact .inl (.asked on' queued hs ht)
  | answered on' queued hs ht =>
    by_cases he : on = on'
    · subst he
      rw [request_settled_self]
      exact .inl (.answered on queued hs ht)
    · rw [request_settled_ne he, Verdict.words_tell]
      obtain rfl : on = !on' := by cases on <;> cases on' <;> simp_all
      exact .inl (.overtaken on' queued false hs ht)
  | refused queued hs ht =>
    obtain rfl : on = false := by cases on <;> simp_all
    rw [request_settled_self]
    exact .inl (.refused queued hs ht)
  | overtaken on' queued queued' hs ht =>
    rw [request_wanting]
    exact .inl (.overtaken on' _ _ hs ht)
  | crossed on' queued queued' hs ht =>
    rw [request_wanting]
    exact .inl (.crossed on' _ _ hs ht)

theorem receive_right {on : Bool} (h : Talk s t p q (on :: toQ) toP) :
    Dialogue s t p (q.receive on t).1 toQ (toP ++ (q.receive on t).2.words) := by
  cases h with
  | asked on queued hs ht =>
    by_cases ht' : t = true
    · subst ht'
      rw [receive_settled_not, Verdict.words_tell]
      exact .inl (.answered on queued hs rfl)
    · obtain rfl : t = false := by simpa using ht'
      obtain rfl : on = true := by cases on <;> simp_all
      exact .inl (.refused queued hs rfl)
  | crossed on queued queued' hs ht =>
    subst ht
    cases queued' with
    | false =>
      rw [receive_wanting_self]
      exact .inl (.answered on queued hs rfl)
    | true =>
      rw [receive_wanting_queued, Verdict.words_tell]
      exact .inl (.overtaken on queued false hs rfl)

theorem receive_left {on : Bool} (h : Talk s t p q toQ (on :: toP)) :
    Dialogue s t (p.receive on s).1 q (toQ ++ (p.receive on s).2.words) toP := by
  cases h with
  | answered on queued hs ht =>
    subst hs
    cases queued with
    | false =>
      rw [receive_wanting_self]
      exact .inl (.rest on fun _ => ⟨rfl, ht⟩)
    | true =>
      rw [receive_wanting_queued, Verdict.words_tell]
      have := Talk.asked (t := t) (!on) false (s := true) rfl fun _ => ht
      rw [Bool.not_not] at this
      exact .inl this
  | refused queued hs ht =>
    subst hs
    rw [receive_wanting_refused]
    exact .inl (.rest false (by simp))
  | overtaken on queued queued' hs ht =>
    subst hs
    cases queued with
    | false =>
      rw [receive_wanting_self]
      have := Talk.asked (!on) queued' ht (t := true) fun _ => rfl
      rw [Bool.not_not] at this
      exact .inr this
    | true =>
      rw [receive_wanting_queued, Verdict.words_tell]
      exact .inl (.crossed (!on) false queued' rfl ht)
  | crossed on queued queued' hs ht =>
    exact (receive_right (.crossed on queued' queued ht hs)).symm

end Talk

namespace Dialogue

variable {s t : Bool} {p q : Half} {toQ toP : List Bool}

theorem symm (h : Dialogue s t p q toQ toP) : Dialogue t s q p toP toQ := Or.symm h

theorem start (s t : Bool) : Dialogue s t {} {} [] [] := .inl (.rest false (by simp))

theorem request (h : Dialogue s t p q toQ toP) (enable : Bool) :
    Dialogue s t (p.request (enable && s)).1 q
      (toQ ++ (p.request (enable && s)).2.words) toP := by
  have hs : (enable && s) = true → s = true := by simp
  rcases h with h | h
  · exact h.request_left hs
  · exact (h.request_right hs).symm

theorem receive {on : Bool} (h : Dialogue s t p q (on :: toQ) toP) :
    Dialogue s t p (q.receive on t).1 toQ (toP ++ (q.receive on t).2.words) := by
  rcases h with h | h
  · exact h.receive_right
  · exact h.receive_left.symm

/-- With nothing under way both halves are at rest, and equal. -/
theorem quiet (h : Dialogue s t p q [] []) : ∃ on, p = settled on ∧ q = settled on := by
  rcases h with h | h
  · cases h with | rest on => exact ⟨on, rfl, rfl⟩
  · cases h with | rest on => exact ⟨on, rfl, rfl⟩

end Dialogue

end VatTerminal.Telnet
