import VatTerminal.Proofs.Negotiation.Lookup
import VatTerminal.Proofs.Negotiation.Dialogue

/-! # Verbs on the wire

What an endpoint puts among its replies is a run of verbs of three bytes each.
An endpoint that reads such a run, cut anywhere, acts on one verb after the
other and on nothing else.
-/

namespace VatTerminal.Telnet

namespace Side

def other : Side → Side
  | localSide => remoteSide
  | remoteSide => localSide

@[simp] theorem other_other (s : Side) : s.other.other = s := by cases s <;> rfl

theorem other_eq_iff {s t : Side} : s.other = t ↔ s = t.other := by
  cases s <;> cases t <;> simp [other]

end Side

abbrev Message := Verb × UInt8

def encodeMessages (ms : List Message) : List UInt8 :=
  ms.flatMap fun m => (Frame.verb m.1 m.2).encode

@[simp] theorem encodeMessages_nil : encodeMessages [] = [] := rfl

@[simp] theorem encodeMessages_cons (m : Message) (ms : List Message) :
    encodeMessages (m :: ms) = iac :: m.1.byte :: m.2 :: encodeMessages ms := rfl

@[simp] theorem encodeMessages_append (ms ns : List Message) :
    encodeMessages (ms ++ ns) = encodeMessages ms ++ encodeMessages ns := List.flatMap_append

def told (ms : List Message) (code : UInt8) (side : Side) : List Bool :=
  (ms.filter fun m => m.2 = code ∧ m.1.side = side).map fun m => m.1.enables

@[simp] theorem told_nil (code : UInt8) (side : Side) : told [] code side = [] := rfl

@[simp] theorem told_append (ms ns : List Message) (code : UInt8) (side : Side) :
    told (ms ++ ns) code side = told ms code side ++ told ns code side := by
  simp [told]

theorem told_cons_self (v : Verb) (code : UInt8) (ms : List Message) :
    told ((v, code) :: ms) code v.side = v.enables :: told ms code v.side := by
  simp [told]

theorem told_cons_of_ne {v : Verb} {code c : UInt8} {d : Side} (ms : List Message)
    (h : ¬ (c = code ∧ d = v.side)) : told ((v, code) :: ms) c d = told ms c d := by
  have : ¬ (code = c ∧ v.side = d) := fun hc => h ⟨hc.1.symm, hc.2.symm⟩
  simp [told, this]

def answers (code : UInt8) (side : Side) (r : Verdict) : List Message :=
  (r.verb? side).toList.map fun v => (v, code)

theorem encodeMessages_answers (code : UInt8) (side : Side) (r : Verdict) :
    encodeMessages (answers code side r) = encodeAnswer code (r.verb? side) := by
  cases r <;> cases side <;> rfl

/-- An answer speaks to the other side of its code, and tells it what the verdict says. -/
theorem told_answers_self (code : UInt8) (side : Side) (r : Verdict) :
    told (answers code side r) code side.other = r.words := by
  cases r <;> cases side <;> simp [answers, told, Verdict.verb?, Verdict.words, Side.other,
    Verb.side, Verb.enables]

theorem told_answers_of_ne {code c : UInt8} {side d : Side} (r : Verdict)
    (h : ¬ (c = code ∧ d = side.other)) : told (answers code side r) c d = [] := by
  have hv (v : Verb) (hv : r.verb? side = some v) : v.side = side.other := by
    cases r <;> cases side <;> cases hv <;> rfl
  cases hr : r.verb? side with
  | none => simp [answers, hr]
  | some v =>
    rw [answers, hr]
    exact told_cons_of_ne [] (by rwa [hv v hr])

namespace Escaped

theorem ofByte_verb (v : Verb) : ofByte v.byte = .verb v := by
  cases v <;> rfl

end Escaped

def Framing.read : Framing → List UInt8
  | plain => []
  | escaped => [iac]
  | subnegotiation => [iac, subnegotiationBegin]
  | negotiation v => [iac, v.byte]

theorem Framing.length_read_lt (f : Framing) : f.read.length < 3 := by
  cases f <;> simp [read]

namespace Endpoint

/-- A half of an endpoint takes a turn: it becomes `r.1`, and says `r.2`. -/
structure Turn (e e' : Endpoint) (code : UInt8) (side : Side) (r : Half × Verdict) : Prop where
  moved : e.options.Moved e'.options code side r.1
  replies_eq : e'.replies = e.replies ++ encodeMessages (answers code side r.2)
  framing_eq : e'.framing = e.framing

variable {e e' : Endpoint} {code : UInt8} {side : Side}

theorem turn_request {name : String} {enable : Bool} (he : e.options.Distinct)
    (h : e.request name side enable = .ok (e', code)) :
    Turn e e' code side
      ((e.options.half code side).request (enable && e.options.supports code side)) := by
  rw [request] at h
  split at h
  · simp at h
  · next s c answer hs =>
    simp only [Except.ok.injEq, Prod.mk.injEq] at h
    obtain ⟨rfl, rfl⟩ := h
    obtain ⟨hm, rfl⟩ := OptionSet.request_ok he hs
    exact ⟨hm, by rw [encodeMessages_answers]; rfl, rfl⟩

/-- A code that is not registered answers as an unsupported half that is off. -/
theorem refusal_eq (v : Verb) :
    refusal v = (({} : Half).receive v.enables false).2.verb? v.side := by
  cases v <;> rfl

theorem turn_negotiate (e : Endpoint) (v : Verb) (code : UInt8) :
    Turn e (e.negotiate v code).1 code v.side
      ((e.options.half code v.side).receive v.enables (e.options.supports code v.side)) := by
  rw [negotiate]
  split
  · next h =>
    have hget := OptionSet.get?_of_receive?_none h
    have hh : e.options.half code v.side = {} := by simp [OptionSet.half, hget]
    have hs : e.options.supports code v.side = false := by simp [OptionSet.supports, hget]
    have hr : (({} : Half).receive v.enables false).1 = {} := by cases v <;> rfl
    rw [hh, hs]
    refine ⟨?_, ?_, rfl⟩
    · rw [hr]
      exact OptionSet.moved_refl hh
    · rw [encodeMessages_answers, ← refusal_eq]
      rfl
  · next s o answer h =>
    obtain ⟨hm, rfl⟩ := OptionSet.receive?_some h
    exact ⟨hm, by rw [encodeMessages_answers]; rfl, rfl⟩

theorem step_of_messages {b : UInt8} {bs : List UInt8} {ms : List Message}
    (h : e.framing.read ++ b :: bs = encodeMessages ms) :
    (∃ f : Framing, (e.step b).1 = { e with framing := f } ∧ f.read ++ bs = encodeMessages ms) ∨
      ∃ v ns, ms = (v, b) :: ns ∧ (e.step b).1 = ({ e with framing := .plain }.negotiate v b).1 ∧
        bs = encodeMessages ns := by
  obtain _ | ⟨⟨v, c⟩, ns⟩ := ms
  · simp at h
  rw [encodeMessages_cons] at h
  cases hf : e.framing with
  | plain =>
    simp only [hf, Framing.read, List.nil_append, List.cons.injEq] at h
    obtain ⟨rfl, rfl⟩ := h
    exact .inl ⟨.escaped, by simp [step, hf], rfl⟩
  | escaped =>
    simp only [hf, Framing.read, List.cons_append, List.nil_append, List.cons.injEq,
      true_and] at h
    obtain ⟨rfl, rfl⟩ := h
    exact .inl ⟨.negotiation v, by simp [step, hf, Escaped.ofByte_verb], rfl⟩
  | subnegotiation =>
    simp only [hf, Framing.read, List.cons_append, List.cons.injEq, true_and] at h
    cases v <;> simp [subnegotiationBegin, Verb.byte] at h
  | negotiation w =>
    simp only [hf, Framing.read, List.cons_append, List.nil_append, List.cons.injEq,
      true_and] at h
    obtain ⟨hw, rfl, rfl⟩ := h
    obtain rfl : w = v := by
      have := congrArg Verb.ofByte? hw
      simpa using this
    exact .inr ⟨w, ns, rfl, by rw [step, hf], rfl⟩

end Endpoint

end VatTerminal.Telnet
