import VatTerminal.Proofs.Negotiation.LastRequest

/-! # What an endpoint decides

Requests and received bytes are put to an endpoint in any order. The framing
finds the verbs among the bytes, whatever the options are. A request or a verb
may decide on a verb to say, and what has been decided is what has joined the
replies.
-/

namespace VatTerminal.Telnet

namespace Framing

/-- Read one byte. The last byte of a verb is the code of the option. -/
def step (f : Framing) (b : UInt8) : Framing × Option Message :=
  match f with
  | plain => (if b = iac then .escaped else .plain, none)
  | escaped =>
    match Escaped.ofByte b with
    | .subnegotiation => (.subnegotiation, none)
    | .verb v => (.negotiation v, none)
    | .quoted | .command _ | .stray => (.plain, none)
  | subnegotiation => (.plain, none)
  | negotiation v => (.plain, some (v, b))

def scan (f : Framing) : List UInt8 → Framing × List Message
  | [] => (f, [])
  | b :: bs =>
    let (f, m) := f.step b
    let (f, ms) := f.scan bs
    (f, m.toList ++ ms)

theorem scan_append (f : Framing) (xs ys : List UInt8) :
    f.scan (xs ++ ys) =
      (((f.scan xs).1.scan ys).1, (f.scan xs).2 ++ ((f.scan xs).1.scan ys).2) := by
  induction xs generalizing f with
  | nil => rfl
  | cons b bs ih => simp only [List.cons_append, scan, ih, List.append_assoc]

end Framing

namespace Endpoint

inductive Input where
  | request (name : String) (side : Side) (enable : Bool)
  | byte (b : UInt8)
  deriving DecidableEq

variable (e : Endpoint)

/-- A request that fails changes nothing. -/
def input : Input → Endpoint
  | .request name side enable =>
    match e.request name side enable with
    | .ok (e, _) => e
    | .error _ => e
  | .byte b => (e.step b).1

def run (is : List Input) : Endpoint := is.foldl input e

/-- What is said for an option and a verb that were decided on. -/
def saying (code : UInt8) (answer : Option Verb) : List Message := answer.toList.map (·, code)

def answerTo (v : Verb) (code : UInt8) : Option Verb :=
  match e.options.receive? v code with
  | none => refusal v
  | some (_, _, answer) => answer

def decides : Input → List Message
  | .request name side enable =>
    match e.options.request name side enable with
    | .ok (_, code, answer) => saying code answer
    | .error _ => []
  | .byte b =>
    match (e.framing.step b).2 with
    | none => []
    | some (v, code) => saying code (e.answerTo v code)

def decided (e : Endpoint) : List Input → List Message
  | [] => []
  | i :: is => e.decides i ++ (e.input i).decided is

variable {e} {b : UInt8}

theorem framing_negotiate (v : Verb) (code : UInt8) :
    (e.negotiate v code).1.framing = e.framing := by
  unfold negotiate
  split <;> rfl

theorem framing_step : (e.step b).1.framing = (e.framing.step b).1 := by
  obtain ⟨f, options, replies, inband, strays⟩ := e
  cases f with
  | plain =>
    simp only [step, Framing.step]
    split <;> rfl
  | escaped =>
    simp only [step, Framing.step]
    cases Escaped.ofByte b <;> rfl
  | subnegotiation => rfl
  | negotiation v => exact framing_negotiate v b

theorem step_eq_negotiate {v : Verb} {code : UInt8}
    (h : (e.framing.step b).2 = some (v, code)) :
    e.step b = { e with framing := .plain }.negotiate v code := by
  obtain ⟨f, options, replies, inband, strays⟩ := e
  cases f with
  | negotiation w =>
    simp only [Framing.step, Option.some.injEq, Prod.mk.injEq] at h
    obtain ⟨rfl, rfl⟩ := h
    rfl
  | escaped =>
    simp only [Framing.step] at h
    cases hb : Escaped.ofByte b <;> simp [hb] at h
  | plain => cases h
  | subnegotiation => cases h

theorem step_of_verb {v : Verb} {code : UInt8} (h : (e.framing.step b).2 = some (v, code)) :
    (e.step b).1 = ({ e with framing := .plain }.negotiate v code).1 :=
  congrArg (·.1) (step_eq_negotiate h)

theorem step_of_no_verb (h : (e.framing.step b).2 = none) :
    (e.step b).1.options = e.options ∧ (e.step b).1.replies = e.replies := by
  obtain ⟨f, options, replies, inband, strays⟩ := e
  cases f with
  | plain =>
    simp only [step]
    split <;> exact ⟨rfl, rfl⟩
  | escaped =>
    simp only [step]
    cases Escaped.ofByte b <;> exact ⟨rfl, rfl⟩
  | subnegotiation => exact ⟨rfl, rfl⟩
  | negotiation v => cases h

theorem encodeMessages_saying (code : UInt8) (answer : Option Verb) :
    encodeMessages (saying code answer) = encodeAnswer code answer := by
  cases answer <;> rfl

theorem replies_negotiate (v : Verb) (code : UInt8) :
    (e.negotiate v code).1.replies = e.replies ++ encodeAnswer code (e.answerTo v code) := by
  unfold negotiate answerTo
  cases e.options.receive? v code with
  | none => rfl
  | some r => rfl

theorem replies_input (i : Input) :
    (e.input i).replies = e.replies ++ encodeMessages (e.decides i) := by
  cases i with
  | request name side enable =>
    simp only [input, decides, request]
    cases e.options.request name side enable with
    | error err => exact (List.append_nil _).symm
    | ok r =>
      simp only [encodeMessages_saying]
      rfl
  | byte b =>
    simp only [input, decides]
    cases hm : (e.framing.step b).2 with
    | none => simpa using (step_of_no_verb hm).2
    | some m =>
      rw [step_of_verb hm, replies_negotiate]
      simp only [encodeMessages_saying]
      rfl

theorem replies_run (is : List Input) :
    (e.run is).replies = e.replies ++ encodeMessages (e.decided is) := by
  induction is generalizing e with
  | nil => simp [run, decided]
  | cons i is ih =>
    have hrest : (e.run (i :: is)).replies =
        (e.input i).replies ++ encodeMessages ((e.input i).decided is) := ih
    rw [hrest, replies_input, decided, encodeMessages_append, List.append_assoc]

theorem labels_input (i : Input) : (e.input i).options.labels = e.options.labels := by
  cases i with
  | request name side enable =>
    simp only [input]
    split
    · next h => exact (labels_request h).1
    · rfl
  | byte b => exact e.labels_step b

theorem labels_run (is : List Input) : (e.run is).options.labels = e.options.labels := by
  induction is generalizing e with
  | nil => rfl
  | cons i is ih => exact ih.trans (labels_input i)

end Endpoint

end VatTerminal.Telnet
