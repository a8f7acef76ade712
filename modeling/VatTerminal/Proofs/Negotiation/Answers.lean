import VatTerminal.Proofs.Negotiation.Contents
import VatTerminal.Proofs.Stream.Drain

/-! # Answers

What an endpoint decides on depends on what is put to it, and not on the
replies that wait. Each event of a negotiation comes with its answer.
-/

namespace VatTerminal.Telnet

def Event.half? : Event → Option (UInt8 × Side)
  | .option o => if o.subnegotiation then none else some (o.code, o.side)
  | .data _ | .command _ => none

def halfOf (m : Message) : UInt8 × Side := (m.2, m.1.side.other)

theorem OptionSet.side_of_receive? {s t : OptionSet} {v w : Verb} {code : UInt8}
    {o : TelnetOption} (h : s.receive? v code = some (t, o, some w)) : w.side.other = v.side := by
  obtain ⟨x, -, hx⟩ := Option.map_eq_some_iff.mp h
  have hw : (x.receive v).2 = some w := congrArg (·.2.2) hx
  rw [Verdict.side_of_verb? hw, Side.other_other]

namespace Endpoint

variable (e : Endpoint) (r : List UInt8)

theorem half_negotiate {v : Verb} {code : UInt8} {x : UInt8 × Side}
    (h : (e.negotiate v code).2.bind Event.half? = some x) :
    (saying code (e.answerTo v code)).map halfOf = [x] := by
  unfold negotiate at h
  unfold answerTo
  cases hr : e.options.receive? v code with
  | none =>
    rw [hr] at h
    cases h
  | some r =>
    obtain ⟨s, o, answer⟩ := r
    rw [hr] at h
    cases answer with
    | none => cases h
    | some w =>
      cases h
      show [(code, w.side.other)] = [(code, v.side)]
      rw [OptionSet.side_of_receive? hr]

theorem half_step {b : UInt8} {x : UInt8 × Side} (h : (e.step b).2.bind Event.half? = some x) :
    (e.decides (.byte b)).map halfOf = [x] := by
  obtain ⟨f, options, replies, inband, strays⟩ := e
  cases f with
  | plain =>
    simp only [step] at h
    split at h <;> cases h
  | escaped =>
    simp only [step] at h
    cases hb : Escaped.ofByte b with
    | command c =>
      simp only [hb, commandEvent] at h
      split at h <;> cases h
    | _ => simp [hb, Event.half?] at h
  | subnegotiation => cases h
  | negotiation v => exact half_negotiate ⟨.plain, options, replies, inband, strays⟩ h

theorem halves_raises (i : Input) :
    ((e.raises i).toList.filterMap Event.half?).Sublist ((e.decides i).map halfOf) := by
  cases i with
  | request name side enable => exact List.nil_sublist _
  | byte b =>
    show ((e.step b).2.toList.filterMap Event.half?).Sublist _
    cases he : (e.step b).2 with
    | none => exact List.nil_sublist _
    | some event =>
      cases hx : event.half? with
      | none => simp [hx]
      | some x =>
        have hbind : (e.step b).2.bind Event.half? = some x := by rw [he]; exact hx
        rw [e.half_step hbind]
        simp [hx]

theorem halves_heard (is : List Input) :
    ((e.heard is).filterMap Event.half?).Sublist ((e.decided is).map halfOf) := by
  induction is generalizing e with
  | nil => exact .refl _
  | cons i is ih =>
    rw [heard, decided, List.filterMap_append, List.map_append]
    exact (e.halves_raises i).append (ih _)

theorem owing_input (i : Input) : (e.owing r).input i = (e.input i).owing r := by
  cases i with
  | request name side enable =>
    simp only [input, request, show (e.owing r).options = e.options from rfl]
    cases e.options.request name side enable with
    | error err => rfl
    | ok t => exact owing_reply { e with options := t.1 } r t.2.1 t.2.2
  | byte b => exact congrArg (·.1) (e.owing_step r b)

theorem run_append (is js : List Input) : e.run (is ++ js) = (e.run is).run js :=
  List.foldl_append

theorem owing_append (r r' : List UInt8) : e.owing (r ++ r') = (e.owing r').owing r := by
  simp [owing]

theorem run_owing (is : List Input) : (e.owing r).run is = (e.run is).owing r := by
  induction is generalizing e with
  | nil => rfl
  | cons i is ih =>
    refine Eq.trans ?_ (ih (e.input i))
    rw [← owing_input]
    rfl

theorem decided_owing (is : List Input) : (e.owing r).decided is = e.decided is := by
  induction is generalizing e with
  | nil => rfl
  | cons i is ih =>
    rw [decided, decided, owing_input, ih]
    cases i <;> rfl

theorem decided_append (is js : List Input) :
    e.decided (is ++ js) = e.decided is ++ (e.run is).decided js := by
  induction is generalizing e with
  | nil => rfl
  | cons i is ih =>
    rw [List.cons_append, decided, ih, decided, List.append_assoc]
    rfl

end Endpoint

end VatTerminal.Telnet
