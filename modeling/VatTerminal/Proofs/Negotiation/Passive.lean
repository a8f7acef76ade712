import VatTerminal.Proofs.Negotiation.Answers

/-! # Ends that only answer

An endpoint whose halves are off at first, and which asks for nothing, says
what its peer makes it say. A verb for a half that is supported switches it, and
is answered in kind if that is a change. Whatever else would be switched on is
refused. What it says, and which events it raises, is a function of the verbs
among its bytes.
-/

namespace VatTerminal.Telnet

def Mode.ofBool (on : Bool) : Mode := if on then .enabled else .disabled

/-- The verb of the same sense that is said in return. -/
def Verb.counterpart : Verb → Verb
  | will => do_
  | wont => dont
  | do_ => will
  | dont => wont

/-- The event of a negotiation, other than of a subnegotiation. -/
def Event.negotiation? : Event → Option OptionEvent
  | .option o => if o.subnegotiation then none else some o
  | .data _ | .command _ => none

/-- A verb that is said in answer to another, and whether the half is on from then. -/
structure Reaction where
  answer : Message
  on : Bool
  deriving DecidableEq

def Reaction.event (r : Reaction) : OptionEvent where
  code := r.answer.2
  side := r.answer.1.side.other
  mode := .ofBool r.on
  subnegotiation := false

abbrev Switches := UInt8 → Side → Bool

namespace Switches

def settle (supported on : Bool) (v : Verb) : Bool := if supported then v.enables else on

def answer (supported on : Bool) (v : Verb) : Option Verb :=
  if supported then if v.enables = on then none else some v.counterpart
  else Endpoint.refusal v

variable (supports : UInt8 → Side → Bool)

/-- The half that a verb is about is settled, and every other one stays as it is. -/
def turn (on : Switches) (m : Message) : Switches := fun code side =>
  if code = m.2 ∧ side = m.1.side then settle (supports code side) (on code side) m.1
  else on code side

def reactions (on : Switches) : List Message → List Reaction
  | [] => []
  | (v, code) :: ms =>
    ((answer (supports code v.side) (on code v.side) v).toList.map fun w =>
        { answer := (w, code), on := settle (supports code v.side) (on code v.side) v }) ++
      reactions (turn supports on (v, code)) ms

theorem reactions_append (on : Switches) (ms ns : List Message) :
    reactions supports on (ms ++ ns) =
      reactions supports on ms ++ reactions supports (ms.foldl (turn supports) on) ns := by
  induction ms generalizing on with
  | nil => rfl
  | cons m ms ih =>
    rw [List.cons_append, reactions, ih, reactions, List.append_assoc]
    rfl

theorem side_of_answer {supported on : Bool} {v w : Verb} (h : answer supported on v = some w) :
    w.side.other = v.side := by
  unfold answer at h
  split at h
  · split at h <;> cases h
    cases v <;> rfl
  · cases v <;> cases h <;> rfl

end Switches

theorem Half.receive_of_mode {h : Half} {on : Bool} (hm : h.mode = .ofBool on) (supported : Bool)
    (v : Verb) :
    (h.receive v.enables supported).1.mode = .ofBool (Switches.settle supported on v) ∧
      (h.receive v.enables supported).2.verb? v.side = Switches.answer supported on v := by
  obtain ⟨state, queued⟩ := h
  cases state <;> cases on <;> simp [Half.mode, QState.mode, Mode.ofBool] at hm <;>
    cases supported <;> cases v <;> exact ⟨rfl, rfl⟩

theorem Event.half?_eq (event : Event) :
    event.half? = event.negotiation?.map fun o => (o.code, o.side) := by
  cases event with
  | option o =>
    simp only [half?, negotiation?]
    split <;> rfl
  | _ => rfl

theorem OptionSet.get?_eq_none_iff {s : OptionSet} {code : UInt8} :
    s.get? code = none ↔ code ∉ s.codes := by
  simp [get?, codes]

namespace Endpoint

open Switches

def Settled (e : Endpoint) (on : Switches) : Prop :=
  ∀ code side, (e.options.half code side).mode = .ofBool (on code side)

/-- An endpoint has heard verbs, sent bytes and raised events, and has come to be another one. What
has been sent and what waits to be sent is what the verbs call for. -/
structure Follows (e : Endpoint) (on : Switches) (ms : List Message) (e' : Endpoint)
    (sent : List UInt8) (events : List Event) : Prop where
  codes_eq : e'.options.codes = e.options.codes
  supports_eq : e'.options.supports = e.options.supports
  settled : e'.Settled (ms.foldl (turn e.options.supports) on)
  said : sent ++ e'.replies = e.replies ++
    encodeMessages ((reactions e.options.supports on ms).map (·.answer))
  raised : events.filterMap Event.negotiation? =
    ((reactions e.options.supports on ms).filter (·.answer.2 ∈ e.options.codes)).map (·.event)

variable {e e' e'' : Endpoint} {on : Switches} {ms ns : List Message} {sent sent' : List UInt8}
  {events events' : List Event}

theorem Follows.trans (h : Follows e on ms e' sent events)
    (h' : Follows e' (ms.foldl (turn e.options.supports) on) ns e'' sent' events') :
    Follows e on (ms ++ ns) e'' (sent ++ sent') (events ++ events') := by
  obtain ⟨hcodes, hsupports, hsettled, hsaid, hraised⟩ := h'
  rw [h.supports_eq] at hsupports hsettled hsaid hraised
  rw [h.codes_eq] at hcodes hraised
  refine ⟨hcodes, hsupports, ?_, ?_, ?_⟩
  · rw [List.foldl_append]
    exact hsettled
  · rw [List.append_assoc, hsaid, ← List.append_assoc, h.said, reactions_append, List.map_append,
      encodeMessages_append, List.append_assoc]
  · rw [List.filterMap_append, h.raised, hraised, reactions_append, List.filter_append,
      List.map_append]

theorem follows_of_options_eq (h : e.Settled on) (ho : e'.options = e.options)
    (hsaid : sent ++ e'.replies = e.replies)
    (hraised : events.filterMap Event.negotiation? = []) : Follows e on [] e' sent events where
  codes_eq := by rw [ho]
  supports_eq := by rw [ho]
  settled := by
    rw [Settled, ho]
    exact h
  said := by simpa [reactions] using hsaid
  raised := hraised

theorem event_negotiate (v : Verb) (code : UInt8) :
    (e.negotiate v code).2 = if code ∈ e.options.codes then
      (e.answerTo v code).map fun _ =>
        .option ⟨code, v.side, ((e.negotiate v code).1.options.half code v.side).mode, false⟩
      else none := by
  unfold negotiate answerTo
  cases hr : e.options.receive? v code with
  | none =>
    have hcode := OptionSet.get?_eq_none_iff.mp (OptionSet.get?_of_receive?_none hr)
    simp [hcode]
  | some r =>
    obtain ⟨s, o, answer⟩ := r
    obtain ⟨hmoved, -⟩ := OptionSet.receive?_some hr
    obtain ⟨x, hget, hx⟩ := Option.map_eq_some_iff.mp hr
    have hcode : code ∈ e.options.codes := by
      by_contra hn
      simp [OptionSet.get?_eq_none_iff.mpr hn] at hget
    have hmode : (s.half code v.side).mode = o.mode v.side := by
      have ho : o = (x.receive v).1 := (congrArg (·.2.1) hx).symm
      rw [hmoved.half_eq, if_pos ⟨rfl, rfl⟩, OptionSet.half_of_get? hget,
        OptionSet.supports_of_get? hget, ho, TelnetOption.mode, TelnetOption.receive,
        TelnetOption.half_setHalf]
    rw [if_pos hcode]
    simp only [reply, hmode]

theorem follows_negotiate (h : e.Settled on) (v : Verb) (code : UInt8) :
    Follows e on [(v, code)] (e.negotiate v code).1 [] (e.negotiate v code).2.toList := by
  have hmoved := (turn_negotiate e v code).moved
  obtain ⟨hmode, hanswer⟩ :=
    Half.receive_of_mode (h code v.side) (e.options.supports code v.side) v
  rw [← answerTo_eq] at hanswer
  have hhalf := hmoved.half_eq code v.side
  rw [if_pos ⟨rfl, rfl⟩] at hhalf
  have hevent := event_negotiate (e := e) v code
  rw [hhalf, hmode, hanswer] at hevent
  refine ⟨hmoved.codes_eq, funext₂ hmoved.supports_eq, fun c d => ?_, ?_, ?_⟩
  · rw [hmoved.half_eq]
    show _ = Mode.ofBool (turn e.options.supports on (v, code) c d)
    rw [turn]
    split
    · next hcd =>
      obtain ⟨rfl, rfl⟩ := hcd
      exact hmode
    · exact h c d
  · rw [List.nil_append, replies_negotiate, hanswer, ← encodeMessages_saying]
    simp [reactions, saying, Function.comp_def]
  · rw [hevent]
    cases hw : answer (e.options.supports code v.side) (on code v.side) v with
    | none => simp [reactions, hw]
    | some w =>
      by_cases hc : code ∈ e.options.codes
      · simp [reactions, hw, hc, Event.negotiation?, Reaction.event, side_of_answer hw]
      · simp [reactions, hw, hc]

theorem event_of_no_verb {b : UInt8} (h : (e.framing.step b).2 = none) :
    (e.step b).2.toList.filterMap Event.negotiation? = [] := by
  cases he : (e.step b).2 with
  | none => rfl
  | some event =>
    cases hn : event.negotiation? with
    | none => simp [hn]
    | some o =>
      have hhalf : (e.step b).2.bind Event.half? = some (o.code, o.side) := by
        rw [he, Option.bind_some, Event.half?_eq, hn]
        rfl
      have hdecides := e.half_step hhalf
      simp [decides, h] at hdecides

theorem follows_step (h : e.Settled on) (b : UInt8) :
    Follows e on (e.framing.step b).2.toList (e.step b).1 [] (e.step b).2.toList := by
  cases hm : (e.framing.step b).2 with
  | none =>
    obtain ⟨ho, hr⟩ := step_of_no_verb hm
    exact follows_of_options_eq h ho hr (event_of_no_verb hm)
  | some m =>
    rw [step_eq_negotiate hm]
    obtain ⟨hcodes, hsupports, hsettled, hsaid, hraised⟩ :=
      follows_negotiate (e := { e with framing := .plain }) h m.1 m.2
    exact ⟨hcodes, hsupports, hsettled, hsaid, hraised⟩

theorem follows_drain (h : e.Settled on) (bytes : List UInt8) :
    Follows e on (e.framing.scan bytes).2 (e.drain bytes).1 [] (e.drain bytes).2 ∧
      (e.drain bytes).1.framing = (e.framing.scan bytes).1 := by
  induction bytes generalizing e on with
  | nil => exact ⟨follows_of_options_eq h rfl rfl rfl, rfl⟩
  | cons b bs ih =>
    have hstep := follows_step h b
    obtain ⟨hrest, hframing⟩ := ih hstep.settled
    rw [framing_step] at hrest hframing
    exact ⟨hstep.trans hrest, hframing⟩

/-- Read a stream chunk by chunk as it comes, and send what waits after each. -/
def converse (e : Endpoint) : List (List UInt8) → Endpoint × List UInt8 × List Event
  | [] => (e, [], [])
  | chunk :: chunks =>
    let (e, events) := e.decodeAll chunk
    let (sent, e) := e.takeReplies
    let (e, rest, later) := e.converse chunks
    (e, sent ++ rest, events ++ later)

theorem follows_converse (h : e.Settled on) (chunks : List (List UInt8)) :
    Follows e on (e.framing.scan chunks.flatten).2 (e.converse chunks).1 (e.converse chunks).2.1
      (e.converse chunks).2.2 := by
  induction chunks generalizing e on with
  | nil => exact follows_of_options_eq h rfl rfl rfl
  | cons chunk chunks ih =>
    obtain ⟨hread, hframing⟩ := follows_drain h chunk
    have htaken : Follows (e.drain chunk).1 _ [] (e.drain chunk).1.takeReplies.2
        (e.drain chunk).1.replies [] :=
      follows_of_options_eq hread.settled rfl (List.append_nil _) rfl
    have hrest := ih htaken.settled
    rw [show (e.drain chunk).1.takeReplies.2.framing = _ from hframing] at hrest
    rw [List.flatten_cons, Framing.scan_append, converse, decodeAll_eq_drain]
    exact hread.trans (htaken.trans hrest)

theorem settled_of_no (hno : ∀ o ∈ e.options.entries, ∀ side, (o.half side).state = .no) :
    e.Settled fun _ _ => false := by
  intro code side
  rw [OptionSet.half]
  cases hget : e.options.get? code with
  | none => rfl
  | some o =>
    show (o.half side).state.mode = .disabled
    rw [hno o (List.mem_of_find?_eq_some hget) side]
    rfl

/-- An endpoint whose halves are all off and that asks for nothing reads a stream. What it sends,
with what waits in the end, is the answers to the verbs among the bytes, in order. The events of
negotiations are one for each answer for a registered code, with the mode from then on, and at the
end every half has the mode that the verbs have left it in. -/
theorem converse_reacts (hno : ∀ o ∈ e.options.entries, ∀ side, (o.half side).state = .no)
    (chunks : List (List UInt8)) :
    let verbs := (e.framing.scan chunks.flatten).2
    let rs := reactions e.options.supports (fun _ _ => false) verbs
    let (e', sent, events) := e.converse chunks
    sent ++ e'.replies = e.replies ++ encodeMessages (rs.map (·.answer)) ∧
      events.filterMap Event.negotiation? =
        (rs.filter (·.answer.2 ∈ e.options.codes)).map (·.event) ∧
      ∀ code side, (e'.options.half code side).mode =
        .ofBool (verbs.foldl (turn e.options.supports) (fun _ _ => false) code side) := by
  intro verbs rs
  have h := follows_converse (settled_of_no hno) chunks
  exact ⟨h.said, h.raised, h.settled⟩

/-- Verbs for both sides of an option that the peer only may perform, one of them twice, a verb for
a code that is not registered, and data, cut anywhere. -/
def chatter : List (List UInt8) :=
  [[255, 251], [3, 65, 255, 251, 3, 255, 253, 3], [], [255, 252, 3, 255, 252, 3, 255], [251, 9],
    [255, 254, 9, 255, 250, 3, 255]]

theorem converse_reacts_chatter :
    let e : Endpoint := { options := pairSet }
    let (e', sent, events) := e.converse chatter
    (∀ o ∈ e.options.entries, ∀ side, (o.half side).state = .no) ∧
      sent ++ e'.replies = [255, 253, 3, 255, 252, 3, 255, 254, 3, 255, 254, 9] ∧
      events.filterMap Event.negotiation? = [⟨3, .remoteSide, .enabled, false⟩,
        ⟨3, .localSide, .disabled, false⟩, ⟨3, .remoteSide, .disabled, false⟩] ∧
      (e'.options.half 3 .remoteSide).mode = .disabled := by
  intro e
  have hno : ∀ o ∈ e.options.entries, ∀ side, (o.half side).state = .no := by
    have hall : ∀ o ∈ pairSet.entries, o.us.state = .no ∧ o.him.state = .no := by decide
    intro o ho side
    cases side with
    | localSide => exact (hall o ho).1
    | remoteSide => exact (hall o ho).2
  obtain ⟨hsaid, hraised, hmodes⟩ := converse_reacts hno chatter
  refine ⟨hno, hsaid.trans ?_, hraised.trans ?_, (hmodes 3 .remoteSide).trans ?_⟩
  · decide +kernel
  · decide +kernel
  · decide +kernel

end Endpoint

end VatTerminal.Telnet
