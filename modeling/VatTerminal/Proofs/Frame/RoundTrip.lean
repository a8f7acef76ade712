import Mathlib.Algebra.Ring.Nat
import Mathlib.Data.List.Forall2
import VatTerminal.Proofs.Negotiation.Verbs

/-! # Frames that are written and read

A receiver that is in the middle of nothing reads frame after frame as they
were written, whatever bytes they hold. Of its state only the verbs change
anything, and each as if it had come alone.
-/

namespace VatTerminal.Telnet

namespace Escaped

theorem ofByte_iac : ofByte iac = .quoted := rfl

theorem ofByte_command (c : Command) : ofByte c.byte = .command c := by
  cases c <;> rfl

end Escaped

namespace Frame

def encodeAll (frames : List Frame) : List UInt8 := frames.flatMap encode

@[simp] theorem encodeAll_cons (f : Frame) (fs : List Frame) :
    encodeAll (f :: fs) = f.encode ++ encodeAll fs := List.flatMap_cons

theorem length_encodeAll (frames : List Frame) :
    (encodeAll frames).length = (frames.map wireLength).sum := by
  simp [encodeAll, List.length_flatMap]

theorem encodeData_eq (bytes : List UInt8) : encodeData bytes = encodeAll (bytes.map .data) := by
  rw [encodeData, encodeAll, List.flatMap_map]

/-- What a frame tells about an option. -/
def message? : Frame → Option Message
  | verb v code => some (v, code)
  | _ => none

/-- The events that a receiver may make of a frame. -/
inductive Yields (inband : Bool) : Frame → List Event → Prop where
  | data (b : UInt8) : Yields inband (.data b) [.data b]
  | command {c : Command} (h : inband = false ∨ c = .subnegotiationEnd) :
      Yields inband (.command c) [.command c]
  | inbandCommand {c : Command} (hi : inband = true) (hc : c ≠ .subnegotiationEnd) :
      Yields inband (.command c) [.data c.byte]
  | silent (v : Verb) (code : UInt8) : Yields inband (.verb v code) []
  | option (v : Verb) (code : UInt8) (mode : Mode) :
      Yields inband (.verb v code) [.option ⟨code, v.side, mode, false⟩]

end Frame

namespace Endpoint

def hear (e : Endpoint) (ms : List Message) : Endpoint :=
  ms.foldl (fun e m => (e.negotiate m.1 m.2).1) e

theorem hear_append (e : Endpoint) (ms ns : List Message) :
    e.hear (ms ++ ns) = (e.hear ms).hear ns := List.foldl_append

variable (e : Endpoint)

theorem inband_negotiate (v : Verb) (code : UInt8) : (e.negotiate v code).1.inband = e.inband := by
  rw [negotiate]
  split <;> rfl

theorem inband_hear (ms : List Message) : (e.hear ms).inband = e.inband := by
  induction ms generalizing e with
  | nil => rfl
  | cons m ms ih => exact (ih _).trans (e.inband_negotiate m.1 m.2)

theorem framing_hear (ms : List Message) : (e.hear ms).framing = e.framing := by
  induction ms generalizing e with
  | nil => rfl
  | cons m ms ih => exact (ih _).trans (e.turn_negotiate m.1 m.2).framing_eq

/-- Of all verbs a half hears those of its code and side, and hears them in order. -/
theorem half_hear (ms : List Message) (code : UInt8) (side : Side) :
    (e.hear ms).options.half code side =
      (told ms code side).foldl (fun h on => (h.receive on (e.options.supports code side)).1)
        (e.options.half code side) := by
  induction ms generalizing e with
  | nil => rfl
  | cons m ms ih =>
    obtain ⟨v, c⟩ := m
    have hm := (e.turn_negotiate v c).moved
    refine (ih (e.negotiate v c).1).trans ?_
    rw [hm.supports_eq]
    by_cases h : code = c ∧ side = v.side
    · obtain ⟨rfl, rfl⟩ := h
      rw [told_cons_self, hm.half_eq, if_pos ⟨rfl, rfl⟩]
      rfl
    · rw [told_cons_of_ne ms h, hm.half_eq, if_neg h]

theorem negotiate_yields (v : Verb) (code : UInt8) :
    Frame.Yields e.inband (.verb v code) (e.negotiate v code).2.toList := by
  rw [negotiate]
  split
  · exact .silent v code
  · next s o answer h =>
    cases answer with
    | none => exact .silent v code
    | some w => exact .option v code _

theorem commandEvent_yields (c : Command) :
    Frame.Yields e.inband (.command c) [e.commandEvent c] := by
  rw [commandEvent]
  split
  · next h =>
    rw [Bool.and_eq_true, bne_iff_ne] at h
    exact .inbandCommand h.1 h.2
  · next h =>
    rw [Bool.and_eq_true, bne_iff_ne, Decidable.not_and_iff_or_not, Bool.not_eq_true,
      Decidable.not_not] at h
    exact .command h

theorem drain_append (xs ys : List UInt8) :
    e.drain (xs ++ ys) =
      (((e.drain xs).1.drain ys).1, (e.drain xs).2 ++ ((e.drain xs).1.drain ys).2) := by
  induction xs generalizing e with
  | nil => rfl
  | cons b bs ih => simp only [List.cons_append, drain, ih, List.append_assoc]

variable {e}

theorem drain_encode (he : e.framing = .plain) (f : Frame) :
    Frame.Yields e.inband f (e.drain f.encode).2 ∧
      (e.drain f.encode).1 = e.hear f.message?.toList := by
  -- Nothing is left open before the frame, so taking the framing back to plain changes nothing.
  have hplain : { e with framing := .plain } = e := by rw [← he]
  cases f with
  | data b =>
    rw [Frame.encode]
    split
    · next hb =>
      subst hb
      simp only [drain, step, he, ↓reduceIte, Escaped.ofByte_iac, hplain]
      exact ⟨.data iac, rfl⟩
    · next hb =>
      simp only [drain, step, he, if_neg hb]
      exact ⟨.data b, rfl⟩
  | command c =>
    simp only [Frame.encode, drain, step, he, ↓reduceIte, Escaped.ofByte_command, hplain]
    exact ⟨e.commandEvent_yields c, rfl⟩
  | verb v code =>
    simp only [Frame.encode, drain, step, he, ↓reduceIte, Escaped.ofByte_verb, hplain,
      Option.toList_none, List.nil_append, List.append_nil]
    exact ⟨e.negotiate_yields v code, rfl⟩

theorem drain_encodeAll (he : e.framing = .plain) (frames : List Frame) :
    (e.drain (Frame.encodeAll frames)).1 = e.hear (frames.filterMap Frame.message?) ∧
      ∃ groups, groups.flatten = (e.drain (Frame.encodeAll frames)).2 ∧
        List.Forall₂ (Frame.Yields e.inband) frames groups := by
  induction frames generalizing e with
  | nil => exact ⟨rfl, [], rfl, .nil⟩
  | cons f fs ih =>
    obtain ⟨hy, hd⟩ := drain_encode he f
    have hf : (e.hear f.message?.toList).framing = .plain := (e.framing_hear _).trans he
    obtain ⟨hrest, groups, hg, hall⟩ := ih hf
    rw [inband_hear] at hall
    rw [Frame.encodeAll_cons, drain_append, hd]
    refine ⟨?_, (e.drain f.encode).2 :: groups, ?_, .cons hy hall⟩
    · rw [hrest, ← hear_append]
      cases hm : f.message? <;> simp [hm]
    · rw [List.flatten_cons, hg]

/-- The next event is the first of those that draining gives. -/
theorem drain_eq_decode (bytes : List UInt8) :
    e.drain bytes =
      (((e.decode bytes).1.drain (e.decode bytes).2.2).1,
        (e.decode bytes).2.1.toList ++ ((e.decode bytes).1.drain (e.decode bytes).2.2).2) := by
  induction bytes generalizing e with
  | nil => rfl
  | cons b bs ih =>
    rw [drain, decode]
    rcases e.step b with ⟨t, _ | event⟩
    · exact ih
    · rfl

theorem length_decode_lt {t : Endpoint} {bytes rest : List UInt8} {event : Event}
    (h : e.decode bytes = (t, some event, rest)) : rest.length < bytes.length := by
  induction bytes generalizing e with
  | nil => simp [decode] at h
  | cons b bs ih =>
    rw [decode] at h
    split at h
    · cases h
      exact Nat.lt_succ_self _
    · exact Nat.lt_succ_of_lt (ih h)

theorem rest_of_decode_none {t : Endpoint} {bytes rest : List UInt8}
    (h : e.decode bytes = (t, none, rest)) : rest = [] := by
  induction bytes generalizing e with
  | nil =>
    cases h
    rfl
  | cons b bs ih =>
    rw [decode] at h
    split at h
    · cases h
    · exact ih h

/-- Call for the next event until there is none. -/
def decodeAll (e : Endpoint) (bytes : List UInt8) : Endpoint × List Event :=
  match _h : e.decode bytes with
  | (e, none, _) => (e, [])
  | (e, some event, rest) =>
    let (e, events) := e.decodeAll rest
    (e, event :: events)
termination_by bytes.length
decreasing_by exact length_decode_lt _h

theorem decodeAll_eq_drain (e : Endpoint) (bytes : List UInt8) :
    e.decodeAll bytes = e.drain bytes := by
  fun_induction decodeAll e bytes with
  | case1 e bytes t rest h =>
    rw [drain_eq_decode, h, rest_of_decode_none h]
    rfl
  | case2 e bytes t event rest h u events hu ih =>
    rw [drain_eq_decode, h, ← ih, hu]
    rfl

/-- Frames take their lengths on the line. A receiver that is in the middle of nothing makes of
them, frame by frame and in order, what each may yield, and is in the middle of nothing again; it
has acted on the verbs among them, and done nothing else. -/
theorem decodeAll_encodeAll (he : e.framing = .plain) (frames : List Frame) :
    let bytes := Frame.encodeAll frames
    let r := e.decodeAll bytes
    let verbs := frames.filterMap Frame.message?
    bytes.length = (frames.map Frame.wireLength).sum ∧
      (∀ data, encodeData data = Frame.encodeAll (data.map .data)) ∧
      r.1.framing = .plain ∧
      (∃ groups, groups.flatten = r.2 ∧ List.Forall₂ (Frame.Yields e.inband) frames groups) ∧
      r.1 = e.hear verbs ∧
      ∀ code side, r.1.options.half code side =
        (told verbs code side).foldl (fun h on => (h.receive on (e.options.supports code side)).1)
          (e.options.half code side) := by
  intro bytes r verbs
  have hr : r = e.drain bytes := e.decodeAll_eq_drain bytes
  obtain ⟨hend, hgroups⟩ := drain_encodeAll he frames
  rw [← hr] at hend hgroups
  refine ⟨Frame.length_encodeAll frames, Frame.encodeData_eq, ?_, hgroups, hend, ?_⟩
  · rw [hend, framing_hear, he]
  · rw [hend]
    exact e.half_hear verbs

/-- A receiver whose one option has the code that introduces every escape. -/
def awkward : Endpoint where
  options := ⟨[{ code := 255, name := "AWKWARD", localSupport := true, remoteSupport := false,
                  associated := true }]⟩
  replies := [255, 251, 3]
  inband := true

def tangled : List Frame :=
  [.data 255, .verb .do_ 255, .data 250, .command .goAhead, .verb .will 250,
    .command .subnegotiationEnd, .verb .dont 255, .data 255, .data 253, .verb .do_ 255]

theorem decodeAll_encodeAll_tangled :
    let r := awkward.decodeAll (Frame.encodeAll tangled)
    awkward.framing = .plain ∧ (Frame.encodeAll tangled).length = 22 ∧ r.1.framing = .plain ∧
      r.1 = awkward.hear [(.do_, 255), (.will, 250), (.dont, 255), (.do_, 255)] ∧
      r.1.options.half 255 .localSide = .settled true ∧
      ∃ groups, groups.flatten = r.2 ∧ List.Forall₂ (Frame.Yields true) tangled groups := by
  intro r
  obtain ⟨hlen, -, hframing, hgroups, hend, hhalf⟩ :=
    decodeAll_encodeAll (e := awkward) rfl tangled
  exact ⟨rfl, hlen, hframing, hend, hhalf 255 .localSide, hgroups⟩

end Endpoint

end VatTerminal.Telnet
