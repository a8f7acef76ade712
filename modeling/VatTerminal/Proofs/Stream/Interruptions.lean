import VatTerminal.Proofs.Negotiation.Passive
import VatTerminal.Proofs.Stream.Alike

/-! # Between the bytes of a command

Telnet sequences may stand anywhere between the bytes of a command. One that
raises no event is passed over, and the command is read on behind it, as it is
behind a filler. One that raises an event ends the command, and what follows is
read as if no command had been begun.
-/

namespace VatTerminal

namespace Telnet

theorem Escaped.ofByte_of_lt {b : UInt8} (h : b < 240) : ofByte b = .stray := by
  have hcommand : Command.ofByte? b = none := by
    refine Option.eq_none_iff_forall_ne_some.mpr fun c hc => ?_
    have hle : 240 ≤ c.byte := by cases c <;> decide
    rw [Command.byte_of_ofByte? hc] at hle
    exact absurd h (UInt8.not_lt.mpr hle)
  have hverb : Verb.ofByte? b = none := by
    refine Option.eq_none_iff_forall_ne_some.mpr fun v hv => ?_
    have hle : 240 ≤ v.byte := by cases v <;> decide
    rw [Verb.byte_of_ofByte? hv] at hle
    exact absurd h (UInt8.not_lt.mpr hle)
  have hquoted : b ≠ iac := by
    rintro rfl
    exact absurd h (by decide)
  have hbegin : b ≠ subnegotiationBegin := by
    rintro rfl
    exact absurd h (by decide)
  rw [ofByte, if_neg hquoted, if_neg hbegin, hcommand, hverb]

namespace Endpoint

variable {e : Endpoint} {bytes : List UInt8}

/-- The sequences that raise no event, whatever has been negotiated: a byte without a meaning after
an `IAC`, and a verb about an option that is not registered. -/
inductive Passes (e : Endpoint) : List UInt8 → Prop
  | stray {b : UInt8} (hb : b < 240) : e.Passes [iac, b]
  | verb (v : Verb) {code : UInt8} (hc : e.options.get? code = none) :
    e.Passes [iac, v.byte, code]

theorem Passes.drain (h : e.Passes bytes) (before : List UInt8) :
    (e.drain before).1.Passes bytes := by
  cases h with
  | stray hb => exact .stray hb
  | verb v hc =>
    refine .verb v ?_
    rw [OptionSet.get?_eq_none_iff, OptionSet.codes_congr (e.labels_drain before)]
    exact OptionSet.get?_eq_none_iff.mp hc

theorem Passes.alike (h : e.Passes bytes) (hp : e.framing = .plain) :
    (e.drain bytes).1.Alike e ∧ (e.drain bytes).2 = [] := by
  have hiac : e.step iac = ({ e with framing := .escaped }, none) := by
    rw [step, hp]
    rfl
  cases h with
  | @stray b hb =>
    have hb' : ({ e with framing := .escaped } : Endpoint).step b =
        ({ e with framing := .plain, strays := e.strays ++ [b] }, none) := by
      simp only [step, Escaped.ofByte_of_lt hb]
    simp only [Endpoint.drain, hiac, hb']
    exact ⟨⟨hp.symm, rfl, rfl⟩, rfl⟩
  | @verb v code hc =>
    have hv : ({ e with framing := .escaped } : Endpoint).step v.byte =
        ({ e with framing := .negotiation v }, none) := by
      simp only [step, Escaped.ofByte_verb]
    have hcode : ({ e with framing := .negotiation v } : Endpoint).step code =
        ({ e with framing := .plain }.reply code (refusal v), none) := by
      simp only [step, negotiate, OptionSet.receive?, hc, Option.map_none]
    simp only [Endpoint.drain, hiac, hv, hcode]
    exact ⟨⟨hp.symm, rfl, rfl⟩, rfl⟩

end Endpoint

end Telnet

namespace Parser

def InArguments : Parser → Prop
  | ground | escape => False
  | arguments _ => True

instance : DecidablePred InArguments
  | ground | escape => inferInstanceAs (Decidable False)
  | arguments _ => inferInstanceAs (Decidable True)

theorem push_pad {p : Parser} (h : ¬ p.InArguments) : p.push Control.pad = (p, none) := by
  cases p with
  | ground => rfl
  | escape => rfl
  | arguments c => exact absurd trivial h

end Parser

namespace Stream

variable {s t : Stream} {before after bytes : List UInt8}

/-- Bytes that leave a stream as it was, but for what collects in it, may be left out. -/
theorem alike_drain_insert (after : List UInt8)
    (h : ((s.drain before).1.drain bytes).1.Alike (s.drain before).1)
    (he : ((s.drain before).1.drain bytes).2 = []) :
    (s.drain (before ++ bytes ++ after)).1.Alike (s.drain (before ++ after)).1 ∧
      (s.drain (before ++ bytes ++ after)).2 = (s.drain (before ++ after)).2 := by
  obtain ⟨ha, hes⟩ := h.drain after
  rw [List.append_assoc, drain_append, drain_append _ bytes, drain_append s before after]
  refine ⟨ha, ?_⟩
  simp only [he, hes, List.nil_append]

theorem drain_of_silent (h : (s.telnet.drain bytes).2 = []) :
    s.drain bytes = ({ s with telnet := (s.telnet.drain bytes).1 }, []) := by
  induction bytes generalizing s with
  | nil => rfl
  | cons b bs ih =>
    simp only [Telnet.Endpoint.drain, List.append_eq_nil_iff, Option.toList_eq_nil_iff] at h
    obtain ⟨hb, hbs⟩ := h
    have hs : s.step b = ({ s with telnet := (s.telnet.step b).1 }, none) := by
      rw [step]
      rcases ht : s.telnet.step b with ⟨t, event⟩
      rw [ht] at hb
      cases hb
      rfl
    simp only [drain, hs, ih (s := { s with telnet := (s.telnet.step b).1 }) hbs,
      Telnet.Endpoint.drain]
    rfl

theorem step_pad (hp : s.telnet.framing = .plain) (ha : ¬ s.parser.InArguments) :
    s.step Control.pad = (s, none) := by
  have ht : s.telnet.step Control.pad = (s.telnet, some (.data Control.pad)) := by
    rw [Telnet.Endpoint.step, hp]
    rfl
  rw [step, ht]
  simp only [accept, Parser.push_pad ha]
  rfl

theorem eq_fresh_of_event {b : UInt8} {e : Telnet.Event} (h : (s.step b).2 = some (.telnet e)) :
    (s.step b).1 = { telnet := (s.telnet.step b).1, parser := .ground } := by
  revert h
  unfold step
  rcases s.telnet.step b with ⟨t, _ | event⟩
  · intro h
    cases h
  · cases event with
    | data d =>
      intro h
      obtain ⟨i, -, hi⟩ := Option.map_eq_some_iff.mp h
      cases hi
    | command c => exact fun _ => rfl
    | option o => exact fun _ => rfl

/-- Up to an event of the endpoint some bytes have been read, and of them nothing is left but what
they did to the endpoint. -/
theorem exists_read_of_event {xs ys : List TerminalEvent} {e : Telnet.Event}
    (h : (s.drain bytes).2 = xs ++ .telnet e :: ys) :
    ∃ read rest : List UInt8, bytes = read ++ rest ∧ s.drain read =
      ({ telnet := (s.telnet.drain read).1, parser := .ground }, xs ++ [.telnet e]) := by
  induction bytes generalizing s xs with
  | nil =>
    rw [drain] at h
    cases List.append_ne_nil_of_right_ne_nil xs (List.cons_ne_nil _ ys) h.symm
  | cons b bs ih =>
    cases hb : (s.step b).2 with
    | none =>
      simp only [drain, hb, Option.toList_none, List.nil_append] at h
      obtain ⟨read, rest, rfl, hd⟩ := ih h
      refine ⟨b :: read, rest, rfl, ?_⟩
      simp only [drain, hb, hd, Telnet.Endpoint.drain, telnet_step, Option.toList_none,
        List.nil_append]
    | some event =>
      simp only [drain, hb, Option.toList_some, List.singleton_append] at h
      cases xs with
      | nil =>
        obtain ⟨rfl, -⟩ := List.cons.inj h
        refine ⟨[b], bs, rfl, ?_⟩
        simp only [drain, hb, Option.toList_some, List.append_nil, List.nil_append,
          eq_fresh_of_event hb, Telnet.Endpoint.drain]
      | cons x xs =>
        obtain ⟨rfl, hbs⟩ := List.cons.inj h
        obtain ⟨read, rest, rfl, hd⟩ := ih hbs
        refine ⟨b :: read, rest, rfl, ?_⟩
        simp only [drain, hb, hd, Telnet.Endpoint.drain, telnet_step, Option.toList_some,
          List.cons_append, List.nil_append]

/-- A sequence that raises no event may be left out wherever the framing is plain, and so may a
filler where no argument is read: the same events come of the rest, and the stream ends up the same
but for what has collected in it. Any event of the endpoint leaves the parser between commands. What
follows it is read as by a stream that has an endpoint in the same state and has read nothing. -/
theorem decodeAll_interrupted (s : Stream) :
    (∀ before after bytes : List UInt8, (s.decodeAll before).1.telnet.framing = .plain →
      s.telnet.Passes bytes →
      (s.decodeAll (before ++ bytes ++ after)).2 = (s.decodeAll (before ++ after)).2 ∧
        (s.decodeAll (before ++ bytes ++ after)).1.Alike (s.decodeAll (before ++ after)).1) ∧
    (∀ before after : List UInt8, (s.decodeAll before).1.telnet.framing = .plain →
      ¬ (s.decodeAll before).1.parser.InArguments →
      s.decodeAll (before ++ [Control.pad] ++ after) = s.decodeAll (before ++ after)) ∧
    ∀ bytes xs e ys, (s.decodeAll bytes).2 = xs ++ .telnet e :: ys →
      ∃ read rest : List UInt8, bytes = read ++ rest ∧
        let fresh : Stream := { telnet := (s.telnet.drain read).1, parser := .ground }
        s.decodeAll read = (fresh, xs ++ [.telnet e]) ∧
          fresh.decodeAll rest = ((s.decodeAll bytes).1, ys) := by
  simp only [decodeAll_eq_drain]
  refine ⟨?_, ?_, ?_⟩
  · intro before after bytes hp hq
    have hpasses : (s.drain before).1.telnet.Passes bytes := by
      rw [telnet_drain]
      exact hq.drain before
    obtain ⟨halike, hsilent⟩ := hpasses.alike hp
    have hd := drain_of_silent hsilent
    obtain ⟨ha, he⟩ := alike_drain_insert after (by rw [hd]; exact ⟨halike, rfl⟩)
      (congrArg Prod.snd hd)
    exact ⟨he, ha⟩
  · intro before after hp ha
    have hd : (s.drain before).1.drain [Control.pad] = ((s.drain before).1, []) := by
      rw [drain, step_pad hp ha]
      rfl
    rw [List.append_assoc, drain_append, drain_append _ [Control.pad], hd, drain_append s before]
    rfl
  · intro bytes xs e ys h
    obtain ⟨read, rest, rfl, hd⟩ := exists_read_of_event h
    refine ⟨read, rest, rfl, hd, ?_⟩
    rw [drain_append, hd] at h
    rw [drain_append, hd]
    simp only [List.append_assoc, List.singleton_append, List.append_cancel_left_eq] at h
    exact Prod.ext rfl (List.cons.inj h).2

def paired : Stream := { telnet := { options := Telnet.Endpoint.pairSet } }

/-- A refused option in the middle of a number of three bytes, a filler behind an escape, and a
command of the endpoint after the first of two numbers. -/
theorem decodeAll_interrupted_midway :
    let half : List UInt8 := [27, 32, 30, 33]
    let refused : List UInt8 := [255, 251, 99]
    let broken : List UInt8 := [27, 32, 40, 255, 241, 41, 7]
    let after : List TerminalEvent := [.instruction (.print 41), .instruction .bell]
    ((paired.decodeAll half).1.telnet.framing = .plain ∧ paired.telnet.Passes refused ∧
      (paired.decodeAll (half ++ refused ++ [34, 40])).2 =
        [TerminalEvent.instruction (.position 66 8)]) ∧
    ((paired.decodeAll [27]).1.telnet.framing = .plain ∧
      ¬ (paired.decodeAll [27]).1.parser.InArguments ∧
      (paired.decodeAll ([27] ++ [Control.pad] ++ [45])).2 =
        [TerminalEvent.instruction .interrogate]) ∧
    (paired.decodeAll broken).2 = [] ++ TerminalEvent.telnet (.command .noOperation) :: after ∧
    ∃ read rest : List UInt8, broken = read ++ rest ∧
      (paired.decodeAll read).1.parser = .ground := by
  intro half refused broken after
  obtain ⟨hpass, hpad, hevent⟩ := decodeAll_interrupted paired
  have hplain : (paired.decodeAll half).1.telnet.framing = .plain := by
    rw [decodeAll_eq_drain]
    decide
  have hescape : (paired.decodeAll [27]).1.telnet.framing = .plain ∧
      ¬ (paired.decodeAll [27]).1.parser.InArguments := by
    rw [decodeAll_eq_drain]
    decide
  have hq : paired.telnet.Passes refused := .verb .will (by decide)
  have hbroken : (paired.decodeAll broken).2 =
      [] ++ TerminalEvent.telnet (.command .noOperation) :: after := by
    rw [decodeAll_eq_drain]
    decide +kernel
  refine ⟨⟨hplain, hq, ?_⟩, ⟨hescape.1, hescape.2, ?_⟩, hbroken, ?_⟩
  · rw [(hpass half [34, 40] _ hplain hq).1, decodeAll_eq_drain]
    decide +kernel
  · rw [hpad [27] [45] hescape.1 hescape.2, decodeAll_eq_drain]
    decide +kernel
  · obtain ⟨read, rest, hr, hd, -⟩ := hevent broken _ _ _ hbroken
    exact ⟨read, rest, hr, congrArg (·.1.parser) hd⟩

end Stream

end VatTerminal
