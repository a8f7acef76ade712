import VatTerminal.Proofs.Stream.Drain

/-! # What has collected in a stream

Replies and bytes without a meaning collect in a stream until they are taken.
Streams that differ in nothing else read alike.
-/

namespace VatTerminal

namespace Telnet.Endpoint

structure Alike (e f : Endpoint) : Prop where
  framing : e.framing = f.framing
  options : e.options = f.options
  inband : e.inband = f.inband

variable {e f : Endpoint}

theorem Alike.negotiate (h : e.Alike f) (v : Verb) (code : UInt8) :
    (e.negotiate v code).1.Alike (f.negotiate v code).1 ∧
      (e.negotiate v code).2 = (f.negotiate v code).2 := by
  rw [Endpoint.negotiate, Endpoint.negotiate, h.options]
  split
  · exact ⟨⟨h.framing, h.options, h.inband⟩, rfl⟩
  · exact ⟨⟨h.framing, rfl, h.inband⟩, rfl⟩

theorem Alike.step (h : e.Alike f) (b : UInt8) :
    (e.step b).1.Alike (f.step b).1 ∧ (e.step b).2 = (f.step b).2 := by
  have hplain (framing : Framing) :
      ({ e with framing } : Endpoint).Alike { f with framing } := ⟨rfl, h.options, h.inband⟩
  rw [Endpoint.step, Endpoint.step, h.framing]
  split
  · split
    · exact ⟨hplain _, rfl⟩
    · exact ⟨h, rfl⟩
  · cases Escaped.ofByte b with
    | command c =>
      refine ⟨hplain _, ?_⟩
      simp only [commandEvent, h.inband]
    | stray => exact ⟨⟨rfl, h.options, h.inband⟩, rfl⟩
    | _ => exact ⟨hplain _, rfl⟩
  · refine ⟨hplain _, ?_⟩
    simp only [subnegotiationEvent, h.options]
  · exact (hplain .plain).negotiate _ b

end Telnet.Endpoint

namespace Stream

structure Alike (s t : Stream) : Prop where
  telnet : s.telnet.Alike t.telnet
  parser : s.parser = t.parser

variable {s t u : Stream}

theorem Alike.refl (s : Stream) : s.Alike s := ⟨⟨rfl, rfl, rfl⟩, rfl⟩

theorem Alike.trans (h : s.Alike t) (k : t.Alike u) : s.Alike u :=
  ⟨⟨h.telnet.framing.trans k.telnet.framing, h.telnet.options.trans k.telnet.options,
    h.telnet.inband.trans k.telnet.inband⟩, h.parser.trans k.parser⟩

theorem alike_owing (s : Stream) (r : List UInt8) : (s.owing r).Alike s :=
  ⟨⟨rfl, rfl, rfl⟩, rfl⟩

theorem alike_takeStrays (s : Stream) : s.Alike s.takeStrays.2 := ⟨⟨rfl, rfl, rfl⟩, rfl⟩

theorem Alike.step (h : s.Alike t) (b : UInt8) :
    (s.step b).1.Alike (t.step b).1 ∧ (s.step b).2 = (t.step b).2 := by
  obtain ⟨ht, he⟩ := h.telnet.step b
  rw [Stream.step, Stream.step]
  rcases hs : s.telnet.step b with ⟨e, event⟩
  rcases hf : t.telnet.step b with ⟨f, event'⟩
  rw [hs, hf] at ht he
  obtain rfl : event = event' := he
  cases event with
  | none => exact ⟨⟨ht, h.parser⟩, rfl⟩
  | some event =>
    cases event with
    | data b =>
      simp only [accept, h.parser]
      exact ⟨⟨ht, rfl⟩, trivial⟩
    | _ => exact ⟨⟨ht, rfl⟩, rfl⟩

theorem Alike.drain (h : s.Alike t) (bytes : List UInt8) :
    (s.drain bytes).1.Alike (t.drain bytes).1 ∧ (s.drain bytes).2 = (t.drain bytes).2 := by
  induction bytes generalizing s t with
  | nil => exact ⟨h, rfl⟩
  | cons b bs ih =>
    obtain ⟨hs, he⟩ := h.step b
    obtain ⟨hd, hes⟩ := ih hs
    refine ⟨hd, ?_⟩
    simp only [Stream.drain, he, hes]

end Stream

end VatTerminal
