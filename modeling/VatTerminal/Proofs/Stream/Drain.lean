import VatTerminal.Stream

/-! # Reading to the end of a buffer

Draining a buffer is calling for the next event until there is none. It can be
split anywhere, and the replies that have collected beforehand neither change
what is read nor are changed by it.
-/

namespace VatTerminal

namespace Telnet.Endpoint

/-- The same endpoint with further replies in front of its own. -/
def owing (r : List UInt8) (e : Endpoint) : Endpoint := { e with replies := r ++ e.replies }

variable (e : Endpoint) (r : List UInt8)

theorem owing_reply (code : UInt8) (answer : Option Verb) :
    (e.owing r).reply code answer = (e.reply code answer).owing r := by
  simp [owing, reply]

theorem owing_negotiate (v : Verb) (code : UInt8) :
    (e.owing r).negotiate v code =
      ((e.negotiate v code).1.owing r, (e.negotiate v code).2) := by
  simp only [negotiate, show (e.owing r).options = e.options from rfl]
  split
  · rw [owing_reply]
  · next s o answer _ =>
    exact congrArg (·, _) (owing_reply { e with options := s } r code answer)

theorem owing_step (b : UInt8) :
    (e.owing r).step b = ((e.step b).1.owing r, (e.step b).2) := by
  simp only [step, show (e.owing r).framing = e.framing from rfl]
  split
  · split <;> rfl
  · cases Escaped.ofByte b <;> rfl
  · rfl
  · exact owing_negotiate { e with framing := .plain } r _ b

end Telnet.Endpoint

namespace Stream

def owing (r : List UInt8) (s : Stream) : Stream := { s with telnet := s.telnet.owing r }

def replies (s : Stream) : List UInt8 := s.telnet.replies

variable (s : Stream) (r : List UInt8)

@[simp] theorem owing_nil : s.owing [] = s := rfl

theorem owing_append (r r' : List UInt8) : s.owing (r ++ r') = (s.owing r').owing r := by
  simp [owing, Telnet.Endpoint.owing]

theorem replies_owing : (s.owing r).replies = r ++ s.replies := rfl

theorem takeReplies_owing : (s.owing r).takeReplies.2 = s.takeReplies.2 := rfl

theorem owing_takeReplies : s.takeReplies.2.owing s.takeReplies.1 = s := by
  simp [owing, Telnet.Endpoint.owing, takeReplies, Telnet.Endpoint.takeReplies]

theorem owing_step (b : UInt8) :
    (s.owing r).step b = ((s.step b).1.owing r, (s.step b).2) := by
  simp only [step, show (s.owing r).telnet = s.telnet.owing r from rfl,
    Telnet.Endpoint.owing_step]
  rcases s.telnet.step b with ⟨t, _ | e⟩
  · rfl
  · cases e <;> rfl

theorem drain_owing (bytes : List UInt8) :
    (s.owing r).drain bytes = ((s.drain bytes).1.owing r, (s.drain bytes).2) := by
  induction bytes generalizing s with
  | nil => rfl
  | cons b bs ih => simp only [drain, owing_step, ih]

theorem drain_append (xs ys : List UInt8) :
    s.drain (xs ++ ys) =
      (((s.drain xs).1.drain ys).1, (s.drain xs).2 ++ ((s.drain xs).1.drain ys).2) := by
  induction xs generalizing s with
  | nil => rfl
  | cons b bs ih => simp only [List.cons_append, drain, ih, List.append_assoc]

theorem telnet_step (b : UInt8) : (s.step b).1.telnet = (s.telnet.step b).1 := by
  unfold step
  rcases s.telnet.step b with ⟨t, _ | e⟩
  · rfl
  · cases e <;> rfl

theorem telnet_drain (bytes : List UInt8) :
    (s.drain bytes).1.telnet = (s.telnet.drain bytes).1 := by
  induction bytes generalizing s with
  | nil => rfl
  | cons b bs ih =>
    have hrest := ih (s.step b).1
    rw [telnet_step] at hrest
    exact hrest

/-- Decoding reads some bytes off the front, and they hold no other event. -/
theorem exists_read (bytes : List UInt8) :
    ∃ read, bytes = read ++ (s.decode bytes).2.2 ∧
      s.drain read = ((s.decode bytes).1, (s.decode bytes).2.1.toList) := by
  induction bytes generalizing s with
  | nil => exact ⟨[], rfl, rfl⟩
  | cons b bs ih =>
    rw [decode]
    rcases hs : s.step b with ⟨t, _ | e⟩
    · obtain ⟨read, h, hd⟩ := ih t
      refine ⟨b :: read, congrArg (b :: ·) h, ?_⟩
      simp only [drain, hs, hd, Option.toList_none, List.nil_append]
    · refine ⟨[b], rfl, ?_⟩
      simp only [drain, hs, List.append_nil]

/-- The next event is the first of those that draining gives. -/
theorem drain_eq_decode (bytes : List UInt8) :
    s.drain bytes =
      (((s.decode bytes).1.drain (s.decode bytes).2.2).1,
        (s.decode bytes).2.1.toList ++ ((s.decode bytes).1.drain (s.decode bytes).2.2).2) := by
  obtain ⟨read, h, hd⟩ := s.exists_read bytes
  have ha := s.drain_append read (s.decode bytes).2.2
  rwa [← h, hd] at ha

theorem decode_progress (bytes : List UInt8) :
    match s.decode bytes with
    | (_, some _, rest) => ∃ read, read ≠ [] ∧ bytes = read ++ rest
    | (_, none, rest) => rest = [] := by
  obtain ⟨read, hread, hd⟩ := s.exists_read bytes
  split
  · next t e rest h =>
    rw [h] at hread hd
    refine ⟨read, ?_, hread⟩
    rintro rfl
    simp [drain] at hd
  · next t rest h => exact rest_of_decode_none h

def decodeAll (s : Stream) (bytes : List UInt8) : Stream × List TerminalEvent :=
  match _h : s.decode bytes with
  | (s, none, _) => (s, [])
  | (s, some event, rest) =>
    let (s, events) := s.decodeAll rest
    (s, event :: events)
termination_by bytes.length
decreasing_by exact length_decode_lt _h

theorem decodeAll_eq_drain (bytes : List UInt8) : s.decodeAll bytes = s.drain bytes := by
  fun_induction decodeAll s bytes with
  | case1 s bytes t rest h =>
    rw [drain_eq_decode, h, rest_of_decode_none h]
    rfl
  | case2 s bytes t event rest h u events hu ih =>
    rw [drain_eq_decode, h, ← ih, hu]
    rfl

end Stream

end VatTerminal
