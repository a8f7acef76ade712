import VatTerminal.Proofs.Negotiation.Verbs

/-! # Two endpoints and the wires between them

Either end may at any time request a state, put its replies on the wire, or
read some of the bytes that are on their way to it. Whatever the order, what
is under way is a run of verbs in each direction, and the two halves of every
code and side are in a dialogue about the verbs that concern them.
-/

namespace VatTerminal.Telnet

inductive Party where
  | a | b
  deriving DecidableEq

inductive Act where
  | request (name : String) (side : Side) (enable : Bool)
  | send
  | receive (count : Nat)
  deriving DecidableEq

structure Link where
  a : Endpoint
  b : Endpoint
  toA : List UInt8 := []
  toB : List UInt8 := []
  deriving DecidableEq

namespace Link

def swap (x : Link) : Link := ⟨x.b, x.a, x.toB, x.toA⟩

@[simp] theorem swap_swap (x : Link) : x.swap.swap = x := rfl

/-- What `a` does. A request that fails changes nothing. -/
def act (x : Link) : Act → Link
  | .request name side enable =>
    match x.a.request name side enable with
    | .ok (a, _) => { x with a }
    | .error _ => x
  | .send => { x with a := x.a.takeReplies.2, toB := x.toB ++ x.a.takeReplies.1 }
  | .receive n => { x with a := (x.a.drain (x.toA.take n)).1, toA := x.toA.drop n }

def perform (x : Link) : Party × Act → Link
  | (.a, m) => x.act m
  | (.b, m) => (x.swap.act m).swap

def run (x : Link) (moves : List (Party × Act)) : Link := moves.foldl perform x

def Quiet (x : Link) : Prop :=
  x.a.replies = [] ∧ x.b.replies = [] ∧ x.toA = [] ∧ x.toB = []

end Link

/-- The verbs that `sender` has decided on and `receiver` has not yet read in full. -/
def Underway (sender receiver : Endpoint) (wire : List UInt8) (ms : List Message) : Prop :=
  receiver.framing.read ++ wire ++ sender.replies = encodeMessages ms

/-- Every half of `e` is in a dialogue with its counterpart at `f`. -/
def Talking (e f : Endpoint) (toE toF : List Message) : Prop :=
  ∀ code side, Dialogue (e.options.supports code side) (f.options.supports code side.other)
    (e.options.half code side) (f.options.half code side.other)
    (told toF code side.other) (told toE code side)

namespace Talking

variable {e e' f : Endpoint} {toE toF : List Message} {code : UInt8} {side : Side}

theorem symm (h : Talking e f toE toF) : Talking f e toF toE := by
  intro code side
  simpa using (h code side.other).symm

theorem request {enable : Bool} (h : Talking e f toE toF)
    (ht : e.Turn e' code side
      ((e.options.half code side).request (enable && e.options.supports code side))) :
    Talking e' f toE (toF ++ answers code side
      ((e.options.half code side).request (enable && e.options.supports code side)).2) := by
  intro c d
  rw [ht.moved.supports_eq, ht.moved.half_eq, told_append]
  by_cases hcd : c = code ∧ d = side
  · obtain ⟨rfl, rfl⟩ := hcd
    rw [if_pos ⟨rfl, rfl⟩, told_answers_self]
    exact (h c d).request enable
  · have hne : ¬ (c = code ∧ d.other = side.other) := by
      simpa [Side.other_eq_iff] using hcd
    rw [if_neg hcd, told_answers_of_ne _ hne, List.append_nil]
    exact h c d

theorem receive {v : Verb} (h : Talking e f ((v, code) :: toE) toF)
    (ht : e.Turn e' code v.side
      ((e.options.half code v.side).receive v.enables (e.options.supports code v.side))) :
    Talking e' f toE (toF ++ answers code v.side
      ((e.options.half code v.side).receive v.enables (e.options.supports code v.side)).2) := by
  intro c d
  have hc := h c d
  rw [ht.moved.supports_eq, ht.moved.half_eq, told_append]
  by_cases hcd : c = code ∧ d = v.side
  · obtain ⟨rfl, rfl⟩ := hcd
    rw [if_pos ⟨rfl, rfl⟩, told_answers_self]
    rw [told_cons_self] at hc
    exact hc.symm.receive.symm
  · have hne : ¬ (c = code ∧ d.other = v.side.other) := by
      simpa [Side.other_eq_iff] using hcd
    rw [if_neg hcd, told_answers_of_ne _ hne, List.append_nil]
    rwa [told_cons_of_ne _ hcd] at hc

end Talking

namespace Link

/-- What holds of a link however it has come about. -/
structure Coherent (x : Link) : Prop where
  distinctA : x.a.options.Distinct
  distinctB : x.b.options.Distinct
  talking : ∃ toA toB, Underway x.b x.a x.toA toA ∧ Underway x.a x.b x.toB toB ∧
    Talking x.a x.b toA toB

namespace Coherent

variable {x : Link}

theorem swap (h : x.Coherent) : x.swap.Coherent := by
  obtain ⟨ha, hb, toA, toB, hA, hB, ht⟩ := h
  exact ⟨hb, ha, toB, toA, hB, hA, ht.symm⟩

theorem request (h : x.Coherent) {name : String} {side : Side} {enable : Bool} {e : Endpoint}
    {code : UInt8} (he : x.a.request name side enable = .ok (e, code)) :
    Coherent { x with a := e } := by
  obtain ⟨ha, hb, toA, toB, hA, hB, ht⟩ := h
  have turn := Endpoint.turn_request ha he
  refine ⟨?_, hb, toA, _, ?_, ?_, ht.request turn⟩
  · rw [OptionSet.Distinct, turn.moved.codes_eq]
    exact ha
  · rw [Underway, turn.framing_eq]
    exact hA
  · rw [Underway, turn.replies_eq, encodeMessages_append, ← hB]
    simp

theorem send (h : x.Coherent) :
    Coherent { x with a := x.a.takeReplies.2, toB := x.toB ++ x.a.takeReplies.1 } := by
  obtain ⟨ha, hb, toA, toB, hA, hB, ht⟩ := h
  refine ⟨ha, hb, toA, toB, hA, ?_, ht⟩
  rw [Underway] at hB ⊢
  simpa [Endpoint.takeReplies] using hB

theorem hear (h : x.Coherent) {b : UInt8} {bs : List UInt8} (hx : x.toA = b :: bs) :
    Coherent { x with a := (x.a.step b).1, toA := bs } := by
  obtain ⟨ha, hb, toA, toB, hA, hB, ht⟩ := h
  rw [Underway, hx, List.append_assoc, List.cons_append] at hA
  -- The byte goes into the framing, or completes the first verb that is under way.
  rcases Endpoint.step_of_messages hA with ⟨f, hs, hf⟩ | ⟨v, ns, rfl, hs, hns⟩
  · rw [hs]
    refine ⟨ha, hb, toA, toB, ?_, hB, ht⟩
    rw [Underway, List.append_assoc]
    exact hf
  · have turn := Endpoint.turn_negotiate { x.a with framing := .plain } v b
    rw [hs]
    refine ⟨?_, hb, ns, _, ?_, ?_, Talking.receive (e := { x.a with framing := .plain }) ht turn⟩
    · rw [OptionSet.Distinct, turn.moved.codes_eq]
      exact ha
    · rw [Underway, turn.framing_eq]
      exact hns
    · rw [Underway, turn.replies_eq, encodeMessages_append, ← hB]
      simp

theorem hear_all (h : x.Coherent) {bytes rest : List UInt8} (hx : x.toA = bytes ++ rest) :
    Coherent { x with a := (x.a.drain bytes).1, toA := rest } := by
  induction bytes generalizing x with
  | nil =>
    obtain rfl : x.toA = rest := hx
    exact h
  | cons b bs ih => exact ih (h.hear hx) rfl

theorem act (h : x.Coherent) (m : Act) : (x.act m).Coherent := by
  cases m with
  | request name side enable =>
    rw [Link.act]
    split
    · next he => exact h.request he
    · exact h
  | send => exact h.send
  | receive n => exact h.hear_all (List.take_append_drop n x.toA).symm

theorem perform (h : x.Coherent) (m : Party × Act) : (x.perform m).Coherent := by
  obtain ⟨_ | _, m⟩ := m
  · exact h.act m
  · exact (h.swap.act m).swap

theorem run (h : x.Coherent) (moves : List (Party × Act)) : (x.run moves).Coherent :=
  List.foldlRecOn moves _ h fun _ h m _ => h.perform m

end Coherent

end Link

end VatTerminal.Telnet
