import Mathlib.Logic.Function.Iterate
import VatTerminal.Proofs.Negotiation.Link

/-! # Threads

All that concerns one option on one side is a thread of its own: the halves at
the two ends, and the words on their way to either. Whatever an end does, each
thread of the link either asks, or reads some of its words, or stays as it is.
-/

namespace VatTerminal.Telnet

/-- One end of a thread, with the words on their way to it, oldest first. -/
structure Speaker where
  half : Half
  supported : Bool
  inbox : List Bool := []
  deriving DecidableEq

def Speaker.tell (s : Speaker) (words : List Bool) : Speaker :=
  { s with inbox := s.inbox ++ words }

structure Thread where
  us : Speaker
  them : Speaker
  deriving DecidableEq

namespace Thread

def swap (t : Thread) : Thread := ⟨t.them, t.us⟩

@[simp] theorem swap_swap (t : Thread) : t.swap.swap = t := rfl

/-- Our half asks for a state. To enable what is not supported is to disable it. -/
def ask (enable : Bool) (t : Thread) : Thread :=
  let r := t.us.half.request (enable && t.us.supported)
  { us := { t.us with half := r.1 }, them := t.them.tell r.2.words }

def hear (t : Thread) : Thread :=
  match t.us.inbox with
  | [] => t
  | on :: rest =>
    let r := t.us.half.receive on t.us.supported
    { us := { t.us with half := r.1, inbox := rest }, them := t.them.tell r.2.words }

theorem inbox_hear (t : Thread) : t.hear.us.inbox = t.us.inbox.tail := by
  unfold hear
  split
  · next h => rw [h]; rfl
  · next h => rw [h]; rfl

end Thread

def decodeMessages : List UInt8 → List Message
  | _ :: v :: code :: rest =>
    match Verb.ofByte? v with
    | some v => (v, code) :: decodeMessages rest
    | none => []
  | _ => []

@[simp] theorem decodeMessages_encodeMessages (ms : List Message) :
    decodeMessages (encodeMessages ms) = ms := by
  induction ms with
  | nil => rfl
  | cons m ms ih => rw [encodeMessages_cons, decodeMessages, Verb.ofByte?_byte, ih]

theorem length_encodeMessages (ms : List Message) :
    (encodeMessages ms).length = 3 * ms.length := by
  induction ms with
  | nil => rfl
  | cons m ms ih =>
    simp only [encodeMessages_cons, List.length_cons, ih]
    omega

namespace Link

variable {x : Link}

/-- The verbs that `b` has decided on and `a` has not yet read in full. -/
def inbox (x : Link) : List Message :=
  decodeMessages (x.a.framing.read ++ x.toA ++ x.b.replies)

def speaker (x : Link) (code : UInt8) (side : Side) : Speaker where
  half := x.a.options.half code side
  supported := x.a.options.supports code side
  inbox := told x.inbox code side

def thread (x : Link) (code : UInt8) (side : Side) : Thread where
  us := x.speaker code side
  them := x.swap.speaker code side.other

theorem thread_swap (x : Link) (code : UInt8) (side : Side) :
    x.swap.thread code side.other = (x.thread code side).swap := by
  simp [thread, Thread.swap]

def hear (x : Link) (bytes rest : List UInt8) : Link :=
  { x with a := (x.a.drain bytes).1, toA := rest }

theorem hear_cons (x : Link) (b : UInt8) (bs rest : List UInt8) :
    x.hear (b :: bs) rest = (x.hear [b] (bs ++ rest)).hear bs rest := rfl

/-- What is under way are whole verbs, and no two options of an end share a code. -/
structure Sound (x : Link) : Prop where
  distinctA : x.a.options.Distinct
  distinctB : x.b.options.Distinct
  toA : Underway x.b x.a x.toA x.inbox
  toB : Underway x.a x.b x.toB x.swap.inbox

theorem inbox_of_underway {ms : List Message} (h : Underway x.b x.a x.toA ms) : x.inbox = ms := by
  rw [inbox, h, decodeMessages_encodeMessages]

theorem Sound.swap (h : x.Sound) : x.swap.Sound :=
  ⟨h.distinctB, h.distinctA, h.toB, h.toA⟩

theorem sound_of_underway {toA toB : List Message} (ha : x.a.options.Distinct)
    (hb : x.b.options.Distinct) (hA : Underway x.b x.a x.toA toA)
    (hB : Underway x.a x.b x.toB toB) : x.Sound ∧ x.inbox = toA ∧ x.swap.inbox = toB := by
  have h₁ := inbox_of_underway hA
  have h₂ := inbox_of_underway (x := x.swap) hB
  exact ⟨⟨ha, hb, h₁ ▸ hA, h₂ ▸ hB⟩, h₁, h₂⟩

section Steps

variable {y : Link} {e : Endpoint} {code : UInt8} {side : Side} {r : Half × Verdict}
  {ms : List Message}

/-- A turn of one half, when `ms` are left to be read, changes its own thread and no other. -/
theorem Sound.turn (h : x.Sound) (ht : e.Turn y.a code side r) (ho : e.options = x.a.options)
    (hr : e.replies = x.a.replies) (hb : y.b = x.b) (hw : y.toB = x.toB)
    (hA : Underway y.b y.a y.toA ms) :
    y.Sound ∧ y.inbox = ms ∧ ∀ c d, y.thread c d =
      if c = code ∧ d = side then
        { us := { x.speaker c d with half := r.1, inbox := told ms c d }
          them := (x.thread c d).them.tell r.2.words }
      else
        { us := { x.speaker c d with inbox := told ms c d }, them := (x.thread c d).them } := by
  have ha : y.a.options.Distinct := by
    rw [OptionSet.Distinct, ht.moved.codes_eq, ho]
    exact h.distinctA
  have hB : Underway y.a y.b y.toB (x.swap.inbox ++ answers code side r.2) := by
    rw [Underway, ht.replies_eq, encodeMessages_append, ← h.toB, hb, hw, hr]
    simp
  obtain ⟨hy, hi, hs⟩ := sound_of_underway ha (hb ▸ h.distinctB) hA hB
  refine ⟨hy, hi, ?_⟩
  intro c d
  have hthem : y.swap.speaker c d.other =
      (x.swap.speaker c d.other).tell (told (answers code side r.2) c d.other) := by
    simp only [speaker, Speaker.tell, hs, told_append, show y.swap.a = y.b from rfl,
      show x.swap.a = x.b from rfl, hb]
  rw [thread, hthem, speaker, hi, ht.moved.supports_eq, ht.moved.half_eq, ho]
  by_cases hcd : c = code ∧ d = side
  · obtain ⟨rfl, rfl⟩ := hcd
    rw [if_pos ⟨rfl, rfl⟩, if_pos ⟨rfl, rfl⟩, told_answers_self]
    rfl
  · have hne : ¬ (c = code ∧ d.other = side.other) := by
      simpa [Side.other_eq_iff] using hcd
    rw [if_neg hcd, if_neg hcd, told_answers_of_ne _ hne, Speaker.tell, List.append_nil]
    rfl

theorem Sound.still (h : x.Sound) (ha : y.a.options = x.a.options) (hb : y.b.options = x.b.options)
    (hA : Underway y.b y.a y.toA x.inbox) (hB : Underway y.a y.b y.toB x.swap.inbox) :
    y.Sound ∧ y.inbox = x.inbox ∧ ∀ c d, y.thread c d = x.thread c d := by
  obtain ⟨hy, hi, hs⟩ := sound_of_underway (ha ▸ h.distinctA) (hb ▸ h.distinctB) hA hB
  refine ⟨hy, hi, ?_⟩
  intro c d
  simp only [thread, speaker, hi, hs, ha, show y.swap.a = y.b from rfl,
    show x.swap.a = x.b from rfl, hb]

/-- A request that is granted is asked on the thread of its code and side, and on no other. -/
theorem Sound.request (h : x.Sound) {name : String} {enable : Bool}
    (he : x.a.request name side enable = .ok (e, code)) :
    ({ x with a := e } : Link).Sound ∧ ∀ c d, ({ x with a := e } : Link).thread c d =
      if c = code ∧ d = side then (x.thread c d).ask enable else x.thread c d := by
  have turn := Endpoint.turn_request h.distinctA he
  have hA : Underway x.b e x.toA x.inbox := by
    rw [Underway, turn.framing_eq]
    exact h.toA
  obtain ⟨hy, -, ht⟩ := h.turn (y := { x with a := e }) turn rfl rfl rfl rfl hA
  refine ⟨hy, ?_⟩
  intro c d
  rw [ht]
  by_cases hcd : c = code ∧ d = side
  · obtain ⟨rfl, rfl⟩ := hcd
    rw [if_pos ⟨rfl, rfl⟩, if_pos ⟨rfl, rfl⟩]
    rfl
  · rw [if_neg hcd, if_neg hcd]
    rfl

theorem Sound.send (h : x.Sound) :
    (x.act .send).Sound ∧ (x.act .send).inbox = x.inbox ∧
      ∀ c d, (x.act .send).thread c d = x.thread c d := by
  refine h.still rfl rfl h.toA ?_
  have := h.toB
  rw [Underway] at this ⊢
  simpa [Link.act, Endpoint.takeReplies] using this

/-- A byte is kept in the framing, or it completes a verb and the verb's thread hears. -/
theorem Sound.hear_byte (h : x.Sound) {b : UInt8} {bs : List UInt8} (hx : x.toA = b :: bs) :
    (x.hear [b] bs).Sound ∧
      ((x.hear [b] bs).inbox = x.inbox ∧ (∀ c d, (x.hear [b] bs).thread c d = x.thread c d) ∨
        ∃ v, x.inbox = (v, b) :: (x.hear [b] bs).inbox ∧ ∀ c d, (x.hear [b] bs).thread c d =
          if c = b ∧ d = v.side then (x.thread c d).hear else x.thread c d) := by
  have hA := h.toA
  rw [Underway, hx, List.append_assoc, List.cons_append] at hA
  rcases Endpoint.step_of_messages hA with ⟨f, hs, hf⟩ | ⟨v, ns, hm, hs, hns⟩
  · have hy : x.hear [b] bs = { x with a := { x.a with framing := f }, toA := bs } :=
      congrArg (fun a => ({ x with a, toA := bs } : Link)) hs
    rw [hy]
    obtain ⟨hy, hi, ht⟩ := h.still (y := { x with a := { x.a with framing := f }, toA := bs })
      rfl rfl (by rw [Underway, List.append_assoc]; exact hf) h.toB
    exact ⟨hy, .inl ⟨hi, ht⟩⟩
  · have turn := Endpoint.turn_negotiate { x.a with framing := .plain } v b
    rw [← hs] at turn
    have hA' : Underway x.b (x.a.step b).1 bs ns := by
      rw [Underway, turn.framing_eq]
      exact hns
    obtain ⟨hy, hi, ht⟩ := h.turn (y := x.hear [b] bs) turn rfl rfl rfl rfl hA'
    refine ⟨hy, .inr ⟨v, hi ▸ hm, ?_⟩⟩
    intro c d
    rw [ht]
    by_cases hcd : c = b ∧ d = v.side
    · obtain ⟨rfl, rfl⟩ := hcd
      have hin : (x.thread c v.side).us.inbox = v.enables :: told ns c v.side := by
        rw [← told_cons_self, ← hm]
        rfl
      rw [if_pos ⟨rfl, rfl⟩, if_pos ⟨rfl, rfl⟩, Thread.hear, hin]
      rfl
    · have hin : told ns c d = (x.speaker c d).inbox := by
        rw [← told_cons_of_ne ns hcd, ← hm]
        rfl
      rw [if_neg hcd, if_neg hcd, hin]
      rfl

theorem Sound.hear (h : x.Sound) {bytes rest : List UInt8} (hx : x.toA = bytes ++ rest) :
    (x.hear bytes rest).Sound ∧ ∃ read, x.inbox = read ++ (x.hear bytes rest).inbox ∧
      ∀ c d, (x.hear bytes rest).thread c d =
        Thread.hear^[(told read c d).length] (x.thread c d) := by
  induction bytes generalizing x with
  | nil =>
    obtain rfl : x.toA = rest := hx
    exact ⟨h, [], rfl, fun c d => rfl⟩
  | cons b bs ih =>
    rw [List.cons_append] at hx
    obtain ⟨hz, hb⟩ := h.hear_byte hx
    obtain ⟨hy, read, hi, ht⟩ := ih hz rfl
    rw [hear_cons]
    refine ⟨hy, ?_⟩
    rcases hb with ⟨hin, hth⟩ | ⟨v, hin, hth⟩
    · exact ⟨read, hin ▸ hi, fun c d => by rw [← hth]; exact ht c d⟩
    · refine ⟨(v, b) :: read, by rw [hin, hi]; rfl, ?_⟩
      intro c d
      rw [ht, hth]
      by_cases he : c = b ∧ d = v.side
      · obtain ⟨rfl, rfl⟩ := he
        rw [if_pos ⟨rfl, rfl⟩, told_cons_self, List.length_cons, Function.iterate_succ_apply]
      · rw [if_neg he, told_cons_of_ne _ he]

theorem Sound.receive (h : x.Sound) (n : Nat) :
    (x.act (.receive n)).Sound ∧ ∃ read, x.inbox = read ++ (x.act (.receive n)).inbox ∧
      ∀ c d, (x.act (.receive n)).thread c d =
        Thread.hear^[(told read c d).length] (x.thread c d) :=
  h.hear (List.take_append_drop n x.toA).symm

end Steps

end Link

end VatTerminal.Telnet
