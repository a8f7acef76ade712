import Mathlib.Algebra.Order.BigOperators.Group.Finset
import Mathlib.Data.FinEnum
import VatTerminal.Proofs.Negotiation.Patience

/-! # Deliveries

Without requests a link comes to rest. Of the bytes that are delivered every
third completes a verb, and each verb uses up some of the patience of all
threads together, of which there is only so much.
-/

namespace VatTerminal.Telnet

def Act.isRequest : Act → Bool
  | .request _ _ _ => true
  | .send | .receive _ => false

namespace Link

structure Calm (x : Link) : Prop where
  sound : x.Sound
  threads : ∀ code side, (x.thread code side).Calm

variable {x : Link}

theorem Calm.swap (h : x.Calm) : x.swap.Calm where
  sound := h.sound.swap
  threads code side := by
    rw [← side.other_other, thread_swap]
    exact (h.threads code side.other).swap

theorem Calm.act (h : x.Calm) (m : Act) : (x.act m).Calm := by
  cases m with
  | request name side enable =>
    rw [Link.act]
    split
    · next e code he =>
      obtain ⟨hs, ht⟩ := h.sound.request he
      refine ⟨hs, ?_⟩
      intro c d
      rw [ht]
      split
      · exact (h.threads c d).ask enable
      · exact h.threads c d
    · exact h
  | send =>
    obtain ⟨hs, -, ht⟩ := h.sound.send
    exact ⟨hs, fun c d => by rw [ht]; exact h.threads c d⟩
  | receive n =>
    obtain ⟨hs, read, -, ht⟩ := h.sound.receive n
    exact ⟨hs, fun c d => by rw [ht]; exact ((h.threads c d).hears _).1⟩

theorem Calm.perform (h : x.Calm) (m : Party × Act) : (x.perform m).Calm := by
  obtain ⟨_ | _, m⟩ := m
  · exact h.act m
  · exact (h.swap.act m).swap

theorem Calm.run (h : x.Calm) (moves : List (Party × Act)) : (x.run moves).Calm :=
  List.foldlRecOn moves _ h fun _ h m _ => h.perform m

def patience (x : Link) : Nat :=
  ∑ code : UInt8,
    ((x.thread code .localSide).patience + (x.thread code .remoteSide).patience)

theorem patience_swap (x : Link) : x.swap.patience = x.patience := by
  refine Finset.sum_congr rfl ?_
  intro code _
  have hl : x.swap.thread code .localSide = (x.thread code .remoteSide).swap :=
    x.thread_swap code .remoteSide
  have hr : x.swap.thread code .remoteSide = (x.thread code .localSide).swap :=
    x.thread_swap code .localSide
  rw [hl, hr, Thread.patience_swap, Thread.patience_swap, Nat.add_comm]

theorem Calm.patience_le (h : x.Calm) : x.patience ≤ 3584 := by
  have hs := Finset.sum_le_card_nsmul Finset.univ
    (fun code => (x.thread code .localSide).patience + (x.thread code .remoteSide).patience) 14
    fun code _ => Nat.add_le_add (h.threads code .localSide).patience_le
      (h.threads code .remoteSide).patience_le
  rwa [Finset.card_univ, ← FinEnum.card_eq_fintypeCard, FinEnum.card_UInt8] at hs

theorem patience_lt {y : Link} (h : ∀ c d, (y.thread c d).patience ≤ (x.thread c d).patience)
    (code : UInt8) (side : Side)
    (hlt : (y.thread code side).patience < (x.thread code side).patience) :
    y.patience < x.patience := by
  refine Finset.sum_lt_sum (fun c _ => Nat.add_le_add (h c _) (h c _)) ⟨code, Finset.mem_univ _, ?_⟩
  cases side with
  | localSide => exact Nat.add_lt_add_of_lt_of_le hlt (h code _)
  | remoteSide => exact Nat.add_lt_add_of_le_of_lt (h code _) hlt

/-- Bytes that the ends have read of verbs they have not read in full. -/
def held (x : Link) : Nat := x.a.framing.read.length + x.b.framing.read.length

theorem held_swap (x : Link) : x.swap.held = x.held := Nat.add_comm _ _

theorem Sound.length_inbox (h : x.Sound) :
    x.a.framing.read.length + x.toA.length + x.b.replies.length = 3 * x.inbox.length := by
  rw [← length_encodeMessages, ← h.toA, List.length_append, List.length_append]

/-- A byte that is read is held, or gives back what was held and uses up patience. -/
theorem Calm.hear_byte (h : x.Calm) {b : UInt8} {bs : List UInt8} (hx : x.toA = b :: bs) :
    (x.hear [b] bs).Calm ∧
      1 + x.held + 3 * (x.hear [b] bs).patience ≤ 3 * x.patience + (x.hear [b] bs).held := by
  obtain ⟨hy, hb⟩ := h.sound.hear_byte hx
  have hread : (x.hear [b] bs).held =
      (x.hear [b] bs).a.framing.read.length + x.b.framing.read.length := rfl
  have hheld : x.held = x.a.framing.read.length + x.b.framing.read.length := rfl
  rcases hb with ⟨hi, ht⟩ | ⟨v, hi, ht⟩
  · have hp : (x.hear [b] bs).patience = x.patience := by simp only [patience, ht]
    have hlx : x.a.framing.read.length + x.toA.length + x.b.replies.length = 3 * x.inbox.length :=
      h.sound.length_inbox
    have hly : (x.hear [b] bs).a.framing.read.length + bs.length + x.b.replies.length =
        3 * (x.hear [b] bs).inbox.length := hy.length_inbox
    rw [hx, List.length_cons] at hlx
    rw [hi] at hly
    refine ⟨⟨hy, fun c d => by rw [ht]; exact h.threads c d⟩, ?_⟩
    omega
  · have hc (c : UInt8) (d : Side) : ((x.hear [b] bs).thread c d).Calm ∧
        ((x.hear [b] bs).thread c d).patience ≤ (x.thread c d).patience := by
      rw [ht]
      split
      · exact ⟨(h.threads c d).hear.1, Nat.le_of_add_right_le (h.threads c d).hear.2⟩
      · exact ⟨h.threads c d, Nat.le_refl _⟩
    have hlt : (x.hear [b] bs).patience < x.patience := by
      refine patience_lt (fun c d => (hc c d).2) b v.side ?_
      have hin : (x.thread b v.side).us.inbox =
          v.enables :: told (x.hear [b] bs).inbox b v.side := by
        rw [← told_cons_self, ← hi]
        rfl
      have := (h.threads b v.side).hear.2
      rw [hin, List.length_cons] at this
      rw [ht, if_pos ⟨rfl, rfl⟩]
      omega
    have := x.a.framing.length_read_lt
    exact ⟨⟨hy, fun c d => (hc c d).1⟩, by omega⟩

theorem Calm.hear (h : x.Calm) {bytes rest : List UInt8} (hx : x.toA = bytes ++ rest) :
    bytes.length + x.held + 3 * (x.hear bytes rest).patience ≤
      3 * x.patience + (x.hear bytes rest).held := by
  induction bytes generalizing x with
  | nil =>
    obtain rfl : x.toA = rest := hx
    rw [List.length_nil, Nat.zero_add, Nat.add_comm]
    exact Nat.le_refl _
  | cons b bs ih =>
    rw [List.cons_append] at hx
    obtain ⟨hz, hp⟩ := h.hear_byte hx
    have := ih hz rfl
    rw [hear_cons, List.length_cons]
    omega

end Link

def Act.taken (wire : List UInt8) : Act → Nat
  | .receive n => min n wire.length
  | .request _ _ _ | .send => 0

namespace Link

variable {x : Link}

def taken (x : Link) : Party × Act → Nat
  | (.a, m) => m.taken x.toA
  | (.b, m) => m.taken x.toB

/-- How many of the moves read at least one byte. -/
def deliveries (x : Link) : List (Party × Act) → Nat
  | [] => 0
  | m :: ms => (if 0 < x.taken m then 1 else 0) + (x.perform m).deliveries ms

theorem Calm.taken_act (h : x.Calm) {m : Act} (hm : m.isRequest = false) :
    m.taken x.toA + x.held + 3 * (x.act m).patience ≤ 3 * x.patience + (x.act m).held := by
  cases m with
  | request name side enable => cases hm
  | send =>
    have hp : (x.act .send).patience = x.patience := by simp only [patience, h.sound.send.2.2]
    have hd : (x.act .send).held = x.held := rfl
    rw [Act.taken, hp, hd]
    omega
  | receive n =>
    have := h.hear (List.take_append_drop n x.toA).symm
    rwa [List.length_take] at this

theorem Calm.taken_perform (h : x.Calm) {m : Party × Act} (hm : m.2.isRequest = false) :
    x.taken m + x.held + 3 * (x.perform m).patience ≤ 3 * x.patience + (x.perform m).held := by
  obtain ⟨_ | _, m⟩ := m
  · exact h.taken_act hm
  · have := h.swap.taken_act hm
    rw [patience_swap, held_swap, ← patience_swap, ← held_swap (x.swap.act m)] at this
    exact this

/-- Every delivery is paid for by patience, up to the few bytes that are held. -/
theorem Calm.deliveries_le (h : x.Calm) {moves : List (Party × Act)}
    (hm : ∀ m ∈ moves, m.2.isRequest = false) :
    x.deliveries moves + x.held ≤ 3 * x.patience + 4 := by
  have hle (y : Link) : y.held ≤ 4 := by
    have ha := y.a.framing.length_read_lt
    have hb := y.b.framing.length_read_lt
    unfold held
    omega
  induction moves generalizing x with
  | nil =>
    have := hle x
    rw [deliveries]
    omega
  | cons m ms ih =>
    have hp := h.taken_perform (hm m List.mem_cons_self)
    have hd := ih (h.perform m) fun m' hm' => hm m' (List.mem_cons_of_mem m hm')
    rw [deliveries]
    split <;> omega

end Link

end VatTerminal.Telnet
