import VatTerminal.Proofs.Negotiation.Agreement
import VatTerminal.Proofs.Negotiation.Deliveries
import VatTerminal.Telnet.Exchange

/-! # Rounds

In a round of the lockstep exchange every thread with a word under way reads
one at least. The rounds until both ends are quiet are therefore bounded by the
patience of a single thread, and not by the number of options.
-/

namespace VatTerminal

open Telnet

/-- An option as it can be registered: new, or already asked for by its maker. -/
def TelnetOption.Unheard (o : TelnetOption) : Prop :=
  ∃ new : TelnetOption, new.IsNew ∧ ∃ wishes : List (Side × Bool),
    o = wishes.foldl (fun o w => (o.request w.1 w.2).1) new

def TelnetOption.Modest (o : TelnetOption) : Prop :=
  ∀ side, (o.half side).Modest (o.support side)

theorem TelnetOption.Modest.request {o : TelnetOption} (h : o.Modest) (side : Side)
    (enable : Bool) : (o.request side enable).1.Modest := by
  intro d
  rw [TelnetOption.request, support_setHalf]
  by_cases hd : side = d
  · subst hd
    rw [half_setHalf]
    exact (h side).request enable
  · rw [half_setHalf_of_ne _ _ _ _ hd]
    exact h d

theorem TelnetOption.Unheard.modest {o : TelnetOption} (h : o.Unheard) : o.Modest := by
  obtain ⟨new, ⟨hus, hhim⟩, wishes, rfl⟩ := h
  have hn : new.Modest := by
    intro side _
    cases side
    · exact congrArg Half.state hus
    · exact congrArg Half.state hhim
  clear hus hhim
  induction wishes generalizing new with
  | nil => exact hn
  | cons w ws ih => exact ih _ (hn.request w.1 w.2)

namespace Telnet

namespace OptionSet

variable {s t : OptionSet}

theorem addAll_ok {os : List TelnetOption} (hs : s.Distinct) (h : s.addAll os = .ok t) :
    t.Distinct ∧ t.entries = s.entries ++ os.map ({ · with associated := true }) := by
  induction os generalizing s with
  | nil =>
    obtain rfl : s = t := by simpa [addAll, pure, Except.pure] using h
    exact ⟨hs, (List.append_nil _).symm⟩
  | cons o os ih =>
    rw [addAll, List.foldlM_cons] at h
    cases ha : s.add o with
    | error e => simp [ha, bind, Except.bind] at h
    | ok u =>
      rw [ha] at h
      obtain ⟨hd, he⟩ := distinct_add hs ha
      obtain ⟨hd', he'⟩ := ih hd h
      exact ⟨hd', by rw [he', he]; simp⟩

theorem modest_half (h : ∀ o ∈ s.entries, o.Modest) (code : UInt8) (side : Side) :
    (s.half code side).Modest (s.supports code side) := by
  cases ho : s.get? code with
  | none =>
    intro _
    rw [half, ho]
    rfl
  | some o =>
    rw [half_of_get? ho, supports_of_get? ho]
    exact h o (List.mem_of_find?_eq_some ho) side

end OptionSet

namespace Thread

variable {t : Thread}

def hearAll (t : Thread) : Thread := hear^[t.us.inbox.length] t

/-- They read all, and then we do. -/
def round (t : Thread) : Thread := t.swap.hearAll.swap.hearAll

theorem hearAll_of_nil (h : t.us.inbox = []) : t.hearAll = t := by
  rw [hearAll, h]
  rfl

theorem Calm.hearAll (h : t.Calm) :
    t.hearAll.Calm ∧ t.hearAll.patience + t.us.inbox.length ≤ t.patience := by
  obtain ⟨hc, hp⟩ := h.hears t.us.inbox.length
  rw [Nat.min_self] at hp
  exact ⟨hc, hp⟩

theorem inbox_them_hear_le (t : Thread) : t.them.inbox.length ≤ t.hear.them.inbox.length := by
  unfold hear
  split
  · exact Nat.le_refl _
  · simp [Speaker.tell]

theorem inbox_them_hears_le (t : Thread) (n : Nat) :
    t.them.inbox.length ≤ (hear^[n] t).them.inbox.length := by
  induction n generalizing t with
  | zero => exact Nat.le_refl _
  | succ n ih =>
    rw [Function.iterate_succ_apply]
    exact Nat.le_trans t.inbox_them_hear_le (ih t.hear)

/-- A round reads every word that is under way when it begins. -/
theorem Calm.round (h : t.Calm) :
    t.round.patience + (t.us.inbox.length + t.them.inbox.length) ≤ t.patience := by
  obtain ⟨hc, hp⟩ := h.swap.hearAll
  obtain ⟨-, hp'⟩ := hc.swap.hearAll
  have hle : t.us.inbox.length ≤ t.swap.hearAll.swap.us.inbox.length :=
    t.swap.inbox_them_hears_le t.them.inbox.length
  have hin : t.swap.us.inbox.length = t.them.inbox.length := rfl
  rw [patience_swap, hin] at hp
  rw [patience_swap] at hp'
  rw [Thread.round]
  omega

/-- Nothing is under way, or the thread is at its end in so many words. -/
def EndsIn (t : Thread) (n : Nat) : Prop :=
  (t.us.inbox = [] ∧ t.them.inbox = []) ∨ t.patience ≤ n

theorem EndsIn.silent (h : t.EndsIn 0) : t.us.inbox = [] ∧ t.them.inbox = [] := by
  rcases h with h | h
  · exact h
  · have hus := t.us.inbox_le_patience
    have hthem := t.them.inbox_le_patience
    unfold patience at h
    exact ⟨List.length_eq_zero_iff.mp (by omega), List.length_eq_zero_iff.mp (by omega)⟩

theorem EndsIn.round {n : Nat} (h : t.EndsIn (n + 1)) (hc : t.Calm) : t.round.EndsIn n := by
  by_cases hs : t.us.inbox = [] ∧ t.them.inbox = []
  · have hround : t.round = t := by
      rw [Thread.round, hearAll_of_nil (t := t.swap) hs.2, swap_swap, hearAll_of_nil hs.1]
    rw [hround]
    exact .inl hs
  · have hp := h.resolve_left hs
    have hr := hc.round
    have hpos : 0 < t.us.inbox.length + t.them.inbox.length := by
      rw [Nat.pos_iff_ne_zero]
      intro h0
      exact hs ⟨List.length_eq_zero_iff.mp (by omega), List.length_eq_zero_iff.mp (by omega)⟩
    exact .inr (by omega)

end Thread

namespace Link

variable {x : Link}

def deliver (x : Link) : Link :=
  (x.perform (.a, .send)).perform (.b, .receive (x.toB ++ x.a.replies).length)

theorem Calm.deliver (h : x.Calm) (c : UInt8) (d : Side) :
    x.deliver.thread c d = (x.thread c d).swap.hearAll.swap := by
  have hsend := h.sound.send
  obtain ⟨hs, read, hread, ht⟩ :=
    hsend.1.swap.receive (x.toB ++ x.a.replies).length
  -- All that `a` has said is read, so that no verb is left in part.
  have hleft : x.deliver.swap.inbox = [] := by
    have hu := hs.toA
    have hnil : ((x.act .send).swap.act (.receive (x.toB ++ x.a.replies).length)).toA = [] := by
      show ((x.toB ++ x.a.replies).drop _) = []
      exact List.drop_length
    rw [hnil] at hu
    exact messages_of_quiet hu rfl
  have hin : (x.act .send).swap.inbox = read := by
    rw [hread]
    show read ++ x.deliver.swap.inbox = read
    rw [hleft, List.append_nil]
  have hth := ht c d.other
  rw [thread_swap, hsend.2.2, ← hin] at hth
  have hlen : (told (x.act .send).swap.inbox c d.other).length =
      (x.thread c d).swap.us.inbox.length := by
    rw [← hsend.2.2 c d]
    rfl
  rw [hlen] at hth
  show (x.deliver.swap).swap.thread c d = _
  have := x.deliver.swap.thread_swap c d.other
  rw [Side.other_other] at this
  rw [this]
  exact congrArg Thread.swap hth

theorem Calm.calm_deliver (h : x.Calm) : x.deliver.Calm := (h.perform _).perform _

theorem calm_start {sa sb : OptionSet} (ha : sa.Distinct) (hb : sb.Distinct)
    (hma : ∀ o ∈ sa.entries, o.Modest) (hmb : ∀ o ∈ sb.entries, o.Modest)
    (inbandA inbandB : Bool) : (start sa sb inbandA inbandB).Calm where
  sound := ⟨ha, hb, rfl, rfl⟩
  threads code side := ⟨Nat.zero_le _, sa.modest_half hma code side,
    sb.modest_half hmb code side.other⟩

end Link

theorem eq_nil_of_told {ms : List Message} (h : ∀ code side, told ms code side = []) : ms = [] := by
  obtain _ | ⟨⟨v, code⟩, ms⟩ := ms
  · rfl
  · have := h code v.side
    rw [told_cons_self] at this
    cases this

namespace Exchange

def link (x : Exchange) : Link := { a := x.a, b := x.b }

inductive Move where
  | request (p : Party) (name : String) (side : Side) (enable : Bool)
  | settle (limit : Nat)
  deriving DecidableEq

def perform (x : Exchange) : Move → Exchange
  | .request p name side enable =>
    let y := x.link.perform (p, .request name side enable)
    { a := y.a, b := y.b }
  | .settle limit => (x.settle limit).1

def run (x : Exchange) (moves : List Move) : Exchange := moves.foldl perform x

def start (sa sb : OptionSet) (inbandA inbandB : Bool) : Exchange where
  a := { options := sa, inband := inbandA }
  b := { options := sb, inband := inbandB }

variable {x : Exchange}

theorem link_deliver (x : Exchange) :
    x.link.deliver = link { a := x.a.takeReplies.2, b := (x.b.drain x.a.replies).1 } := by
  simp [Link.deliver, Link.perform, Link.act, Link.swap, link, Endpoint.takeReplies]

theorem link_round (x : Exchange) : x.round.1.link = x.link.deliver.swap.deliver.swap := by
  have h := link_deliver { a := (x.b.drain x.a.replies).1, b := x.a.takeReplies.2 }
  rw [link_deliver]
  exact (congrArg Link.swap h).symm

theorem calm_round (h : x.link.Calm) : x.round.1.link.Calm := by
  rw [link_round]
  exact h.calm_deliver.swap.calm_deliver.swap

theorem thread_round (h : x.link.Calm) (c : UInt8) (d : Side) :
    x.round.1.link.thread c d = (x.link.thread c d).round := by
  have hback := x.link.deliver.swap.deliver.thread_swap c d.other
  rw [Side.other_other, h.calm_deliver.swap.deliver, Link.thread_swap, h.deliver] at hback
  rw [link_round, hback]
  rfl

theorem calm_settle (h : x.link.Calm) (limit : Nat) : (x.settle limit).1.link.Calm := by
  induction limit generalizing x with
  | zero => exact h
  | succ n ih =>
    rw [settle]
    split
    · exact h
    · exact ih (calm_round h)

theorem calm_perform (h : x.link.Calm) (m : Move) : (x.perform m).link.Calm := by
  cases m with
  | request p name side enable =>
    have hy := h.perform (p, .request name side enable)
    -- A request leaves the wires as they are.
    have hw : (x.perform (.request p name side enable)).link =
        x.link.perform (p, .request name side enable) := by
      cases p
      · simp only [perform, Link.perform, Link.act]
        split <;> rfl
      · simp only [perform, Link.perform, Link.act]
        split <;> rfl
    rw [hw]
    exact hy
  | settle limit => exact calm_settle h limit

theorem calm_run (h : x.link.Calm) (moves : List Move) : (x.run moves).link.Calm :=
  List.foldlRecOn (motive := fun x : Exchange => x.link.Calm) moves _ h fun _ h m _ =>
    calm_perform h m

theorem quiet_of_silent (h : x.link.Calm)
    (hs : ∀ c d, (x.link.thread c d).us.inbox = [] ∧ (x.link.thread c d).them.inbox = []) :
    x.quiet = true := by
  have hA : x.link.inbox = [] := eq_nil_of_told fun c d => (hs c d).1
  have hB : x.link.swap.inbox = [] := by
    refine eq_nil_of_told fun c d => ?_
    have := (hs c d.other).2
    rwa [Link.thread, Side.other_other] at this
  have ha := h.sound.toB
  have hb := h.sound.toA
  rw [hB, Underway, encodeMessages_nil] at ha
  rw [hA, Underway, encodeMessages_nil] at hb
  have hra : x.a.replies = [] := (List.append_eq_nil_iff.mp ha).2
  have hrb : x.b.replies = [] := (List.append_eq_nil_iff.mp hb).2
  simp [quiet, Endpoint.hasReplies, hra, hrb]

/-- The exchange takes no more rounds than its longest thread has words left. -/
theorem settle_of_endsIn {n limit : Nat} (h : x.link.Calm)
    (he : ∀ c d, (x.link.thread c d).EndsIn n) (hl : n ≤ limit) :
    (x.settle limit).1.quiet = true ∧ (x.settle limit).2.length ≤ n := by
  induction n generalizing x limit with
  | zero =>
    have hq := quiet_of_silent h fun c d => (he c d).silent
    cases limit with
    | zero => exact ⟨hq, Nat.le_refl _⟩
    | succ limit =>
      rw [settle, if_pos hq]
      exact ⟨hq, Nat.le_refl _⟩
  | succ n ih =>
    obtain _ | limit := limit
    · cases hl
    · rw [settle]
      split
      · next hq => exact ⟨hq, Nat.zero_le _⟩
      · have hround (c : UInt8) (d : Side) : (x.round.1.link.thread c d).EndsIn n := by
          rw [thread_round h]
          exact (he c d).round (h.threads c d)
        obtain ⟨hq, hlen⟩ := ih (calm_round h) hround (Nat.le_of_succ_le_succ hl)
        exact ⟨hq, Nat.succ_le_succ hlen⟩

/-- From whatever state requests and deliveries have led to, only so many deliveries can follow
without a further request. The lockstep exchange comes to its end in fewer than sixteen rounds. -/
theorem negotiation_ends {as bs : List TelnetOption} (has : ∀ o ∈ as, o.Unheard)
    (hbs : ∀ o ∈ bs, o.Unheard) {sa sb : OptionSet} (hsa : ({} : OptionSet).addAll as = .ok sa)
    (hsb : ({} : OptionSet).addAll bs = .ok sb) (inbandA inbandB : Bool) :
    (∀ moves later : List (Party × Act), (∀ m ∈ later, m.2.isRequest = false) →
      ((Link.start sa sb inbandA inbandB).run moves).deliveries later ≤ 10756) ∧
    ∀ (moves : List Move) (limit : Nat), 15 ≤ limit →
      let r := ((start sa sb inbandA inbandB).run moves).settle limit
      r.1.quiet = true ∧ r.2.length < 16 := by
  have modest {os : List TelnetOption} {s : OptionSet} (hos : ∀ o ∈ os, o.Unheard)
      (hs : ({} : OptionSet).addAll os = .ok s) : s.Distinct ∧ ∀ o ∈ s.entries, o.Modest := by
    obtain ⟨hd, he⟩ := OptionSet.addAll_ok OptionSet.distinct_empty hs
    refine ⟨hd, ?_⟩
    intro o ho
    rw [he, List.nil_append] at ho
    obtain ⟨p, hp, rfl⟩ := List.mem_map.mp ho
    intro side
    have := (hos p hp).modest side
    cases side <;> exact this
  obtain ⟨hda, hma⟩ := modest has hsa
  obtain ⟨hdb, hmb⟩ := modest hbs hsb
  have hstart := Link.calm_start hda hdb hma hmb inbandA inbandB
  constructor
  · intro moves later hl
    have hc := hstart.run moves
    have hle := hc.deliveries_le hl
    have := hc.patience_le
    omega
  · intro moves limit hl r
    have hc : ((start sa sb inbandA inbandB).run moves).link.Calm :=
      calm_run (x := start sa sb inbandA inbandB) hstart moves
    have hends (c : UInt8) (d : Side) :
        (((start sa sb inbandA inbandB).run moves).link.thread c d).EndsIn 7 :=
      .inr (hc.threads c d).patience_le
    obtain ⟨hq, hr⟩ := settle_of_endsIn hc hends (show 7 ≤ limit by omega)
    exact ⟨hq, Nat.lt_of_le_of_lt hr (by decide)⟩

/-- An option that its maker has asked for before it was registered. -/
def asked : TelnetOption := (Link.echo.request .localSide true).1

def askedSet : OptionSet := ⟨[{ asked with associated := true }]⟩

theorem negotiation_ends_asked :
    let later : List (Party × Act) :=
      [(.b, .receive 1), (.a, .send), (.b, .receive 9), (.b, .send), (.a, .receive 2)]
    let moves : List Move :=
      [.request .b "ECHO" .remoteSide true, .request .b "ECHO" .remoteSide false, .settle 15,
        .request .b "echo" .localSide true, .request .a "ECHO" .remoteSide true]
    ((Link.start askedSet Link.echoSet false true).run Link.crossing).deliveries later ≤ 10756 ∧
      (((start askedSet Link.echoSet false true).run moves).settle 15).1.quiet = true ∧
      (((start askedSet Link.echoSet false true).run moves).settle 15).2.length < 16 := by
  intro later moves
  have hasked : ∀ o ∈ [asked], o.Unheard := by
    intro o ho
    rw [List.mem_singleton.mp ho]
    exact ⟨Link.echo, ⟨rfl, rfl⟩, [(.localSide, true)], rfl⟩
  have hecho : ∀ o ∈ [Link.echo], o.Unheard := by
    intro o ho
    rw [List.mem_singleton.mp ho]
    exact ⟨Link.echo, ⟨rfl, rfl⟩, [], rfl⟩
  have ha : ({} : OptionSet).addAll [asked] = .ok askedSet := by cbv
  have hb : ({} : OptionSet).addAll [Link.echo] = .ok Link.echoSet := by cbv
  obtain ⟨hd, hr⟩ := negotiation_ends hasked hecho ha hb false true
  exact ⟨hd Link.crossing later (by decide), hr moves 15 (Nat.le_refl _)⟩

end Exchange

end Telnet

end VatTerminal
