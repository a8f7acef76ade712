import VatTerminal.Proofs.Negotiation.Threads

/-! # How long a thread can go on

A half waits for at most one word, and there are never more words under way on
a thread than its halves wait for. Every word that is read therefore brings the
thread closer to its end: a measure of both ends falls.
-/

namespace VatTerminal.Telnet

namespace Half

/-- How many words the half waits for. -/
def awaited (h : Half) : Nat :=
  match h.state with
  | .no | .yes => 0
  | .wantNo | .wantYes => 1

/-- The words that a queued request will take, its own and the answer. -/
def backlog (h : Half) : Nat := if h.queued then 2 * h.awaited else 0

inductive Heard (h : Half) : Half × Verdict → Prop where
  | silent {h' : Half} (hw : h'.awaited = 0) : Heard h (h', .ignore)
  | answered {h' : Half} {r : Verdict} (hw : h.awaited = 0) (hw' : h'.awaited = 0)
    (hr : r.words.length = 1) : Heard h (h', r)
  /-- The word was waited for, and what was queued is asked now. -/
  | resumed {h' : Half} {r : Verdict} (hw : h.awaited = 1) (hq : h.queued = true)
    (hw' : h'.awaited = 1) (hq' : h'.queued = false) (hr : r.words.length = 1) : Heard h (h', r)

/-- A half that is not supported has never asked for anything. -/
def Modest (supported : Bool) (h : Half) : Prop := supported = false → h.state = .no

variable {h : Half} {supported : Bool}

theorem awaited_le (h : Half) : h.awaited ≤ 1 := by
  unfold awaited
  split <;> omega

theorem backlog_le (h : Half) : h.backlog ≤ 2 * h.awaited := by
  unfold backlog
  split <;> omega

theorem heard_receive (hm : h.Modest supported) (on : Bool) :
    h.Heard (h.receive on supported) := by
  cases supported with
  | false =>
    have hn : h.awaited = 0 := by rw [awaited, hm rfl]
    cases on with
    | false => exact .silent hn
    | true => exact .answered hn hn rfl
  | true =>
    obtain ⟨state, queued⟩ := h
    cases state with
    | no =>
      cases on with
      | false => exact .silent rfl
      | true => exact .answered rfl rfl rfl
    | yes =>
      cases on with
      | false => exact .answered rfl rfl rfl
      | true => exact .silent rfl
    | wantNo =>
      cases on <;> cases queued
      · exact .silent rfl
      · exact .resumed rfl rfl rfl rfl rfl
      · exact .silent rfl
      · exact .silent rfl
    | wantYes =>
      cases on <;> cases queued
      · exact .silent rfl
      · exact .silent rfl
      · exact .silent rfl
      · exact .resumed rfl rfl rfl rfl rfl

theorem Modest.receive (hm : h.Modest supported) (on : Bool) :
    (h.receive on supported).1.Modest supported := by
  rintro rfl
  cases on <;> exact hm rfl

/-- A request that says something starts to wait; any other leaves what is waited for. -/
theorem awaited_request (h : Half) (on : Bool) :
    (h.request on).2.words.length + h.awaited = (h.request on).1.awaited := by
  obtain ⟨state, queued⟩ := h
  cases on <;> cases state <;> rfl

theorem Modest.request (hm : h.Modest supported) (enable : Bool) :
    (h.request (enable && supported)).1.Modest supported := by
  rintro rfl
  have hn : h.request false = (h, .ignore) := by simp only [Half.request, hm rfl]
  rw [Bool.and_false, hn]
  exact hm rfl

end Half

namespace Speaker

/-- How much this end may still cause to be read. A word that is not waited for may be answered,
and a queued request takes two words more. -/
def patience (s : Speaker) : Nat :=
  s.inbox.length + (s.inbox.length - s.half.awaited) + s.half.backlog

theorem inbox_le_patience (s : Speaker) : s.inbox.length ≤ s.patience := by
  unfold patience
  omega

end Speaker

namespace Thread

def patience (t : Thread) : Nat := t.us.patience + t.them.patience

theorem patience_swap (t : Thread) : t.swap.patience = t.patience := Nat.add_comm _ _

/-- No more words are under way than are waited for. -/
structure Calm (t : Thread) : Prop where
  words : t.us.inbox.length + t.them.inbox.length ≤ t.us.half.awaited + t.them.half.awaited
  us : t.us.half.Modest t.us.supported
  them : t.them.half.Modest t.them.supported

variable {t : Thread}

theorem Calm.swap (h : t.Calm) : t.swap.Calm where
  words := by
    have := h.words
    show t.them.inbox.length + t.us.inbox.length ≤ t.them.half.awaited + t.us.half.awaited
    omega
  us := h.them
  them := h.us

theorem Calm.ask (h : t.Calm) (enable : Bool) : (t.ask enable).Calm where
  words := by
    have hw := h.words
    have hr := t.us.half.awaited_request (enable && t.us.supported)
    simp only [Thread.ask, Speaker.tell, List.length_append]
    omega
  us := h.us.request enable
  them := h.them

theorem Calm.hear (h : t.Calm) :
    t.hear.Calm ∧ t.hear.patience + min 1 t.us.inbox.length ≤ t.patience := by
  unfold Thread.hear
  split
  · next hn => exact ⟨h, by rw [hn]; exact Nat.le_refl _⟩
  · next on rest hi =>
    have hw := h.words
    have hus := t.us.half.awaited_le
    have hthem := t.them.half.awaited_le
    have hheard := Half.heard_receive h.us on
    have hmodest := h.us.receive on
    rw [hi, List.length_cons] at hw
    generalize t.us.half.receive on t.us.supported = r at hheard hmodest
    simp only [patience, Speaker.patience, Speaker.tell, hi, List.length_cons, List.length_append]
    cases hheard with
    | @silent h' hw' =>
      have hb := h'.backlog_le
      simp only [Verdict.words_ignore, List.append_nil, List.length_nil, hw'] at hb ⊢
      exact ⟨⟨by simp only [hw']; omega, hmodest, h.them⟩, by omega⟩
    | @answered h' r hw₀ hw' hr =>
      have hb := h'.backlog_le
      simp only [hr, hw₀, hw'] at hb hw ⊢
      refine ⟨⟨?_, hmodest, h.them⟩, by omega⟩
      simp only [List.length_append, hr, hw']
      omega
    | @resumed h' r hw₀ hq hw' hq' hr =>
      have hb : h'.backlog = 0 := by rw [Half.backlog, hq']; rfl
      have hb₀ : t.us.half.backlog = 2 := by rw [Half.backlog, hq, hw₀]; rfl
      simp only [hr, hw₀, hw', hb, hb₀] at hw ⊢
      refine ⟨⟨?_, hmodest, h.them⟩, by omega⟩
      simp only [List.length_append, hr, hw']
      omega

theorem Calm.hears (h : t.Calm) (n : Nat) :
    (Thread.hear^[n] t).Calm ∧
      (Thread.hear^[n] t).patience + min n t.us.inbox.length ≤ t.patience := by
  induction n generalizing t with
  | zero => exact ⟨h, by simp⟩
  | succ n ih =>
    obtain ⟨hc, hp⟩ := h.hear
    obtain ⟨hc', hp'⟩ := ih hc
    rw [Function.iterate_succ_apply]
    refine ⟨hc', ?_⟩
    rw [inbox_hear, List.length_tail] at hp'
    omega

theorem Calm.patience_le (h : t.Calm) : t.patience ≤ 7 := by
  have hw := h.words
  have hus := t.us.half.awaited_le
  have hthem := t.them.half.awaited_le
  have hb := t.us.half.backlog_le
  have hb' := t.them.half.backlog_le
  unfold patience Speaker.patience
  omega

end Thread

end VatTerminal.Telnet
