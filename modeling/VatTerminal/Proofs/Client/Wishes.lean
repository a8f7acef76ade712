import VatTerminal.Proofs.Client.Reads
import VatTerminal.Proofs.Negotiation.Lookup

/-! # What a connection wishes for

A negotiation puts its wish to the stream before it reads anything. The wishes
on connecting are for registered options only, so none of them is refused.
-/

namespace VatTerminal

namespace Telnet

variable {name : String} (side : Side) (enable : Bool)

theorem OptionSet.isSome_byName? (s : OptionSet) (n : String) :
    (s.byName? n).isSome = (s.entries.map (·.name)).any (sameName · n) := by
  rw [byName?, List.isSome_find?, List.any_map]
  rfl

theorem OptionSet.exists_request (s : OptionSet) (h : (s.byName? name).isSome) :
    ∃ t code answer, s.request name side enable = .ok (t, code, answer) ∧
      ∀ n, (t.byName? n).isSome = (s.byName? n).isSome := by
  obtain ⟨o, ho⟩ := Option.isSome_iff_exists.mp h
  refine ⟨⟨reviseFirst (fun o => sameName o.name name) (fun o => (o.request side enable).1)
    s.entries⟩, _, _, by rw [request, ho], ?_⟩
  intro n
  rw [isSome_byName?, isSome_byName?, map_reviseFirst]
  intro x
  exact TelnetOption.name_setHalf _ _ _

theorem Endpoint.exists_request (e : Endpoint) (h : (e.options.byName? name).isSome) :
    ∃ e' code, e.request name side enable = .ok (e', code) ∧
      ∀ n, (e'.options.byName? n).isSome = (e.options.byName? n).isSome := by
  obtain ⟨t, code, answer, hr, hn⟩ := e.options.exists_request side enable h
  exact ⟨({ e with options := t } : Endpoint).reply code answer, code, by rw [request, hr], hn⟩

end Telnet

theorem Stream.wish_of_ok {s : Stream} {name : String} {side : Telnet.Side}
    {telnet : Telnet.Endpoint} {code : UInt8}
    (h : s.telnet.request name side true = .ok (telnet, code)) :
    s.wish name side = { s with telnet } := by
  rw [wish, h]

theorem Stream.wish_of_error {s : Stream} {name : String} {side : Telnet.Side}
    {e : Telnet.Error} (h : s.telnet.request name side true = .error e) :
    s.wish name side = s := by
  rw [wish, h]

namespace Client.Connection

def wishesFor (os : List TelnetOption) : List Stream.Input :=
  os.flatMap fun o => [.wish o.name .remoteSide, .wish o.name .localSide]

theorem bytes_wishesFor (os : List TelnetOption) :
    Stream.Input.bytes (wishesFor os) = [] := by
  induction os with
  | nil => rfl
  | cons o os ih => exact ih

theorem requestAll_eq_feed (s : Stream) (os : List TelnetOption)
    (h : ∀ o ∈ os, (s.telnet.options.byName? o.name).isSome) :
    ∃ telnet, requestAll s.telnet os = (.ok (), telnet) ∧
      s.feed (wishesFor os) = ({ s with telnet }, []) := by
  induction os generalizing s with
  | nil => exact ⟨s.telnet, rfl, rfl⟩
  | cons o os ih =>
    have ho := h o List.mem_cons_self
    obtain ⟨t₁, c₁, h₁, hn₁⟩ := s.telnet.exists_request .remoteSide true ho
    obtain ⟨t₂, c₂, h₂, hn₂⟩ := t₁.exists_request .localSide true (by rw [hn₁]; exact ho)
    have hos : ∀ x ∈ os, (t₂.options.byName? x.name).isSome := by
      intro x hx
      rw [hn₂, hn₁]
      exact h x (List.mem_cons_of_mem _ hx)
    obtain ⟨t, hr, hf⟩ := ih { s with telnet := t₂ } hos
    refine ⟨t, ?_, ?_⟩
    · rw [requestAll, h₁]
      simp only [h₂]
      exact hr
    · have hw₁ := Stream.wish_of_ok h₁
      have hw₂ := Stream.wish_of_ok (s := { s with telnet := t₁ }) h₂
      show Stream.feed s (.wish o.name .remoteSide :: .wish o.name .localSide :: wishesFor os) = _
      simp only [Stream.feed, Stream.input, hw₁, hw₂]
      rw [hf]
      rfl

variable (c : Connection)

theorem requestAll_options :
    ∃ telnet, requestAll c.stream.telnet c.options.entries = (.ok (), telnet) ∧
      c.stream.feed (wishesFor c.options.entries) = ({ c.stream with telnet }, []) := by
  refine requestAll_eq_feed c.stream c.options.entries ?_
  intro o ho
  exact List.find?_isSome.mpr ⟨o, ho, beq_self_eq_true _⟩

theorem feeds_negotiateOnConnect :
    c.Feeds (wishesFor c.options.entries) [] c.negotiateOnConnect.2 := by
  obtain ⟨telnet, hr, hf⟩ := c.requestAll_options
  have hw : c.Feeds (wishesFor c.options.entries) [] (c.setTelnet telnet) := by
    refine ⟨⟨[], rfl, ?_⟩, ⟨[], ?_⟩, ?_⟩
    · rw [bytes_wishesFor, List.append_nil]
      rfl
    · rw [hf]
      rfl
    · rw [hf, List.append_nil]
      rfl
  have h := hw.trans (c.setTelnet telnet).feeds_flushReplies
  rw [List.append_nil] at h
  rw [negotiateOnConnect, hr]
  exact h

theorem phase_negotiateOnConnect : c.negotiateOnConnect.2.phase = c.phase := by
  simp only [negotiateOnConnect]
  split
  · rfl
  · exact phase_flushReplies _

/-- A negotiation on an open stream puts its wish first, and then reads. -/
theorem exists_reads_negotiate (name : String) (side : Telnet.Side) (hc : c.phase = .open) :
    ∃ d bytes, c.Feeds [.wish name side] [] d ∧ d.phase = .open ∧
      d.Reads bytes [] (c.negotiate name side).2 := by
  have hw := c.feeds_wish name side
  rw [negotiate, if_neg (not_not_intro hc)]
  split
  · next e he =>
    rw [Stream.wish_of_error he] at hw
    exact ⟨c, [], hw, hc, .still (.refl c) rfl rfl⟩
  · next telnet code ht =>
    rw [Stream.wish_of_ok ht] at hw
    split
    · next e d hd => exact ⟨c.setTelnet telnet, [], hw, hc, (reads_of_flush hd).1⟩
    · next d hd =>
      obtain ⟨hr, hp⟩ := reads_of_flush hd
      obtain ⟨bytes, hb⟩ := reads_awaitSettled (hp.trans hc)
      exact ⟨c.setTelnet telnet, _, hw, hc, hr.trans hb⟩

theorem feeds_negotiate (name : String) (side : Telnet.Side) (hc : c.phase = .open) :
    ∃ bytes : List UInt8,
      c.Feeds ([.wish name side] ++ (bytes.map .byte ++ endMet c (c.negotiate name side).2)) []
        (c.negotiate name side).2 := by
  obtain ⟨d, bytes, hw, hd, hr⟩ := c.exists_reads_negotiate name side hc
  have hmet : endMet d (c.negotiate name side).2 = endMet c (c.negotiate name side).2 := by
    rw [endMet, endMet, hc, hd]
  have hf := hw.trans hr.feeds
  rw [hmet] at hf
  exact ⟨bytes, hf⟩

theorem buffer_negotiate {name : String} (side : Telnet.Side) (hc : c.phase = .open)
    (hn : (c.option? name).isSome) (hw : c.line.writable = true) :
    (c.negotiate name side).2.buffer = [] := by
  obtain ⟨telnet, code, hr, -⟩ := c.stream.telnet.exists_request side true hn
  rw [negotiate, if_neg (not_not_intro hc), hr]
  split
  · next e he => cases he
  · next telnet code ht =>
    split
    · next e d hd =>
      have hu := unwritable_of_flush hd
      exact absurd hw (ne_true_of_eq_false hu)
    · next d hd => exact d.buffer_awaitSettled name side _

theorem negotiate_of_not_open (name : String) (side : Telnet.Side) (hc : c.phase ≠ .open) :
    c.negotiate name side = (.error .notConnected, c) := if_pos hc

end Client.Connection

end VatTerminal
