import Mathlib
import VatTerminal.Proofs.Negotiation.Link

/-! # Agreement

Two ends that start from options with nothing negotiated agree on every option
whenever the link between them is quiet, whatever they have asked for and
however their requests have crossed.
-/

namespace VatTerminal

open Telnet

def TelnetOption.IsNew (o : TelnetOption) : Prop := o.us = {} ∧ o.him = {}

namespace Telnet

namespace OptionSet

variable {s t : OptionSet}

theorem distinct_empty : ({} : OptionSet).Distinct := List.nodup_nil

/-- What is added is new by its code and by its name, belongs to no endpoint, and comes last. -/
theorem add_ok {o : TelnetOption} (h : s.add o = .ok t) :
    s.get? o.code = none ∧ s.byName? o.name = none ∧ o.associated = false ∧
      t.entries = s.entries ++ [{ o with associated := true }] := by
  rw [add] at h
  split at h
  · simp at h
  · next hfree =>
    split at h
    · simp at h
    · next hnew =>
      simp only [Except.ok.injEq] at h
      subst h
      simp_all

theorem distinct_add {o : TelnetOption} (hs : s.Distinct) (h : s.add o = .ok t) :
    t.Distinct ∧ t.entries = s.entries ++ [{ o with associated := true }] := by
  obtain ⟨hfree, -, -, ht⟩ := add_ok h
  refine ⟨?_, ht⟩
  have hcode : o.code ∉ s.codes := by
    intro hm
    obtain ⟨x, hx, he⟩ := List.mem_map.mp hm
    have := get?_of_mem hs hx
    rw [he] at this
    simp [this] at hfree
  rw [Distinct, codes, ht, List.map_append, List.nodup_append]
  refine ⟨hs, by simp, ?_⟩
  rintro c hc d hd rfl
  obtain rfl : c = o.code := by simpa using hd
  exact hcode hc

theorem addAll_induction {P : OptionSet → Prop} {os : List TelnetOption}
    (hadd : ∀ s t, ∀ o ∈ os, P s → s.add o = .ok t → P t) (hs : P s) (h : s.addAll os = .ok t) :
    P t := by
  induction os generalizing s with
  | nil =>
    obtain rfl : s = t := by simpa [addAll, pure, Except.pure] using h
    exact hs
  | cons o os ih =>
    rw [addAll, List.foldlM_cons] at h
    cases ha : s.add o with
    | error e => simp [ha, bind, Except.bind] at h
    | ok u =>
      rw [ha] at h
      exact ih (fun s t x hx => hadd s t x (List.mem_cons_of_mem _ hx))
        (hadd s u o (List.mem_cons_self ..) hs ha) h

theorem addAll_new {os : List TelnetOption} (hos : ∀ o ∈ os, o.IsNew) (hs : s.Distinct)
    (hn : ∀ o ∈ s.entries, o.IsNew) (h : s.addAll os = .ok t) :
    t.Distinct ∧ ∀ o ∈ t.entries, o.IsNew := by
  refine addAll_induction (P := fun s => s.Distinct ∧ ∀ o ∈ s.entries, o.IsNew) ?_ ⟨hs, hn⟩ h
  rintro s t o ho ⟨hs, hn⟩ ha
  obtain ⟨hd, he⟩ := distinct_add hs ha
  refine ⟨hd, ?_⟩
  intro x hx
  rw [he, List.mem_append, List.mem_singleton] at hx
  rcases hx with hx | rfl
  · exact hn x hx
  · exact hos o ho

theorem half_of_new (hn : ∀ o ∈ s.entries, o.IsNew) (code : UInt8) (side : Side) :
    s.half code side = {} := by
  cases h : s.get? code with
  | none => simp [half, h]
  | some o =>
    rw [half_of_get? h]
    obtain ⟨hus, hhim⟩ := hn o (List.mem_of_find?_eq_some h)
    cases side
    · exact hus
    · exact hhim

end OptionSet

def Half.Settled (h : Half) : Prop := (h.state = .no ∨ h.state = .yes) ∧ h.queued = false

theorem Half.settled_settled (on : Bool) : (settled on).Settled := by
  cases on <;> simp [Settled, settled]

namespace Link

def start (sa sb : OptionSet) (inbandA inbandB : Bool) : Link :=
  { a := { options := sa, inband := inbandA }, b := { options := sb, inband := inbandB } }

theorem coherent_start {sa sb : OptionSet} (ha : sa.Distinct) (hb : sb.Distinct)
    (hna : ∀ o ∈ sa.entries, o.IsNew) (hnb : ∀ o ∈ sb.entries, o.IsNew)
    (inbandA inbandB : Bool) : (start sa sb inbandA inbandB).Coherent := by
  refine ⟨ha, hb, [], [], rfl, rfl, ?_⟩
  intro code side
  simp only [start, OptionSet.half_of_new hna, OptionSet.half_of_new hnb]
  exact Dialogue.start _ _

theorem messages_of_quiet {sender receiver : Endpoint} {ms : List Message}
    (h : Underway sender receiver [] ms) (hr : sender.replies = []) : ms = [] := by
  obtain _ | ⟨m, ms⟩ := ms
  · rfl
  · rw [Underway, hr, List.append_nil, List.append_nil] at h
    have := receiver.framing.length_read_lt
    rw [h, encodeMessages_cons, List.length_cons, List.length_cons, List.length_cons] at this
    omega

theorem Coherent.settled_of_quiet {x : Link} (h : x.Coherent) (hq : x.Quiet) (code : UInt8)
    (side : Side) : ∃ on, x.a.options.half code side = .settled on ∧
      x.b.options.half code side.other = .settled on := by
  obtain ⟨-, -, toA, toB, hA, hB, ht⟩ := h
  obtain ⟨hra, hrb, hwa, hwb⟩ := hq
  rw [hwa] at hA
  rw [hwb] at hB
  obtain rfl := messages_of_quiet hA hrb
  obtain rfl := messages_of_quiet hB hra
  exact (ht code side).quiet

/-- Whatever the two ends have done, on a quiet link every half is at rest and equal to its
counterpart. -/
theorem halves_agree {as bs : List TelnetOption} (has : ∀ o ∈ as, o.IsNew)
    (hbs : ∀ o ∈ bs, o.IsNew) {sa sb : OptionSet} (hsa : ({} : OptionSet).addAll as = .ok sa)
    (hsb : ({} : OptionSet).addAll bs = .ok sb) (inbandA inbandB : Bool)
    (moves : List (Party × Act)) (hq : ((start sa sb inbandA inbandB).run moves).Quiet)
    (code : UInt8) (side : Side) :
    (((start sa sb inbandA inbandB).run moves).a.options.half code side).Settled ∧
      ((start sa sb inbandA inbandB).run moves).b.options.half code side.other =
        ((start sa sb inbandA inbandB).run moves).a.options.half code side := by
  obtain ⟨hda, hna⟩ := OptionSet.addAll_new has OptionSet.distinct_empty (by simp) hsa
  obtain ⟨hdb, hnb⟩ := OptionSet.addAll_new hbs OptionSet.distinct_empty (by simp) hsb
  have hc := (coherent_start hda hdb hna hnb inbandA inbandB).run moves
  obtain ⟨on, ha, hb⟩ := hc.settled_of_quiet hq code side
  rw [ha, hb]
  exact ⟨Half.settled_settled on, rfl⟩

def echo : TelnetOption where
  code := 1
  name := "ECHO"
  localSupport := true
  remoteSupport := true

def echoSet : OptionSet := ⟨[{ echo with associated := true }]⟩

/-- Both ends ask at once, and one of them changes its mind twice before it is answered. -/
def crossing : List (Party × Act) :=
  [(.a, .request "ECHO" .localSide true), (.b, .request "ECHO" .remoteSide true), (.a, .send),
   (.b, .send), (.a, .request "ECHO" .localSide false), (.a, .receive 3),
   (.a, .request "ECHO" .localSide true), (.a, .send), (.b, .receive 1), (.b, .receive 5),
   (.b, .send), (.a, .receive 3), (.a, .send), (.b, .receive 3), (.b, .send), (.a, .receive 3)]

theorem halves_agree_crossing :
    ((start echoSet echoSet false false).run crossing).Quiet ∧
      (((start echoSet echoSet false false).run crossing).a.options.half 1 .localSide).Settled ∧
        ((start echoSet echoSet false false).run crossing).b.options.half 1 .remoteSide =
          ((start echoSet echoSet false false).run crossing).a.options.half 1 .localSide := by
  have hnew : ∀ o ∈ [echo], o.IsNew := by simp [echo, TelnetOption.IsNew]
  have hset : ({} : OptionSet).addAll [echo] = .ok echoSet := by cbv
  have hq : ((start echoSet echoSet false false).run crossing).Quiet := by cbv
  exact ⟨hq, halves_agree hnew hnew hset hset false false crossing hq 1 .localSide⟩

end Link

end Telnet

end VatTerminal
