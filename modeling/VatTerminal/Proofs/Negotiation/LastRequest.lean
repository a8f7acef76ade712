import VatTerminal.Proofs.Negotiation.Agreement
import VatTerminal.Proofs.Negotiation.Threads

/-! # The last request wins

Where one end asks and the other only answers, the state that was asked for
last can be read off the half that asks, whatever is under way: it is the state
of the request in flight, or the opposite of it if one is queued. Every request
sets it and no word changes it.
-/

namespace VatTerminal.Telnet

namespace OptionSet

variable {s t : OptionSet}

def labels (s : OptionSet) : List (String × UInt8) := s.entries.map fun o => (o.name, o.code)

def codeOf? (s : OptionSet) (name : String) : Option UInt8 := (s.byName? name).map (·.code)

theorem codeOf?_congr (h : t.labels = s.labels) : t.codeOf? = s.codeOf? := by
  have key (u : OptionSet) (name : String) :
      u.codeOf? name = (u.labels.find? fun l => sameName l.1 name).map (·.2) := by
    rw [labels, List.find?_map, Option.map_map]
    rfl
  funext name
  rw [key, key, h]

theorem labels_reviseFirst {p : TelnetOption → Bool} {f : TelnetOption → TelnetOption}
    (side : Side) (g : TelnetOption → Half) (hf : ∀ o, f o = o.setHalf side (g o)) :
    labels ⟨reviseFirst p f s.entries⟩ = s.labels :=
  map_reviseFirst fun o => by rw [hf, TelnetOption.name_setHalf, TelnetOption.code_setHalf]

theorem labels_request {name : String} {side : Side} {enable : Bool} {code : UInt8}
    {answer : Option Verb} (h : s.request name side enable = .ok (t, code, answer)) :
    t.labels = s.labels ∧ s.codeOf? name = some code := by
  rw [request] at h
  split at h
  · cases h
  · next o ho =>
    cases h
    exact ⟨labels_reviseFirst side _ fun _ => rfl, by rw [codeOf?, ho]; rfl⟩

theorem labels_receive? {v : Verb} {code : UInt8} {o : TelnetOption} {answer : Option Verb}
    (h : s.receive? v code = some (t, o, answer)) : t.labels = s.labels := by
  obtain ⟨x, -, hx⟩ := Option.map_eq_some_iff.mp h
  cases hx
  exact labels_reviseFirst v.side _ fun _ => rfl

end OptionSet

namespace Endpoint

variable (e : Endpoint)

theorem labels_negotiate (v : Verb) (code : UInt8) :
    (e.negotiate v code).1.options.labels = e.options.labels := by
  rw [negotiate]
  split
  · rfl
  · next h => exact OptionSet.labels_receive? h

theorem labels_step (b : UInt8) : (e.step b).1.options.labels = e.options.labels := by
  unfold step
  split
  · split <;> rfl
  · split <;> rfl
  · rfl
  · exact labels_negotiate _ _ _

theorem labels_drain (bytes : List UInt8) :
    (e.drain bytes).1.options.labels = e.options.labels := by
  induction bytes generalizing e with
  | nil => rfl
  | cons b bs ih => exact (ih (e.step b).1).trans (e.labels_step b)

variable {e} {e' : Endpoint} {name : String} {side : Side} {enable : Bool} {code : UInt8}

theorem labels_request (h : e.request name side enable = .ok (e', code)) :
    e'.options.labels = e.options.labels ∧ e.options.codeOf? name = some code := by
  rw [request] at h
  split at h
  · cases h
  · next hs =>
    cases h
    exact OptionSet.labels_request hs

theorem codeOf?_of_error {err : Error} (h : e.request name side enable = .error err) :
    e.options.codeOf? name = none := by
  rw [request] at h
  split at h
  · next hs =>
    rw [OptionSet.request] at hs
    split at hs
    · next hn => rw [OptionSet.codeOf?, hn]; rfl
    · cases hs
  · cases h

end Endpoint

namespace Thread

open Half

/-- Our half leads, and `goal` is what it asked for last. -/
inductive Led (goal : Bool) : Thread → Prop where
  | rest : Led goal ⟨⟨settled goal, true, []⟩, ⟨settled goal, true, []⟩⟩
  | asked (on queued : Bool) : goal = (on != queued) →
      Led goal ⟨⟨wanting on queued, true, []⟩, ⟨settled !on, true, [on]⟩⟩
  | answered (on queued : Bool) : goal = (on != queued) →
      Led goal ⟨⟨wanting on queued, true, [on]⟩, ⟨settled on, true, []⟩⟩

variable {goal : Bool} {t : Thread}

theorem Led.ask (h : t.Led goal) (enable : Bool) : (t.ask enable).Led enable := by
  -- A request under way stays so, and the queue says whether the new one is against it.
  have hgoal (on : Bool) : enable = (on != (enable != on)) := by cases on <;> cases enable <;> rfl
  cases h with
  | rest =>
    simp only [Thread.ask, Bool.and_true]
    by_cases he : enable = goal
    · subst he
      rw [request_settled_self]
      exact .rest
    · rw [request_settled_ne he]
      obtain rfl : goal = !enable := by cases goal <;> cases enable <;> simp_all
      simp only [Speaker.tell, Verdict.words_tell, List.nil_append]
      exact .asked enable false (by simp)
  | asked on queued _ =>
    simp only [Thread.ask, Bool.and_true, request_wanting]
    exact .asked on _ (hgoal on)
  | answered on queued _ =>
    simp only [Thread.ask, Bool.and_true, request_wanting]
    exact .answered on _ (hgoal on)

theorem Led.hear (h : t.Led goal) : t.hear.Led goal := by
  cases h with
  | rest => exact .rest
  | asked on queued hg => exact .asked on queued hg
  | answered on queued hg =>
    subst hg
    cases queued with
    | false =>
      simp only [Thread.hear, receive_wanting_self, Bool.bne_false]
      exact .rest
    | true =>
      simp only [Thread.hear, receive_wanting_queued, Speaker.tell, Verdict.words_tell,
        List.nil_append]
      have hasked : Led (on != true)
          ⟨⟨wanting (!on) false, true, []⟩, ⟨settled !!on, true, [!on]⟩⟩ :=
        .asked (!on) false (by simp)
      rwa [Bool.not_not] at hasked

theorem Led.hear_them (h : t.Led goal) : t.swap.hear.swap.Led goal := by
  cases h with
  | rest => exact .rest
  | asked on queued hg =>
    simp only [Thread.swap, Thread.hear, receive_settled_not, Speaker.tell, Verdict.words_tell,
      List.nil_append]
    exact .answered on queued hg
  | answered on queued hg => exact .answered on queued hg

theorem Led.hears (h : t.Led goal) (n : Nat) : (Thread.hear^[n] t).Led goal := by
  induction n generalizing t with
  | zero => exact h
  | succ n ih => exact ih h.hear

theorem Led.hears_them (h : t.Led goal) (n : Nat) :
    (Thread.hear^[n] t.swap).swap.Led goal := by
  induction n generalizing t with
  | zero => exact h
  | succ n ih => exact ih h.hear_them

theorem Led.half_of_silent (h : t.Led goal) (hus : t.us.inbox = []) (hthem : t.them.inbox = []) :
    t.us.half = settled goal ∧ t.them.half = settled goal := by
  cases h with
  | rest => exact ⟨rfl, rfl⟩
  | asked on queued _ => cases hthem
  | answered on queued _ => cases hus

end Thread

/-- What an act of an end with these options asks for, if it is about this option and side. -/
def Act.wish? (s : OptionSet) (code : UInt8) (side : Side) : Act → Option Bool
  | .request name d enable => if s.codeOf? name = some code ∧ d = side then some enable else none
  | .send | .receive _ => none

def wishes (p : Party) (s : OptionSet) (code : UInt8) (side : Side) (moves : List (Party × Act)) :
    List Bool :=
  moves.filterMap fun m => if m.1 = p then m.2.wish? s code side else none

namespace Link

/-- `a` leads the thread of a code and side, and `goal` is what it asked for last. -/
structure Leads (sa sb : OptionSet) (code : UInt8) (side : Side) (goal : Bool) (x : Link) :
    Prop where
  sound : x.Sound
  namesA : x.a.options.codeOf? = sa.codeOf?
  namesB : x.b.options.codeOf? = sb.codeOf?
  led : (x.thread code side).Led goal

variable {x : Link} {sa sb : OptionSet} {code : UInt8} {side : Side} {goal : Bool}

theorem codeOf?_act (x : Link) (m : Act) : (x.act m).a.options.codeOf? = x.a.options.codeOf? := by
  cases m with
  | request name d enable =>
    rw [act]
    split
    · next he => exact OptionSet.codeOf?_congr (Endpoint.labels_request he).1
    · rfl
  | send => rfl
  | receive n => exact OptionSet.codeOf?_congr (x.a.labels_drain _)

theorem b_act (x : Link) (m : Act) : (x.act m).b = x.b := by
  cases m with
  | request name d enable =>
    rw [act]
    split <;> rfl
  | _ => rfl

/-- On each thread an act asks for what it wishes, or reads some words. -/
theorem thread_act (h : x.Sound) (m : Act) (code : UInt8) (side : Side) :
    (x.act m).Sound ∧
      ((∃ enable, m.wish? x.a.options code side = some enable ∧
          (x.act m).thread code side = (x.thread code side).ask enable) ∨
        m.wish? x.a.options code side = none ∧
          ∃ n, (x.act m).thread code side = Thread.hear^[n] (x.thread code side)) := by
  cases m with
  | request name d enable =>
    rw [act]
    split
    · next e c he =>
      obtain ⟨hs, ht⟩ := h.request he
      refine ⟨hs, ?_⟩
      rw [Act.wish?, (Endpoint.labels_request he).2, ht]
      by_cases hcd : code = c ∧ side = d
      · obtain ⟨rfl, rfl⟩ := hcd
        exact .inl ⟨enable, if_pos ⟨rfl, rfl⟩, if_pos ⟨rfl, rfl⟩⟩
      · have hne : ¬ (some c = some code ∧ d = side) := by
          rintro ⟨hc, hd⟩
          exact hcd ⟨(Option.some.inj hc).symm, hd.symm⟩
        exact .inr ⟨if_neg hne, 0, if_neg hcd⟩
    · next he =>
      refine ⟨h, .inr ⟨?_, 0, rfl⟩⟩
      simp [Act.wish?, Endpoint.codeOf?_of_error he]
  | send =>
    obtain ⟨hs, -, ht⟩ := h.send
    exact ⟨hs, .inr ⟨rfl, 0, ht code side⟩⟩
  | receive n =>
    obtain ⟨hs, read, -, ht⟩ := h.receive n
    exact ⟨hs, .inr ⟨rfl, _, ht code side⟩⟩

theorem wish?_congr {s t : OptionSet} (h : s.codeOf? = t.codeOf?) (m : Act) (code : UInt8)
    (side : Side) : m.wish? s code side = m.wish? t code side := by
  cases m with
  | request name d enable => rw [Act.wish?, Act.wish?, h]
  | _ => rfl

theorem Leads.act (h : x.Leads sa sb code side goal) (m : Act) :
    (x.act m).Leads sa sb code side ((m.wish? sa code side).getD goal) := by
  obtain ⟨hs, ht⟩ := thread_act h.sound m code side
  refine ⟨hs, (x.codeOf?_act m).trans h.namesA, by rw [b_act]; exact h.namesB, ?_⟩
  rw [wish?_congr h.namesA] at ht
  rcases ht with ⟨enable, hw, ht⟩ | ⟨hw, n, ht⟩
  · rw [hw, ht]
    exact h.led.ask enable
  · rw [hw, ht]
    exact h.led.hears n

theorem Leads.act_them (h : x.Leads sa sb code side goal) {m : Act}
    (hm : m.wish? sb code side.other = none) :
    (x.swap.act m).swap.Leads sa sb code side goal := by
  obtain ⟨hs, ht⟩ := thread_act h.sound.swap m code side.other
  have ha : (x.swap.act m).swap.a = x.a := x.swap.b_act m
  refine ⟨hs.swap, by rw [ha]; exact h.namesA, (x.swap.codeOf?_act m).trans h.namesB, ?_⟩
  rw [wish?_congr (show x.swap.a.options.codeOf? = sb.codeOf? from h.namesB), hm] at ht
  obtain ⟨enable, hw, -⟩ | ⟨-, n, ht⟩ := ht
  · cases hw
  · have hback := (x.swap.act m).thread_swap code side.other
    rw [Side.other_other, ht, thread_swap] at hback
    rw [hback]
    exact h.led.hears_them n

/-- What `a` asks for last stays what it asked for last, whatever is answered. -/
theorem Leads.run (h : x.Leads sa sb code side goal) {moves : List (Party × Act)}
    (hb : wishes .b sb code side.other moves = []) :
    (x.run moves).Leads sa sb code side
      ((wishes .a sa code side moves).getLast?.getD goal) := by
  induction moves generalizing x goal with
  | nil => exact h
  | cons m ms ih =>
    obtain ⟨p, m⟩ := m
    cases p with
    | a =>
      have hrun := ih (h.act m) hb
      cases hw : m.wish? sa code side with
      | none =>
        rw [hw] at hrun
        rw [wishes, List.filterMap_cons_none (by simpa using hw)]
        exact hrun
      | some enable =>
        rw [hw] at hrun
        rw [wishes, List.filterMap_cons_some (b := enable) (by simpa using hw),
          List.getLast?_cons]
        exact hrun
    | b =>
      have hm : m.wish? sb code side.other = none := by
        cases hw : m.wish? sb code side.other with
        | none => rfl
        | some enable =>
          rw [wishes, List.filterMap_cons_some (b := enable) (by simpa using hw)] at hb
          cases hb
      have hms : wishes .b sb code side.other ms = [] := by
        rwa [wishes, List.filterMap_cons_none (by simpa using hm)] at hb
      exact ih (h.act_them hm) hms

/-- Where both ends support an option and only `a` asks for it on one side, a quiet link has both
halves in the state that `a` asked for last, and off if it never asked. -/
theorem last_request_wins {as bs : List TelnetOption} (has : ∀ o ∈ as, o.IsNew)
    (hbs : ∀ o ∈ bs, o.IsNew) {sa sb : OptionSet} (hsa : ({} : OptionSet).addAll as = .ok sa)
    (hsb : ({} : OptionSet).addAll bs = .ok sb) (inbandA inbandB : Bool) (code : UInt8)
    (side : Side) (hA : ∀ d, sa.supports code d = true) (hB : ∀ d, sb.supports code d = true)
    (moves : List (Party × Act)) (hb : wishes .b sb code side.other moves = [])
    (hq : ((start sa sb inbandA inbandB).run moves).Quiet) :
    let on := (wishes .a sa code side moves).getLast?.getD false
    ((start sa sb inbandA inbandB).run moves).a.options.half code side = .settled on ∧
      ((start sa sb inbandA inbandB).run moves).b.options.half code side.other = .settled on := by
  intro on
  obtain ⟨hda, hna⟩ := OptionSet.addAll_new has OptionSet.distinct_empty (by simp) hsa
  obtain ⟨hdb, hnb⟩ := OptionSet.addAll_new hbs OptionSet.distinct_empty (by simp) hsb
  have hstart : (start sa sb inbandA inbandB).Leads sa sb code side false := by
    refine ⟨⟨hda, hdb, rfl, rfl⟩, rfl, rfl, ?_⟩
    have hus : (start sa sb inbandA inbandB).speaker code side = ⟨.settled false, true, []⟩ := by
      show Speaker.mk (sa.half code side) (sa.supports code side) [] = _
      rw [OptionSet.half_of_new hna, hA]
      rfl
    have hthem : (start sa sb inbandA inbandB).swap.speaker code side.other =
        ⟨.settled false, true, []⟩ := by
      show Speaker.mk (sb.half code side.other) (sb.supports code side.other) [] = _
      rw [OptionSet.half_of_new hnb, hB]
      rfl
    rw [thread, hus, hthem]
    exact .rest
  have hrun := hstart.run hb
  obtain ⟨hra, hrb, hwa, hwb⟩ := hq
  have hinA := hrun.sound.toA
  have hinB := hrun.sound.toB
  rw [hwa] at hinA
  rw [hwb] at hinB
  refine hrun.led.half_of_silent ?_ ?_
  · show told (inbox _) code side = []
    rw [messages_of_quiet hinA hrb]
    rfl
  · show told (inbox _) code side.other = []
    rw [messages_of_quiet hinB hra]
    rfl

/-- `a` changes its mind twice before it is answered, and once more while its second verb is under
way. -/
def wavering : List (Party × Act) :=
  [(.a, .request "ECHO" .localSide true), (.a, .send), (.a, .request "ECHO" .localSide false),
   (.b, .receive 2), (.a, .request "ECHO" .localSide true), (.b, .receive 5), (.b, .send),
   (.a, .request "ECHO" .localSide false), (.a, .receive 3), (.a, .send),
   (.a, .request "ECHO" .localSide true), (.b, .receive 3), (.b, .send), (.a, .receive 3),
   (.a, .send), (.b, .receive 3), (.b, .send), (.a, .receive 3)]

theorem last_request_wins_wavering :
    ((start echoSet echoSet true false).run wavering).Quiet ∧
      wishes .a echoSet 1 .localSide wavering = [true, false, true, false, true] ∧
      ((start echoSet echoSet true false).run wavering).a.options.half 1 .localSide =
        .settled true ∧
      ((start echoSet echoSet true false).run wavering).b.options.half 1 .remoteSide =
        .settled true := by
  have hnew : ∀ o ∈ [echo], o.IsNew := by simp [echo, TelnetOption.IsNew]
  have hset : ({} : OptionSet).addAll [echo] = .ok echoSet := by cbv
  have hsupp : ∀ d, echoSet.supports 1 d = true := by
    intro d
    cases d <;> rfl
  have hb : wishes .b echoSet 1 Side.localSide.other wavering = [] := by cbv
  have hq : ((start echoSet echoSet true false).run wavering).Quiet := by cbv
  have hw : wishes .a echoSet 1 .localSide wavering = [true, false, true, false, true] := by cbv
  have h := last_request_wins hnew hnew hset hset true false 1 .localSide hsupp hsupp wavering hb hq
  rw [hw] at h
  exact ⟨hq, hw, h⟩

end Link

end VatTerminal.Telnet
