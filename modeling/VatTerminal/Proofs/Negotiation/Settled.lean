import VatTerminal.Proofs.Negotiation.Lookup

/-! # Settled halves

A half is unsettled while a request of ours waits for its answer. What the peer
says can settle it, and can turn a settled half on and off, but never unsettles
it.
-/

namespace VatTerminal

namespace Telnet

theorem Half.settled_receive {h : Half} (enable supported : Bool) (hm : h.mode ≠ .unstable) :
    (h.receive enable supported).1.mode ≠ .unstable := by
  obtain ⟨state, queued⟩ := h
  revert hm
  cases enable <;> cases supported <;> cases state <;> cases queued <;> decide

end Telnet

namespace TelnetOption

open Telnet

theorem settled_receive {o : TelnetOption} {side : Side} (v : Verb)
    (hm : o.mode side ≠ .unstable) : (o.receive v).1.mode side ≠ .unstable := by
  by_cases hs : v.side = side
  · subst hs
    rw [mode, receive, half_setHalf]
    exact Half.settled_receive _ _ hm
  · rw [mode, receive, half_setHalf_of_ne _ _ _ _ hs]
    exact hm

end TelnetOption

namespace Telnet

/-- How a half looks, where one that is not registered is off. -/
def OptionSet.modeOf (s : OptionSet) (name : String) (side : Side) : Mode :=
  ((s.byName? name).map (·.mode side)).getD .disabled

theorem OptionSet.settled_receive? {s t : OptionSet} {v : Verb} {code : UInt8} {o : TelnetOption}
    {answer : Option Verb} {name : String} {side : Side}
    (h : s.receive? v code = some (t, o, answer)) (hm : s.modeOf name side ≠ .unstable) :
    t.modeOf name side ≠ .unstable := by
  obtain ⟨x, -, hx⟩ := Option.map_eq_some_iff.mp h
  cases hx
  have hname (y : TelnetOption) : sameName (y.receive v).1.name name = sameName y.name name := by
    rw [TelnetOption.receive, TelnetOption.name_setHalf]
  rw [modeOf, byName?] at hm ⊢
  rcases find?_reviseFirst_or (l := s.entries) (q := fun o => sameName o.name name)
    (f := fun o => (o.receive v).1) hname with he | he
  · rw [he]
    exact hm
  · rw [he]
    cases hy : s.entries.find? fun o => sameName o.name name with
    | none => rintro ⟨⟩
    | some y =>
      rw [hy] at hm
      exact TelnetOption.settled_receive v hm

theorem Endpoint.settled_step {e : Endpoint} {name : String} {side : Side}
    (hm : e.options.modeOf name side ≠ .unstable) (b : UInt8) :
    (e.step b).1.options.modeOf name side ≠ .unstable := by
  unfold step
  split
  · split <;> exact hm
  · split <;> exact hm
  · exact hm
  · next v _ =>
    rw [negotiate]
    split
    · exact hm
    · next h => exact OptionSet.settled_receive? h hm

end Telnet

end VatTerminal
