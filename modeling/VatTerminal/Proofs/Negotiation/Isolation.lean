import VatTerminal.Proofs.Negotiation.Decisions

/-! # Halves on their own

Every half of a registered option goes the way it would go on its own. It is
put the requests that name the option and the side, and the verbs of the peer
for the code and the side, and whatever else the endpoint is put does not
concern it.
-/

namespace VatTerminal.Telnet

namespace Half

inductive Input where
  | request (enable : Bool)
  | receive (enable : Bool)
  deriving DecidableEq

/-- To ask for what is not supported is to ask for it to be off. -/
def input (supported : Bool) (h : Half) : Input → Half × Verdict
  | .request enable => h.request (enable && supported)
  | .receive enable => h.receive enable supported

/-- A half of a side on its own, with the verbs that it says. -/
def run (side : Side) (supported : Bool) (h : Half) : List Input → Half × List Verb
  | [] => (h, [])
  | i :: is =>
    let (h, r) := h.input supported i
    let (h, vs) := h.run side supported is
    (h, (r.verb? side).toList ++ vs)

theorem run_append (side : Side) (supported : Bool) (h : Half) (is js : List Input) :
    h.run side supported (is ++ js) =
      let (h, vs) := h.run side supported is
      let (h, ws) := h.run side supported js
      (h, vs ++ ws) := by
  induction is generalizing h with
  | nil => rfl
  | cons i is ih => simp [run, ih]

end Half

/-- The verbs that speak of our side of a code. -/
def spoken (ms : List Message) (code : UInt8) (side : Side) : List Verb :=
  (ms.filter fun m => m.2 = code ∧ m.1.side = side.other).map (·.1)

theorem spoken_append (ms ns : List Message) (code : UInt8) (side : Side) :
    spoken (ms ++ ns) code side = spoken ms code side ++ spoken ns code side := by
  simp [spoken]

theorem Verdict.side_of_verb? {r : Verdict} {side : Side} {v : Verb} (h : r.verb? side = some v) :
    v.side = side.other := by
  cases r <;> cases side <;> cases h <;> rfl

theorem spoken_saying (c code : UInt8) (d side : Side) (r : Verdict) :
    spoken (Endpoint.saying c (r.verb? d)) code side =
      if c = code ∧ d = side then (r.verb? d).toList else [] := by
  cases hr : r.verb? d with
  | none => simp [spoken, Endpoint.saying]
  | some v =>
    have hv : v.side = side.other ↔ d = side := by
      rw [Verdict.side_of_verb? hr]
      cases d <;> cases side <;> simp [Side.other]
    by_cases h : c = code ∧ d = side <;> simp [spoken, Endpoint.saying, hv, h]

namespace OptionSet

variable {s t : OptionSet} {name : String} {code : UInt8}

/-- The names that refer to the option of a code are those that match its own. -/
def Named (s : OptionSet) (name : String) (code : UInt8) : Prop :=
  ∀ n, s.codeOf? n = some code ↔ sameName name n = true

theorem Named.congr (h : s.Named name code) (hl : t.labels = s.labels) : t.Named name code := by
  rw [Named, codeOf?_congr hl]
  exact h

def names (s : OptionSet) : List String := s.entries.map (·.name.toLower)

theorem sameName_of_byName? {n : String} {o : TelnetOption} (h : s.byName? n = some o) :
    sameName o.name n = true := by
  unfold byName? at h
  simpa using List.find?_some h

theorem nodup_names_add {o : TelnetOption} (hs : s.names.Nodup) (h : s.add o = .ok t) :
    t.names.Nodup := by
  obtain ⟨-, hname, -, ht⟩ := add_ok h
  have hfree : o.name.toLower ∉ s.names := by
    intro hm
    obtain ⟨x, hx, he⟩ := List.mem_map.mp hm
    have hne := List.find?_eq_none.mp hname x hx
    simp [sameName, he] at hne
  rw [names, ht, List.map_append]
  refine List.Nodup.append hs (List.nodup_singleton _) ?_
  simpa [names] using hfree

theorem nodup_names_addAll {os : List TelnetOption} (h : ({} : OptionSet).addAll os = .ok t) :
    t.names.Nodup :=
  addAll_induction (fun _ _ _ _ hs ha => nodup_names_add hs ha) (s := {}) List.nodup_nil h

theorem named_of_mem {o : TelnetOption} (hd : s.Distinct) (hn : s.names.Nodup)
    (ho : o ∈ s.entries) : s.Named o.name o.code := by
  intro n
  constructor
  · intro h
    obtain ⟨x, hx, hc⟩ := Option.map_eq_some_iff.mp h
    obtain rfl : x = o :=
      List.inj_on_of_nodup_map hd (List.mem_of_find?_eq_some hx) ho hc
    exact sameName_of_byName? hx
  · intro h
    have hlower : o.name.toLower = n.toLower := by simpa [sameName] using h
    have hsome : (s.byName? n).isSome := by
      rw [byName?, List.find?_isSome]
      exact ⟨o, ho, h⟩
    obtain ⟨x, hx⟩ := Option.isSome_iff_exists.mp hsome
    have hx' : x.name.toLower = n.toLower := by simpa [sameName] using sameName_of_byName? hx
    obtain rfl : x = o :=
      List.inj_on_of_nodup_map hn (List.mem_of_find?_eq_some hx) ho (hx'.trans hlower.symm)
    rw [codeOf?, hx]
    rfl

theorem get?_of_code {side : Side} (h : code ∈ s.codes) :
    (s.get? code).map (·.half side) = some (s.half code side) := by
  have hsome : (s.get? code).isSome := by
    rw [get?, List.find?_isSome]
    obtain ⟨o, ho, hc⟩ := List.mem_map.mp h
    exact ⟨o, ho, beq_iff_eq.mpr hc⟩
  obtain ⟨o, ho⟩ := Option.isSome_iff_exists.mp hsome
  rw [half_of_get? ho, ho]
  rfl

theorem codes_congr (h : t.labels = s.labels) : t.codes = s.codes := by
  have hc (u : OptionSet) : u.codes = u.labels.map (·.2) := by simp [codes, labels]
  rw [hc, hc, h]

theorem Distinct.congr (h : s.Distinct) (hl : t.labels = s.labels) : t.Distinct := by
  rw [Distinct, codes_congr hl]
  exact h

end OptionSet

namespace Endpoint

/-- The half that an input is put to, and what it is there. -/
def target (e : Endpoint) : Input → Option (UInt8 × Side × Half.Input)
  | .request name side enable => (e.options.codeOf? name).map (·, side, .request enable)
  | .byte b => (e.framing.step b).2.map fun m => (m.2, m.1.side, .receive m.1.enables)

/-- What an input puts to one half, whatever the options are. -/
def Input.concern (name : String) (code : UInt8) (side : Side) (f : Framing) :
    Input → Option Half.Input
  | .request n s enable => if sameName name n ∧ s = side then some (.request enable) else none
  | .byte b =>
    match (f.step b).2 with
    | none => none
    | some (v, c) => if c = code ∧ v.side = side then some (.receive v.enables) else none

def Input.framing (f : Framing) : Input → Framing
  | .request _ _ _ => f
  | .byte b => (f.step b).1

def concerns (name : String) (code : UInt8) (side : Side) : Framing → List Input → List Half.Input
  | _, [] => []
  | f, i :: is => (i.concern name code side f).toList ++ concerns name code side (i.framing f) is

section Input

variable {e : Endpoint} {i : Input} {name : String} {code c : UInt8} {side d : Side}
  {j : Half.Input}

theorem answerTo_eq (v : Verb) (code : UInt8) :
    e.answerTo v code = ((e.options.half code v.side).receive v.enables
      (e.options.supports code v.side)).2.verb? v.side := by
  unfold answerTo
  split
  · next h =>
    have hget := OptionSet.get?_of_receive?_none h
    simp [refusal_eq, OptionSet.half, OptionSet.supports, hget]
  · next h => exact (OptionSet.receive?_some h).2

theorem input_of_no_target (h : e.target i = none) :
    (e.input i).options = e.options ∧ e.decides i = [] := by
  cases i with
  | request n s enable =>
    have hcode : e.options.codeOf? n = none := Option.map_eq_none_iff.mp h
    simp only [input, decides, request]
    cases hr : e.options.request n s enable with
    | error err => exact ⟨rfl, rfl⟩
    | ok r =>
      have hsome := (OptionSet.labels_request hr).2
      simp [hcode] at hsome
  | byte b =>
    have hm : (e.framing.step b).2 = none := Option.map_eq_none_iff.mp h
    refine ⟨(step_of_no_verb hm).1, ?_⟩
    simp only [decides, hm]

/-- Every other input moves the half it is put to, and decides on what that half says. -/
theorem input_of_target (he : e.options.Distinct) (h : e.target i = some (c, d, j)) :
    let r := (e.options.half c d).input (e.options.supports c d) j
    e.options.Moved (e.input i).options c d r.1 ∧ e.decides i = saying c (r.2.verb? d) := by
  cases i with
  | request n s enable =>
    obtain ⟨code, hcode, ht⟩ := Option.map_eq_some_iff.mp h
    cases ht
    simp only [input, decides, request]
    cases hr : e.options.request n d enable with
    | error err =>
      have hnone := codeOf?_of_error (e := e) (show e.request n d enable = .error err by
        rw [request, hr])
      simp [hnone] at hcode
    | ok r =>
      obtain ⟨t, c', answer⟩ := r
      have hsome := (OptionSet.labels_request hr).2
      obtain rfl : c = c' := by simpa [hcode] using hsome
      obtain ⟨hm, rfl⟩ := OptionSet.request_ok he hr
      exact ⟨hm, rfl⟩
  | byte b =>
    obtain ⟨⟨v, code⟩, hm, ht⟩ := Option.map_eq_some_iff.mp h
    cases ht
    have turn := turn_negotiate { e with framing := .plain } v code
    rw [← step_of_verb hm] at turn
    refine ⟨turn.moved, ?_⟩
    simp only [decides, hm, answerTo_eq]
    rfl

theorem concern_eq (hn : e.options.Named name code) :
    i.concern name code side e.framing =
      (e.target i).bind fun t => if t.1 = code ∧ t.2.1 = side then some t.2.2 else none := by
  cases i with
  | request n s enable =>
    have hname : sameName name n = true ↔ e.options.codeOf? n = some code := (hn n).symm
    simp only [Input.concern, target, hname]
    cases e.options.codeOf? n <;> simp
  | byte b =>
    simp only [Input.concern, target]
    cases (e.framing.step b).2 <;> rfl

theorem half_input (he : e.options.Distinct) (hn : e.options.Named name code) :
    ((e.input i).options.half code side, spoken (e.decides i) code side) =
      (e.options.half code side).run side (e.options.supports code side)
        (i.concern name code side e.framing).toList := by
  rw [concern_eq hn]
  cases ht : e.target i with
  | none =>
    obtain ⟨ho, hd⟩ := input_of_no_target ht
    rw [ho, hd]
    rfl
  | some t =>
    obtain ⟨c, d, j⟩ := t
    obtain ⟨hm, hd⟩ := input_of_target he ht
    rw [hm.half_eq, hd, spoken_saying]
    by_cases h : c = code ∧ d = side
    · obtain ⟨rfl, rfl⟩ := h
      simp [Half.run]
    · have h' : ¬ (code = c ∧ side = d) := fun ⟨hc, hs⟩ => h ⟨hc.symm, hs.symm⟩
      simp [h, h', Half.run]

theorem supports_input (he : e.options.Distinct) (code : UInt8) (side : Side) :
    (e.input i).options.supports code side = e.options.supports code side := by
  cases ht : e.target i with
  | none => rw [(input_of_no_target ht).1]
  | some t =>
    obtain ⟨c, d, j⟩ := t
    exact (input_of_target he ht).1.supports_eq code side

theorem framing_input : (e.input i).framing = i.framing e.framing := by
  cases i with
  | request n s enable =>
    simp only [input, Input.framing, request]
    cases e.options.request n s enable <;> rfl
  | byte b => exact framing_step

theorem half_run (he : e.options.Distinct) (hn : e.options.Named name code) (side : Side)
    (is : List Input) :
    ((e.run is).options.half code side, spoken (e.decided is) code side) =
      (e.options.half code side).run side (e.options.supports code side)
        (concerns name code side e.framing is) := by
  induction is generalizing e with
  | nil => rfl
  | cons i is ih =>
    have hl := labels_input (e := e) i
    have hrest := ih (he.congr hl) (hn.congr hl)
    rw [supports_input he, framing_input] at hrest
    rw [concerns, Half.run_append, ← half_input he hn]
    simp only [← hrest, decided, spoken_append]
    rfl

end Input

/-- Whatever an endpoint is put, what it decides on joins the replies. Every half of an option is
in the end where it would be, and has said what it would have said, had it been on its own with
the requests and the verbs that concern it. -/
theorem run_isolated {os : List TelnetOption} {e : Endpoint}
    (hs : ({} : OptionSet).addAll os = .ok e.options) (is : List Input) :
    (e.run is).replies = e.replies ++ encodeMessages (e.decided is) ∧
      ∀ o ∈ e.options.entries, ∀ side,
        let alone := (o.half side).run side (o.support side)
          (concerns o.name o.code side e.framing is)
        ((e.run is).options.get? o.code).map (·.half side) = some alone.1 ∧
          spoken (e.decided is) o.code side = alone.2 := by
  have he : e.options.Distinct := OptionSet.addAll_induction
    (fun _ _ _ _ h ha => (OptionSet.distinct_add h ha).1) OptionSet.distinct_empty hs
  have hnames := OptionSet.nodup_names_addAll hs
  refine ⟨replies_run is, ?_⟩
  intro o ho side alone
  have hget := OptionSet.get?_of_mem he ho
  have hrun := half_run he (OptionSet.named_of_mem he hnames ho) side is
  rw [OptionSet.half_of_get? hget, OptionSet.supports_of_get? hget] at hrun
  have hcode : o.code ∈ (e.run is).options.codes := by
    rw [OptionSet.codes_congr (labels_run is)]
    exact List.mem_map_of_mem ho
  rw [OptionSet.get?_of_code hcode]
  exact ⟨congrArg (some ·.1) hrun, congrArg (·.2) hrun⟩

def suppressGoAhead : TelnetOption where
  code := 3
  name := "SGA"
  localSupport := false
  remoteSupport := true

def pairSet : OptionSet :=
  ⟨[{ Link.echo with associated := true }, { suppressGoAhead with associated := true }]⟩

/-- Requests between the bytes of verbs, and verbs for either option between data, a command and a
subnegotiation. -/
def mingled : List Input :=
  [.request "ECHO" .localSide true, .byte 255, .byte 253, .request "SGA" .remoteSide true,
    .byte 1, .byte 65, .byte 255, .byte 250, .byte 3, .byte 255, .byte 241, .byte 255, .byte 252,
    .byte 3, .request "SGA" .remoteSide false, .byte 255, .byte 251, .byte 3, .byte 255, .byte 251,
    .byte 1]

theorem run_isolated_mingled :
    let e : Endpoint := { options := pairSet }
    ({} : OptionSet).addAll [Link.echo, suppressGoAhead] = .ok pairSet ∧
      ((e.run mingled).options.get? 3).map (·.half .remoteSide) = some ⟨.yes, false⟩ ∧
      spoken (e.decided mingled) 3 .remoteSide = [.do_, .do_] ∧
      spoken (e.decided mingled) 1 .localSide = [.will] := by
  intro e
  have hs : ({} : OptionSet).addAll [Link.echo, suppressGoAhead] = .ok pairSet := by cbv
  obtain ⟨-, halone⟩ := run_isolated (e := e) hs mingled
  obtain ⟨hhalf, hsaid⟩ := halone _ (List.mem_cons_of_mem _ (List.mem_singleton_self _)) .remoteSide
  obtain ⟨-, hwill⟩ := halone _ (List.mem_cons_self ..) .localSide
  refine ⟨hs, hhalf.trans ?_, hsaid.trans ?_, hwill.trans ?_⟩
  · cbv
  · cbv
  · cbv

end Endpoint

end VatTerminal.Telnet
