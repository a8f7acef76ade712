import VatTerminal.Proofs.Negotiation.Isolation

/-! # The options of an endpoint

Options are added to an endpoint, asked for and negotiated in any order, and
answers are taken from it. Codes and names stay distinct, every half is in a state
that its option allows, and the answers that wait are whole verbs. A call that
fails has written nothing.
-/

namespace VatTerminal

open Telnet

namespace Telnet

/-- A request is queued only behind one in flight, and a half that is not supported is off. -/
structure Half.Orderly (supported : Bool) (h : Half) : Prop where
  queued : h.queued = true → h.state = .wantNo ∨ h.state = .wantYes
  unsupported : supported = false → h = {}

theorem Half.orderly_empty (supported : Bool) : Half.Orderly supported {} := ⟨nofun, fun _ => rfl⟩

theorem Half.Orderly.input {supported : Bool} {h : Half} (ho : h.Orderly supported)
    (j : Half.Input) : (h.input supported j).1.Orderly supported := by
  obtain ⟨state, queued⟩ := h
  cases supported with
  | false =>
    obtain ⟨rfl, rfl⟩ : state = .no ∧ queued = false := by simpa using ho.unsupported rfl
    rcases j with ⟨_ | _⟩ | ⟨_ | _⟩ <;> exact Half.orderly_empty false
  | true =>
    have hq := ho.queued
    refine ⟨?_, nofun⟩
    rcases j with ⟨_ | _⟩ | ⟨_ | _⟩ <;> cases state <;> cases queued <;>
      simp_all [Half.input, Half.request, Half.receive, Half.receiveEnable, Half.receiveDisable]

end Telnet

namespace TelnetOption

def Orderly (o : TelnetOption) : Prop := ∀ side, (o.half side).Orderly (o.support side)

/-- An option as it is made, asked for on either side any number of times. -/
inductive Made : TelnetOption → Prop where
  | new (code : UInt8) (name : String) (localSupport remoteSupport : Bool) :
    Made { code, name, localSupport, remoteSupport }
  | request {o : TelnetOption} (h : Made o) (side : Side) (enable : Bool) :
    Made (o.request side enable).1

variable {o : TelnetOption}

theorem Orderly.associate (h : o.Orderly) : Orderly { o with associated := true } := fun side => by
  have hside := h side
  cases side <;> exact hside

theorem Orderly.setHalf (h : o.Orderly) (side : Side) (j : Half.Input) :
    (o.setHalf side ((o.half side).input (o.support side) j).1).Orderly := by
  intro d
  rw [support_setHalf]
  by_cases hd : side = d
  · subst hd
    rw [half_setHalf]
    exact (h side).input j
  · rw [half_setHalf_of_ne _ _ _ _ hd]
    exact h d

theorem Made.orderly (h : Made o) : o.Orderly := by
  induction h with
  | new => exact fun side => by cases side <;> exact Half.orderly_empty _
  | request _ side enable ih => exact ih.setHalf side (.request enable)

end TelnetOption

namespace Telnet

theorem mem_reviseFirst {α : Type} {p : α → Bool} {f : α → α} {l : List α} {x : α}
    (h : x ∈ reviseFirst p f l) : x ∈ l ∨ ∃ y ∈ l, x = f y := by
  induction l with
  | nil => cases h
  | cons y ys ih =>
    rw [reviseFirst] at h
    split at h
    · rcases List.mem_cons.mp h with rfl | hx
      · exact .inr ⟨y, List.mem_cons_self .., rfl⟩
      · exact .inl (List.mem_cons_of_mem _ hx)
    · rcases List.mem_cons.mp h with rfl | hx
      · exact .inl (List.mem_cons_self ..)
      · rcases ih hx with hx | ⟨z, hz, rfl⟩
        · exact .inl (List.mem_cons_of_mem _ hx)
        · exact .inr ⟨z, List.mem_cons_of_mem _ hz, rfl⟩

namespace OptionSet

/-- Options that can be told apart by their codes and by their names, each of which belongs to the
endpoint and is in a state that it allows. -/
structure Orderly (s : OptionSet) : Prop where
  codes : s.Distinct
  names : s.names.Nodup
  associated : ∀ o ∈ s.entries, o.associated = true
  halves : ∀ o ∈ s.entries, o.Orderly

variable {s t : OptionSet} {o : TelnetOption}

theorem orderly_empty : ({} : OptionSet).Orderly :=
  ⟨distinct_empty, List.nodup_nil, nofun, nofun⟩

theorem names_congr (h : t.labels = s.labels) : t.names = s.names := by
  have hn (u : OptionSet) : u.names = u.labels.map (·.1.toLower) := by simp [names, labels]
  rw [hn, hn, h]

/-- What is added passes for one that was made by hand, since it belonged to no endpoint. -/
theorem Orderly.add (h : s.Orderly) (ho : o.associated = false → o.Made) (ha : s.add o = .ok t) :
    t.Orderly := by
  obtain ⟨-, -, hnew, ht⟩ := add_ok ha
  have hmem {x : TelnetOption} (hx : x ∈ t.entries) :
      x ∈ s.entries ∨ x = { o with associated := true } := by
    simpa [ht] using hx
  refine ⟨(distinct_add h.codes ha).1, nodup_names_add h.names ha, fun x hx => ?_, fun x hx => ?_⟩
  · rcases hmem hx with hx | rfl
    · exact h.associated x hx
    · rfl
  · rcases hmem hx with hx | rfl
    · exact h.halves x hx
    · exact (ho hnew).orderly.associate

theorem Orderly.reviseFirst (h : s.Orderly) (p : TelnetOption → Bool) {side : Side}
    {j : Half.Input} {f : TelnetOption → TelnetOption}
    (hf : ∀ x, f x = x.setHalf side ((x.half side).input (x.support side) j).1) :
    Orderly ⟨reviseFirst p f s.entries⟩ := by
  have hl := labels_reviseFirst (s := s) (p := p) side _ hf
  refine ⟨h.codes.congr hl, ?_, fun x hx => ?_, fun x hx => ?_⟩
  · rw [names_congr hl]
    exact h.names
  · rcases mem_reviseFirst hx with hx | ⟨y, hy, rfl⟩
    · exact h.associated x hx
    · rw [hf, TelnetOption.associated_setHalf]
      exact h.associated y hy
  · rcases mem_reviseFirst hx with hx | ⟨y, hy, rfl⟩
    · exact h.halves x hx
    · rw [hf]
      exact (h.halves y hy).setHalf side j

theorem Orderly.request (h : s.Orderly) {name : String} {side : Side} {enable : Bool}
    {code : UInt8} {answer : Option Verb} (hr : s.request name side enable = .ok (t, code, answer)) :
    t.Orderly := by
  rw [OptionSet.request] at hr
  split at hr
  · cases hr
  · cases hr
    exact h.reviseFirst _ (j := .request enable) fun _ => rfl

theorem Orderly.receive? (h : s.Orderly) {v : Verb} {code : UInt8} {answer : Option Verb}
    (hr : s.receive? v code = some (t, o, answer)) : t.Orderly := by
  obtain ⟨x, -, hx⟩ := Option.map_eq_some_iff.mp hr
  cases hx
  exact h.reviseFirst _ (j := .receive v.enables) fun _ => rfl

end OptionSet

namespace Endpoint

/-- The options are orderly, and what waits to be sent are whole verbs. -/
structure Orderly (e : Endpoint) : Prop where
  options : e.options.Orderly
  replies : ∃ ms, e.replies = encodeMessages ms

variable {e : Endpoint}

theorem Orderly.input (h : e.Orderly) (i : Input) : (e.input i).Orderly := by
  obtain ⟨ms, hms⟩ := h.replies
  refine ⟨?_, ms ++ e.decides i, by rw [replies_input, hms, encodeMessages_append]⟩
  cases i with
  | request name side enable =>
    simp only [Endpoint.input, request]
    cases hr : e.options.request name side enable with
    | error err => exact h.options
    | ok r => exact h.options.request hr
  | byte b =>
    simp only [Endpoint.input]
    cases hm : (e.framing.step b).2 with
    | none =>
      rw [(step_of_no_verb hm).1]
      exact h.options
    | some m =>
      rw [step_of_verb hm, negotiate]
      cases hr : e.options.receive? m.1 m.2 with
      | none => exact h.options
      | some r => exact h.options.receive? hr

theorem Orderly.decode (h : e.Orderly) (bytes : List UInt8) : (e.decode bytes).1.Orderly := by
  induction bytes generalizing e with
  | nil => exact h
  | cons b bs ih =>
    have hstep : (e.step b).1.Orderly := h.input (.byte b)
    rw [Endpoint.decode]
    split
    · next hs => simpa [hs] using hstep
    · next hs => exact ih (by simpa [hs] using hstep)

/-- A call in place. What it has written stays if it fails. -/
abbrev Calling (α : Type) := EStateM Error Endpoint α

namespace Calling

/-- Give an option to an endpoint. It can belong to one only. -/
def associate (o : TelnetOption) : Calling TelnetOption :=
  if o.associated then throw (.alreadyAssociated o.name) else pure { o with associated := true }

def addOption (o : TelnetOption) : Calling Unit := do
  let s := (← get).options
  if (s.get? o.code).isSome || (s.byName? o.name).isSome then
    throw (.duplicateOption o.code o.name)
  let o ← associate o
  modify fun e => { e with options := ⟨e.options.entries ++ [o]⟩ }

def request (name : String) (side : Side) (enable : Bool) : Calling UInt8 := do
  match (← get).options.byName? name with
  | none => throw (.unknownOption name)
  | some o =>
    let (_, answer) := o.request side enable
    modify fun e =>
      { e with
        options := ⟨reviseFirst (fun o => sameName o.name name) (fun o => (o.request side enable).1)
          e.options.entries⟩ }
    modify fun e => e.reply o.code answer
    return o.code

theorem run_addOption (o : TelnetOption) (e : Endpoint) :
    (addOption o).run e = match e.addOption o with
      | .ok e' => .ok () e'
      | .error err => .error err e := by
  rw [Endpoint.addOption, OptionSet.add]
  by_cases htaken : (e.options.get? o.code).isSome || (e.options.byName? o.name).isSome
  · rw [if_pos htaken]
    rw [Bool.or_eq_true] at htaken
    simp [addOption, htaken]
    rfl
  · rw [if_neg htaken]
    rw [Bool.or_eq_true] at htaken
    cases hshared : o.associated <;> simp [addOption, associate, htaken, hshared] <;> rfl

theorem run_request (name : String) (side : Side) (enable : Bool) (e : Endpoint) :
    (request name side enable).run e = match e.request name side enable with
      | .ok (e', code) => .ok code e'
      | .error err => .error err e := by
  rw [Endpoint.request, OptionSet.request]
  cases hname : e.options.byName? name with
  | none =>
    simp [request, hname]
    rfl
  | some o => simp [request, hname]

end Calling

inductive Call where
  | addOption (o : TelnetOption)
  | request (name : String) (side : Side) (enable : Bool)
  | decode (bytes : List UInt8)
  | takeReplies
  deriving DecidableEq

def Call.carryOut : Call → Calling Unit
  | addOption o => Calling.addOption o
  | request name side enable => do
    let _ ← Calling.request name side enable
    return ()
  | decode bytes => modify fun e => (e.decode bytes).1
  | takeReplies => modify fun e => e.takeReplies.2

def call (e : Endpoint) (c : Call) : Endpoint :=
  match c.carryOut.run e with
  | .ok _ e | .error _ e => e

def after (e : Endpoint) (cs : List Call) : Endpoint := cs.foldl call e

theorem run_carryOut_request (name : String) (side : Side) (enable : Bool) (e : Endpoint) :
    (Call.request name side enable).carryOut.run e = match e.request name side enable with
      | .ok (e', _) => .ok () e'
      | .error err => .error err e := by
  rw [Call.carryOut, EStateM.run_bind, Calling.run_request]
  cases e.request name side enable <;> rfl

theorem eq_of_error {c : Call} {err : Error} {e' : Endpoint}
    (h : c.carryOut.run e = .error err e') : e' = e := by
  cases c with
  | addOption o =>
    rw [Call.carryOut, Calling.run_addOption] at h
    split at h
    · cases h
    · cases h
      rfl
  | request name side enable =>
    rw [run_carryOut_request] at h
    split at h
    · cases h
    · cases h
      rfl
  | decode bytes => cases h
  | takeReplies => cases h

theorem Orderly.call (h : e.Orderly) {c : Call}
    (hc : ∀ o, c = .addOption o → o.associated = false → o.Made) : (e.call c).Orderly := by
  cases c with
  | addOption o =>
    rw [Endpoint.call, Call.carryOut, Calling.run_addOption, Endpoint.addOption]
    cases ha : e.options.add o with
    | error err => exact h
    | ok s => exact ⟨h.options.add (hc o rfl) ha, h.replies⟩
  | request name side enable =>
    have hinput : e.call (.request name side enable) = e.input (.request name side enable) := by
      rw [Endpoint.call, run_carryOut_request, Endpoint.input]
      cases e.request name side enable <;> rfl
    rw [hinput]
    exact h.input _
  | decode bytes => exact h.decode bytes
  | takeReplies => exact ⟨h.options, [], rfl⟩

theorem Orderly.after (h : e.Orderly) {cs : List Call}
    (hcs : ∀ o, .addOption o ∈ cs → o.associated = false → o.Made) : (e.after cs).Orderly := by
  refine List.foldlRecOn cs _ h ?_
  intro e h c hm
  exact h.call fun o hc => hcs o (hc ▸ hm)

/-- Whatever is called for on an endpoint that has no options at first, its options have distinct
codes and distinct names and belong to it, none of their halves is in a state that it does not
allow, and what waits to be sent are whole verbs. A call that fails leaves the endpoint as it is. -/
theorem after_orderly {e : Endpoint} (ho : e.options = {}) (hr : e.replies = []) {cs : List Call}
    (hcs : ∀ o, .addOption o ∈ cs → o.associated = false → o.Made) :
    let e' := e.after cs
    e'.options.Orderly ∧ (∃ ms, e'.replies = encodeMessages ms) ∧
      ∀ (c : Call) err e'', c.carryOut.run e' = .error err e'' → e'' = e' := by
  intro e'
  have hstart : e.Orderly := ⟨ho ▸ OptionSet.orderly_empty, [], hr⟩
  have hafter : e'.Orderly := hstart.after hcs
  exact ⟨hafter.options, hafter.replies, fun c err e'' h => eq_of_error h⟩

/-- An option that has been asked for by hand is added, and then once more. Verbs are cut short. -/
def unruly : List Call :=
  [.addOption (Link.echo.request .localSide true).1, .addOption Link.echo,
    .decode [255, 253, 1, 255], .decode [254, 1], .decode [255, 253, 9, 255], .takeReplies,
    .decode [251, 1], .decode [255, 251, 9, 255]]

theorem after_orderly_unruly :
    let e' := ({} : Endpoint).after unruly
    (∀ o, .addOption o ∈ unruly → o.associated = false → o.Made) ∧ e'.options.Orderly ∧
      e'.options.codes = [1] ∧ (∃ ms, e'.replies = encodeMessages ms) ∧
      e'.replies = [255, 253, 1, 255, 254, 9] ∧
      ∀ err e'', (Call.addOption Link.echo).carryOut.run e' = .error err e'' → e'' = e' := by
  intro e'
  have hmade : ∀ o, .addOption o ∈ unruly → o.associated = false → o.Made := by
    intro o hm _
    have hecho : Link.echo.Made := .new 1 "ECHO" true true
    obtain rfl | rfl : o = (Link.echo.request .localSide true).1 ∨ o = Link.echo := by
      simpa [unruly] using hm
    · exact hecho.request .localSide true
    · exact hecho
  obtain ⟨horderly, hreplies, hfail⟩ := after_orderly (e := {}) rfl rfl hmade
  refine ⟨hmade, horderly, ?_, hreplies, ?_, hfail _⟩
  · decide +kernel
  · decide +kernel

end Endpoint

end Telnet

end VatTerminal
