import VatTerminal.Proofs.Frame.RoundTrip
import VatTerminal.Proofs.Negotiation.Isolation

/-! # Contents

Of what an endpoint makes of its bytes, the data, the commands and the codes of
subnegotiations are contents. They are found by the framing alone. Two endpoints
that read the same bytes find the same contents at the same places, whatever
options they have and whatever is wished for on either meanwhile.
-/

namespace VatTerminal.Telnet

/-- What an event says, but for the options. Of a subnegotiation this is the code. -/
inductive Content where
  | data (byte : UInt8)
  | command (c : Command)
  | subnegotiation (code : UInt8)
  deriving DecidableEq

def Event.content? : Event → Option Content
  | .data b => some (.data b)
  | .command c => some (.command c)
  | .option o => if o.subnegotiation then some (.subnegotiation o.code) else none

namespace Framing

def content? (inband : Bool) (f : Framing) (b : UInt8) : Option Content :=
  match f with
  | plain => if b = iac then none else some (.data b)
  | escaped =>
    match Escaped.ofByte b with
    | .quoted => some (.data iac)
    | .command c =>
      if inband && c != .subnegotiationEnd then some (.data c.byte) else some (.command c)
    | .subnegotiation | .verb _ | .stray => none
  | subnegotiation => some (.subnegotiation b)
  | negotiation _ => none

/-- The framing after every byte, with the content that the byte completes. -/
def trace (inband : Bool) (f : Framing) : List UInt8 → List (Framing × Option Content)
  | [] => []
  | b :: bs => ((f.step b).1, f.content? inband b) :: (f.step b).1.trace inband bs

end Framing

namespace Endpoint

def Input.byte? : Input → Option UInt8
  | .request _ _ _ => none
  | .byte b => some b

def bytes (is : List Input) : List UInt8 := is.filterMap Input.byte?

def raises (e : Endpoint) : Input → Option Event
  | .request _ _ _ => none
  | .byte b => (e.step b).2

def heard (e : Endpoint) : List Input → List Event
  | [] => []
  | i :: is => (e.raises i).toList ++ (e.input i).heard is

/-- The framing after every byte, with the content of the event that the byte completes. -/
def trace (e : Endpoint) : List Input → List (Framing × Option Content)
  | [] => []
  | .request name side enable :: is => (e.input (.request name side enable)).trace is
  | .byte b :: is =>
    ((e.step b).1.framing, (e.step b).2.bind Event.content?) :: (e.step b).1.trace is

section Step

variable {e : Endpoint}

theorem inband_step (b : UInt8) : (e.step b).1.inband = e.inband := by
  obtain ⟨f, options, replies, inband, strays⟩ := e
  cases f with
  | plain =>
    simp only [step]
    split <;> rfl
  | escaped =>
    simp only [step]
    cases Escaped.ofByte b <;> rfl
  | subnegotiation => rfl
  | negotiation v => exact inband_negotiate _ v b

theorem content_negotiate (v : Verb) (code : UInt8) :
    (e.negotiate v code).2.bind Event.content? = none := by
  unfold negotiate
  split
  · rfl
  · next answer _ => cases answer <;> rfl

theorem content_commandEvent (c : Command) :
    (e.commandEvent c).content? =
      if e.inband && c != .subnegotiationEnd then some (.data c.byte) else some (.command c) := by
  unfold commandEvent
  split <;> rfl

/-- The framing alone finds the contents. -/
theorem content_step (b : UInt8) :
    (e.step b).2.bind Event.content? = e.framing.content? e.inband b := by
  obtain ⟨f, options, replies, inband, strays⟩ := e
  cases f with
  | plain =>
    simp only [step, Framing.content?]
    split <;> rfl
  | escaped =>
    simp only [step, Framing.content?]
    cases Escaped.ofByte b with
    | command c => exact content_commandEvent c
    | _ => rfl
  | subnegotiation => rfl
  | negotiation v => exact content_negotiate v b

theorem input_request (name : String) (side : Side) (enable : Bool) :
    (e.input (.request name side enable)).framing = e.framing ∧
      (e.input (.request name side enable)).inband = e.inband := by
  simp only [input, request]
  cases e.options.request name side enable with
  | error err => exact ⟨rfl, rfl⟩
  | ok r => exact ⟨rfl, rfl⟩

end Step

section Run

variable (e : Endpoint)

theorem trace_eq (is : List Input) : e.trace is = e.framing.trace e.inband (bytes is) := by
  induction is generalizing e with
  | nil => rfl
  | cons i is ih =>
    cases i with
    | request name side enable =>
      obtain ⟨hframing, hinband⟩ := e.input_request name side enable
      rw [trace, ih, hframing, hinband]
      rfl
    | byte b =>
      rw [trace, ih, inband_step, framing_step, content_step]
      rfl

theorem contents_heard (is : List Input) :
    (e.heard is).filterMap Event.content? = (e.trace is).filterMap (·.2) := by
  induction is generalizing e with
  | nil => rfl
  | cons i is ih =>
    cases i with
    | request name side enable => exact ih _
    | byte b =>
      have hhead : (e.step b).2.toList.filterMap Event.content? =
          ((e.step b).2.bind Event.content?).toList := by
        cases (e.step b).2 with
        | none => rfl
        | some event => cases h : event.content? <;> simp [h]
      have htail := ih (e.step b).1
      rw [heard, List.filterMap_append, raises, hhead, trace]
      simp only [input, htail]
      cases (e.step b).2.bind Event.content? <;> simp

theorem framing_run (is : List Input) :
    (e.run is).framing = (bytes is).foldl (fun f b => (f.step b).1) e.framing := by
  induction is generalizing e with
  | nil => rfl
  | cons i is ih =>
    refine (ih (e.input i)).trans ?_
    cases i with
    | request name side enable =>
      rw [(e.input_request name side enable).1]
      rfl
    | byte b =>
      show _ = (bytes is).foldl (fun f b => (f.step b).1) (e.framing.step b).1
      rw [← framing_step]
      rfl

theorem inband_run (is : List Input) : (e.run is).inband = e.inband := by
  induction is generalizing e with
  | nil => rfl
  | cons i is ih =>
    refine (ih (e.input i)).trans ?_
    cases i with
    | request name side enable => exact (e.input_request name side enable).2
    | byte b => exact inband_step b

/-- To call for the next event until there is none is to read byte after byte. -/
theorem decodeAll_eq_run (bs : List UInt8) :
    e.decodeAll bs = (e.run (bs.map .byte), e.heard (bs.map .byte)) := by
  rw [decodeAll_eq_drain]
  induction bs generalizing e with
  | nil => rfl
  | cons b bs ih =>
    simp only [drain, ih]
    rfl

end Run

section Pair

variable {e f : Endpoint} {is js : List Input}

theorem trace_congr (hf : e.framing = f.framing) (hi : e.inband = f.inband)
    (hb : bytes is = bytes js) : e.trace is = f.trace js := by
  rw [trace_eq, trace_eq, hf, hi, hb]

theorem framing_congr (hf : e.framing = f.framing) (hb : bytes is = bytes js) :
    (e.run is).framing = (f.run js).framing := by
  rw [framing_run, framing_run, hf, hb]

/-- Two endpoints in the same framing, to which the same bytes are put between any requests, are in
the same framing after each of them, and each completes the same content. It makes no difference if
the bytes that follow are decoded in one go. -/
theorem contents_agree (hf : e.framing = f.framing) (hi : e.inband = f.inband)
    (hb : bytes is = bytes js) :
    e.trace is = f.trace js ∧
      (e.heard is).filterMap Event.content? = (f.heard js).filterMap Event.content? ∧
      (e.run is).framing = (f.run js).framing ∧
      ∀ bs : List UInt8,
        let r := (e.run is).decodeAll bs
        let r' := (f.run js).decodeAll bs
        r.2.filterMap Event.content? = r'.2.filterMap Event.content? ∧
          r.1.framing = r'.1.framing := by
  have hrun := framing_congr hf hb
  have hinband : (e.run is).inband = (f.run js).inband := by rw [inband_run, inband_run, hi]
  refine ⟨trace_congr hf hi hb, ?_, hrun, ?_⟩
  · rw [contents_heard, contents_heard, trace_congr hf hi hb]
  · intro bs r r'
    simp only [r, r', decodeAll_eq_run, contents_heard]
    constructor
    · rw [trace_congr hrun hinband rfl]
    · exact framing_congr hrun rfl

end Pair

/-- In the middle of an escape, with options and commands among the data. -/
def busy : Endpoint where
  framing := .escaped
  options := pairSet
  inband := true

def idle : Endpoint where
  framing := .escaped
  inband := true

/-- The end of a verb, data, a subnegotiation, a command, a quoted byte and another verb. -/
def medley : List UInt8 :=
  [253, 1, 65, 255, 250, 3, 255, 241, 255, 255, 255, 251, 3]

def wished : List Input :=
  .request "SGA" .remoteSide true :: medley.map .byte ++ [.request "ECHO" .localSide false]

theorem contents_agree_busy :
    let contents := [Content.data 65, .subnegotiation 3, .data 241, .data 255]
    bytes wished = bytes (medley.map .byte) ∧
      (busy.heard wished).filterMap Event.content? = contents ∧
      (idle.heard (medley.map .byte)).filterMap Event.content? = contents ∧
      (busy.heard wished).length = 5 ∧ busy.trace wished = idle.trace (medley.map .byte) := by
  intro contents
  have hb : bytes wished = bytes (medley.map .byte) := by decide
  obtain ⟨htrace, hheard, -⟩ := contents_agree (e := busy) (f := idle) rfl rfl hb
  have hidle : (idle.heard (medley.map .byte)).filterMap Event.content? = contents := by decide
  exact ⟨hb, hheard.trans hidle, hidle, by decide +kernel, htrace⟩

end Endpoint

end VatTerminal.Telnet
