import VatTerminal.Proofs.Client.Paths
import VatTerminal.Proofs.Frame.RoundTrip

/-! # What goes out on a line

The data of all who hold a line and the verbs of its endpoint go out on the
same line, in whatever order they are written. Every write is made of whole
frames, so that a receiver finds the data and the verbs apart again, each in
order.
-/

namespace VatTerminal

namespace Telnet

def Event.data? : Event → Option UInt8
  | .data b => some b
  | .command _ | .option _ => none

namespace Frame

def data? : Frame → Option UInt8
  | data b => some b
  | command _ | verb _ _ => none

def IsCommand : Frame → Prop
  | command _ => True
  | data _ | verb _ _ => False

theorem Yields.data_eq {inband : Bool} {f : Frame} {es : List Event} (h : Yields inband f es)
    (hf : ¬ f.IsCommand) : es.filterMap Event.data? = f.data?.toList := by
  cases h with
  | data b => rfl
  | command => exact absurd trivial hf
  | inbandCommand => exact absurd trivial hf
  | silent v code => rfl
  | option v code mode => rfl

theorem data_of_yields {inband : Bool} {frames : List Frame} {groups : List (List Event)}
    (h : List.Forall₂ (Yields inband) frames groups) (hf : ∀ f ∈ frames, ¬ f.IsCommand) :
    groups.flatten.filterMap Event.data? = frames.filterMap data? := by
  induction h with
  | nil => rfl
  | @cons f es fs groups hy _ ih =>
    obtain ⟨hhead, htail⟩ := List.forall_mem_cons.mp hf
    rw [List.flatten_cons, List.filterMap_append, hy.data_eq hhead, ih htail]
    cases hd : f.data? <;> simp [hd]

end Frame

namespace Framing

theorem scan_encode (f : Frame) : plain.scan f.encode = (.plain, f.message?.toList) := by
  cases f with
  | data b =>
    by_cases hb : b = iac
    · subst hb
      rfl
    · simp [Frame.encode, hb, scan, step, Frame.message?]
  | command c => cases c <;> rfl
  | verb v code => cases v <;> rfl

theorem scan_encodeAll (frames : List Frame) :
    plain.scan (Frame.encodeAll frames) = (.plain, frames.filterMap Frame.message?) := by
  induction frames with
  | nil => rfl
  | cons f fs ih =>
    rw [Frame.encodeAll_cons, scan_append, scan_encode, ih]
    cases hm : f.message? <;> simp [hm]

end Framing

inductive Parcel where
  | data (payload : List UInt8)
  | verbs (ms : List Message)
  deriving DecidableEq

namespace Parcel

def encode : Parcel → List UInt8
  | data payload => encodeData payload
  | verbs ms => encodeMessages ms

def frames : Parcel → List Frame
  | data payload => payload.map .data
  | verbs ms => ms.map fun m => .verb m.1 m.2

def payload : Parcel → List UInt8
  | data payload => payload
  | verbs _ => []

def messages : Parcel → List Message
  | data _ => []
  | verbs ms => ms

theorem encode_eq (p : Parcel) : p.encode = Frame.encodeAll p.frames := by
  cases p with
  | data payload => exact Frame.encodeData_eq payload
  | verbs ms => exact (List.flatMap_map ..).symm

theorem flatten_encode (ps : List Parcel) :
    (ps.map encode).flatten = Frame.encodeAll (ps.flatMap frames) := by
  induction ps with
  | nil => rfl
  | cons p ps ih =>
    rw [List.map_cons, List.flatten_cons, ih, encode_eq, List.flatMap_cons, Frame.encodeAll,
      Frame.encodeAll, Frame.encodeAll, List.flatMap_append]

theorem messages_frames (ps : List Parcel) :
    (ps.flatMap frames).filterMap Frame.message? = ps.flatMap messages := by
  induction ps with
  | nil => rfl
  | cons p ps ih =>
    rw [List.flatMap_cons, List.filterMap_append, ih, List.flatMap_cons]
    congr 1
    cases p with
    | data payload => simp [frames, messages, Frame.message?]
    | verbs ms => simp [frames, messages, Frame.message?, Function.comp_def]

theorem payload_frames (ps : List Parcel) :
    (ps.flatMap frames).filterMap Frame.data? = ps.flatMap payload := by
  induction ps with
  | nil => rfl
  | cons p ps ih =>
    rw [List.flatMap_cons, List.filterMap_append, ih, List.flatMap_cons]
    congr 1
    cases p with
    | data payload => simp [frames, Parcel.payload, Frame.data?, Function.comp_def]
    | verbs ms => simp [frames, Parcel.payload, Frame.data?, Function.comp_def]

theorem not_isCommand_frames (p : Parcel) {f : Frame} (hf : f ∈ p.frames) : ¬ f.IsCommand := by
  cases p with
  | data payload =>
    obtain ⟨b, -, rfl⟩ := List.mem_map.mp hf
    exact id
  | verbs ms =>
    obtain ⟨m, -, rfl⟩ := List.mem_map.mp hf
    exact id

theorem drain_encode {r : Endpoint} (hr : r.framing = .plain) (ps : List Parcel) :
    (r.drain (ps.map encode).flatten).1 = r.hear (ps.flatMap messages) ∧
      (r.drain (ps.map encode).flatten).2.filterMap Event.data? = ps.flatMap payload := by
  obtain ⟨hhear, groups, hevents, hyields⟩ := Endpoint.drain_encodeAll hr (ps.flatMap frames)
  rw [flatten_encode, hhear, messages_frames, ← hevents]
  refine ⟨rfl, ?_⟩
  rw [Frame.data_of_yields hyields, payload_frames]
  intro f hf
  obtain ⟨p, -, hp⟩ := List.mem_flatMap.mp hf
  exact p.not_isCommand_frames hp

end Parcel

end Telnet

namespace Client

open Telnet (Parcel Message encodeMessages)

namespace Line

/-- What has gone out on a line that takes every write. Nothing is held back in the frame. -/
structure Sent (l : Line) (ps : List Parcel) : Prop where
  writeFault : l.writeFault = none
  closed : l.closed = false
  written : l.written = ps.map Parcel.encode
  frame : l.frame = []

variable {l : Line} {ps : List Parcel}

theorem Sent.read (h : l.Sent ps) (limit : Option Nat) : (l.read limit).2.Sent ps :=
  ⟨h.writeFault, h.closed, h.written, h.frame⟩

theorem Sent.arrive (h : l.Sent ps) (a : Arrival) : (l.arrive a).Sent ps :=
  ⟨h.writeFault, h.closed, h.written, h.frame⟩

theorem Sent.writeFrame_eq (h : l.Sent ps) (frame : List UInt8) :
    l.writeFrame frame = (.ok (), { l with written := l.written ++ [frame] }) := by
  unfold Line.writeFrame
  split
  · next hf =>
    rw [h.writeFault] at hf
    cases hf
  · rfl

/-- A call writes what it was given and nothing of another call. -/
theorem Sent.sendData_eq (h : l.Sent ps) {payload : List UInt8} (hp : payload ≠ []) :
    l.sendData payload =
      (.ok (), { l with written := l.written ++ [Telnet.encodeData payload] }) := by
  have hempty : { l with frame := [] } = l := by rw [← h.frame]
  have hjoined : l.frame ++ Telnet.encodeData payload = Telnet.encodeData payload := by
    rw [h.frame, List.nil_append]
  rw [Line.sendData, if_neg hp, if_neg (by simp [h.closed]), hempty, hjoined, h.writeFrame_eq]

theorem Sent.concat (h : l.Sent ps) (p : Parcel) :
    ({ l with written := l.written ++ [p.encode] } : Line).Sent (ps ++ [p]) := by
  refine ⟨h.writeFault, h.closed, ?_, h.frame⟩
  rw [List.map_append, ← h.written]
  rfl

theorem Sent.sendData (h : l.Sent ps) (payload : List UInt8) :
    ∃ qs, (l.sendData payload).2.Sent (ps ++ qs) ∧ qs.flatMap Parcel.payload = payload ∧
      qs.flatMap Parcel.messages = [] := by
  by_cases hp : payload = []
  · subst hp
    exact ⟨[], by rwa [List.append_nil], rfl, rfl⟩
  · refine ⟨[.data payload], ?_, List.flatMap_singleton .., rfl⟩
    rw [h.sendData_eq hp]
    exact h.concat (.data payload)

theorem Sent.sendRaw (h : l.Sent ps) (ms : List Message) :
    ∃ qs, (l.sendRaw (encodeMessages ms)).2.Sent (ps ++ qs) ∧ qs.flatMap Parcel.payload = [] ∧
      qs.flatMap Parcel.messages = ms := by
  unfold Line.sendRaw
  split
  · next hp =>
    have hms : ms = [] := by
      rw [← Telnet.decodeMessages_encodeMessages ms, hp]
      rfl
    subst hms
    exact ⟨[], by rwa [List.append_nil], rfl, rfl⟩
  · refine ⟨[.verbs ms], ?_, rfl, List.flatMap_singleton ..⟩
    rw [if_neg (by simp [h.closed]), h.writeFrame_eq]
    exact h.concat (.verbs ms)

end Line

/-- A connection at work, with what it was to say. -/
structure Traffic where
  connection : Connection
  data : List UInt8 := []
  decided : List Message := []
  deriving DecidableEq

namespace Traffic

inductive Act where
  | send (payload : List UInt8)
  | step (s : Connection.Step)
  | arrive (a : Arrival)
  deriving DecidableEq

def act (h : Traffic) : Act → Traffic
  | .send payload =>
    { h with
      connection :=
        { h.connection with line := (h.connection.line.sendData payload).2 }
      data := h.data ++ payload }
  | .step s =>
    { h with
      connection := h.connection.step s
      decided := h.decided ++ h.connection.stream.telnet.decided (h.connection.puts s) }
  | .arrive a =>
    { h with connection := { h.connection with line := h.connection.line.arrive a } }

def run (h : Traffic) (acts : List Act) : Traffic := acts.foldl act h

/-- What has gone out are these parcels, and these verbs wait to go out. -/
structure Carries (h : Traffic) (ps : List Parcel) (waiting : List Message) : Prop where
  line : h.connection.line.Sent ps
  replies : h.connection.stream.telnet.replies = encodeMessages waiting
  data : ps.flatMap Parcel.payload = h.data
  decided : ps.flatMap Parcel.messages ++ waiting = h.decided

variable {h : Traffic} {ps : List Parcel} {waiting : List Message}

theorem Carries.send (hc : h.Carries ps waiting) (payload : List UInt8) :
    ∃ qs, (h.act (.send payload)).Carries (ps ++ qs) waiting := by
  obtain ⟨qs, hsent, hpayload, hmessages⟩ := hc.line.sendData payload
  refine ⟨qs, hsent, hc.replies, ?_, ?_⟩
  · rw [List.flatMap_append, hc.data, hpayload]
    rfl
  · rw [List.flatMap_append, hmessages, List.append_nil, hc.decided]
    rfl

theorem Carries.flush (hc : h.Carries ps waiting) :
    ∃ qs, (h.act (.step .flush)).Carries (ps ++ qs) [] := by
  obtain ⟨qs, hsent, hpayload, hmessages⟩ := hc.line.sendRaw waiting
  rw [← hc.replies] at hsent
  refine ⟨qs, hsent, rfl, ?_, ?_⟩
  · rw [List.flatMap_append, hpayload, List.append_nil, hc.data]
    rfl
  · rw [List.flatMap_append, hmessages, List.append_nil, hc.decided]
    exact (List.append_nil _).symm

theorem sent_step {c : Connection} (hl : c.line.Sent ps) {s : Connection.Step} (hs : s ≠ .flush) :
    (c.step s).line.Sent ps := by
  cases s with
  | fill limit =>
    show (c.fill limit).2.line.Sent ps
    rw [Connection.line_fill]
    exact hl.read limit
  | flush => exact absurd rfl hs
  | _ => exact hl

theorem Carries.step (hc : h.Carries ps waiting) {s : Connection.Step} (hs : s ≠ .flush) :
    (h.act (.step s)).Carries ps
      (waiting ++ h.connection.stream.telnet.decided (h.connection.puts s)) where
  line := sent_step hc.line hs
  replies := by
    show (h.connection.step s).stream.telnet.replies = _
    rw [Connection.telnet_step _ hs, Telnet.Endpoint.replies_run, hc.replies,
      Telnet.encodeMessages_append]
  data := hc.data
  decided := by
    rw [← List.append_assoc, hc.decided]
    rfl

theorem Carries.act (hc : h.Carries ps waiting) (a : Act) :
    ∃ ps waiting, (h.act a).Carries ps waiting := by
  cases a with
  | send payload =>
    obtain ⟨qs, h⟩ := hc.send payload
    exact ⟨_, _, h⟩
  | step s =>
    by_cases hs : s = .flush
    · subst hs
      obtain ⟨qs, h⟩ := hc.flush
      exact ⟨_, _, h⟩
    · exact ⟨_, _, hc.step hs⟩
  | arrive a => exact ⟨ps, waiting, hc.line.arrive a, hc.replies, hc.data, hc.decided⟩

theorem Carries.run (hc : h.Carries ps waiting) (acts : List Act) :
    ∃ ps waiting, (h.run acts).Carries ps waiting := by
  refine List.foldlRecOn (motive := fun h : Traffic => ∃ ps waiting, h.Carries ps waiting) acts _
    ⟨ps, waiting, hc⟩ ?_
  rintro h ⟨ps, waiting, hc⟩ a -
  exact hc.act a

theorem run_steps (h : Traffic) (steps : List Connection.Step) :
    (h.run (steps.map .step)).connection = steps.foldl Connection.step h.connection := by
  induction steps generalizing h with
  | nil => rfl
  | cons s steps ih => exact ih (h.act (.step s))

/-- However the data of those who hold the line and the steps of the connection follow each other,
every receiver in the middle of nothing finds the data in the order in which it was served, and of
the verbs hears those that the endpoint has decided on, in order, but for those that still wait to
be written. Every write is made of data or of verbs, none of either in part. Nothing is held back, so
that whoever sends next writes that and nothing else. Calls of the connection are made of steps, and
leave no verb waiting. -/
theorem run_framed {s : Settings} {line : Line} {c : Connection}
    (hc : Connection.wrap s line = .ok c) (hl : line.Sent []) (acts : List Act) :
    let h := ({ connection := c } : Traffic).run acts
    let wire := h.connection.line.written.flatten
    let verbs := (Telnet.Framing.plain.scan wire).2
    (∀ r : Telnet.Endpoint, r.framing = .plain →
      (r.decodeAll wire).2.filterMap Telnet.Event.data? = h.data ∧
        (r.decodeAll wire).1 = r.hear verbs ∧ (r.decodeAll wire).1.framing = .plain) ∧
      (∃ waiting, h.connection.stream.replies = encodeMessages waiting ∧
        verbs ++ waiting = h.decided) ∧
      (∀ w ∈ h.connection.line.written,
        (∃ payload, w = Telnet.encodeData payload) ∨ ∃ ms, w = encodeMessages ms) ∧
      h.connection.line.frame = [] ∧
      (∀ payload, payload ≠ [] → h.connection.line.sendData payload =
        (.ok (), { h.connection.line with
          written := h.connection.line.written ++ [Telnet.encodeData payload] })) ∧
      ∀ k, (∃ steps : List Connection.Step,
          (h.connection.perform k).2 = (h.run (steps.map .step)).connection) ∧
        (h.connection.stream.replies = [] → (h.connection.perform k).2.stream.replies = []) := by
  intro h wire verbs
  have hstart : ({ connection := c } : Traffic).Carries [] [] := by
    unfold Connection.wrap at hc
    split at hc
    · cases hc
    · cases hc
      exact ⟨hl, rfl, rfl, rfl⟩
  obtain ⟨ps, waiting, hcarries⟩ := hstart.run acts
  have hwire : wire = (ps.map Parcel.encode).flatten := congrArg List.flatten hcarries.line.written
  have hverbs : verbs = ps.flatMap Parcel.messages := by
    simp only [verbs]
    rw [hwire, Parcel.flatten_encode, Telnet.Framing.scan_encodeAll, Parcel.messages_frames]
  refine ⟨?_, ⟨waiting, hcarries.replies, ?_⟩, ?_, hcarries.line.frame,
    fun _ => hcarries.line.sendData_eq, ?_⟩
  · intro r hr
    obtain ⟨hheard, hdata⟩ := Parcel.drain_encode hr ps
    rw [Telnet.Endpoint.decodeAll_eq_drain, hwire, hverbs, hheard, hdata]
    exact ⟨hcarries.data, rfl, (r.framing_hear _).trans hr⟩
  · rw [hverbs]
    exact hcarries.decided
  · intro w hw
    rw [hcarries.line.written] at hw
    obtain ⟨p, -, rfl⟩ := List.mem_map.mp hw
    cases p with
    | data payload => exact .inl ⟨payload, rfl⟩
    | verbs ms => exact .inr ⟨ms, rfl⟩
  · intro k
    obtain ⟨steps, hsteps⟩ := h.connection.leads_perform k
    exact ⟨⟨steps, by rw [run_steps, hsteps]⟩, Connection.replies_perform k⟩

def echoSettings : Settings where
  negotiationTimeout := 5
  options := [⟨Telnet.OptionCode.echo, "ECHO", true, true⟩]

/-- Data that ends in the introducer of verbs, or looks like one, around a request and the answer to
a verb of the host. -/
def braided : List Act :=
  [.send [255], .step (.request "ECHO" .remoteSide true), .send [255, 253, 1], .step .flush,
    .arrive (.bytes [120, 255, 251]), .step (.fill none), .step .decode, .send [],
    .arrive (.bytes [1, 255, 253, 1]), .step .keep, .step (.fill none), .send [255],
    .step .keep, .step .flush]

theorem run_framed_braided :
    let h := ({ connection := History.echoing } : Traffic).run braided
    let wire := h.connection.line.written.flatten
    Connection.wrap echoSettings {} = .ok History.echoing ∧
      ((({} : Telnet.Endpoint).decodeAll wire).2.filterMap Telnet.Event.data? =
        [255, 255, 253, 1, 255]) ∧
      (Telnet.Framing.plain.scan wire).2 = [(.do_, 1), (.will, 1)] ∧
      h.connection.line.frame = [] := by
  intro h wire
  have hc : Connection.wrap echoSettings {} = .ok History.echoing := by cbv
  obtain ⟨hdata, ⟨waiting, hreplies, hverbs⟩, -, hframe, -⟩ :=
    run_framed hc ⟨rfl, rfl, rfl, rfl⟩ braided
  have hnone : h.connection.stream.replies = [] := by decide +kernel
  have hdecided : h.decided = [(.do_, 1), (.will, 1)] := by decide +kernel
  have hwaiting : waiting = [] := by
    rw [← Telnet.decodeMessages_encodeMessages waiting, ← hreplies, hnone]
    rfl
  rw [hwaiting, List.append_nil, hdecided] at hverbs
  exact ⟨hc, (hdata {} rfl).1.trans rfl, hverbs, hframe⟩

end Traffic

end Client

end VatTerminal
