import VatTerminal.Proofs.Client.Outbound
import VatTerminal.Proofs.Negotiation.Answers

/-! # Answers before events

Whatever the Telnet endpoint decides on in a call is written before the call
comes to its end. So each event of a negotiation that is handed out, or kept to
be handed out later, has its answer on the line.
-/

namespace VatTerminal

open Telnet (Message encodeMessages halfOf Side Event Parcel)

def TerminalEvent.half? : TerminalEvent → Option (UInt8 × Side)
  | .telnet e => e.half?
  | .instruction _ => none

namespace Stream

theorem half_step (s : Stream) (b : UInt8) :
    (s.step b).2.toList.filterMap TerminalEvent.half? =
      (s.telnet.step b).2.toList.filterMap Event.half? := by
  unfold step
  rcases s.telnet.step b with ⟨t, _ | e⟩
  · rfl
  · cases e with
    | data x =>
      simp only [accept]
      rcases s.parser.push x with ⟨p, _ | i⟩ <;> rfl
    | command c => rfl
    | option o => rfl

theorem halves_drain (s : Stream) (bytes : List UInt8) :
    (s.drain bytes).2.filterMap TerminalEvent.half? =
      (s.telnet.heard (bytes.map .byte)).filterMap Event.half? := by
  induction bytes generalizing s with
  | nil => rfl
  | cons b bs ih =>
    have hrest := ih (s.step b).1
    rw [telnet_step] at hrest
    simp only [drain, List.map_cons, Telnet.Endpoint.heard, List.filterMap_append, hrest, half_step]
    rfl

end Stream

namespace Client

namespace Line

variable (l : Line)

theorem sendRaw_written {bytes : List UInt8} (h : bytes = [] ∨ l.writable = true) :
    (l.sendRaw bytes).2.written.flatten = l.written.flatten ++ bytes := by
  unfold sendRaw
  split
  · next hb => rw [hb, List.append_nil]
  · next hb =>
    obtain ⟨hw, hc⟩ := Bool.and_eq_true_iff.mp (h.resolve_left hb)
    have hfault : l.writeFault = none := Option.isNone_iff_eq_none.mp hw
    rw [if_neg (by simpa using hc), writeFrame, hfault]
    simp

theorem sendData_written (payload : List UInt8) (hf : l.frame = []) :
    (l.sendData payload).2.frame = [] ∧
      ((l.sendData payload).2.written = l.written ∨
        (l.sendData payload).2.written = l.written ++ [Telnet.encodeData payload]) := by
  unfold sendData
  split
  · exact ⟨hf, .inl rfl⟩
  · split
    · exact ⟨hf, .inl rfl⟩
    · unfold writeFrame
      rw [hf]
      split
      · exact ⟨rfl, .inl rfl⟩
      · exact ⟨rfl, .inr rfl⟩

theorem close_kept : l.close.2.frame = l.frame ∧ l.close.2.written = l.written := by
  unfold close
  split <;> exact ⟨rfl, rfl⟩

end Line

namespace Connection

def said (c : Connection) : List UInt8 := c.line.written.flatten ++ c.stream.replies

def decides (c : Connection) (s : Step) : List Message := c.stream.telnet.decided (c.puts s)

section Step

variable (c : Connection)

theorem line_step (s : Step) :
    (c.step s).line.frame = c.line.frame ∧ (c.step s).line.writable = c.line.writable := by
  cases s with
  | flush => exact c.line.sendRaw_kept _
  | fill limit =>
    show (c.fill limit).2.line.frame = _ ∧ (c.fill limit).2.line.writable = _
    rw [line_fill]
    exact ⟨rfl, rfl⟩
  | _ => exact ⟨rfl, rfl⟩

theorem written_step {s : Step} (hs : s ≠ .flush) :
    (c.step s).line.written = c.line.written := by
  cases s with
  | flush => exact absurd rfl hs
  | fill limit =>
    show (c.fill limit).2.line.written = _
    rw [line_fill]
    rfl
  | _ => rfl

theorem replies_step {s : Step} (hs : s ≠ .flush) :
    (c.step s).stream.replies = c.stream.replies ++ encodeMessages (c.decides s) := by
  rw [Stream.replies, telnet_step c hs, Telnet.Endpoint.replies_run]
  rfl

theorem said_step (s : Step) (h : c.stream.replies = [] ∨ c.line.writable = true) :
    (c.step s).said = c.said ++ encodeMessages (c.decides s) := by
  by_cases hs : s = .flush
  · subst hs
    have hw : (c.step .flush).line.written.flatten = c.line.written.flatten ++ c.stream.replies :=
      c.line.sendRaw_written h
    rw [said, hw]
    rfl
  · rw [said, c.written_step hs, c.replies_step hs, said, List.append_assoc]

theorem exists_owing_step (s : Step) :
    ∃ r, c.stream.telnet.run (c.puts s) = (c.step s).stream.telnet.owing r := by
  by_cases hs : s = .flush
  · subst hs
    exact ⟨c.stream.takeReplies.1, congrArg Stream.telnet c.stream.owing_takeReplies.symm⟩
  · exact ⟨[], (telnet_step c hs).symm⟩

theorem halves_raises (s : Step) :
    ((c.raises s).filterMap TerminalEvent.half?).Sublist ((c.decides s).map halfOf) := by
  by_cases hs : s.IsRequest
  · cases s with
    | request name side enable => exact List.nil_sublist _
    | _ => exact absurd hs id
  · rw [raises_eq, Stream.halves_drain, decides, puts_of_not_isRequest c hs]
    exact c.stream.telnet.halves_heard _

end Step

section Steps

variable {c : Connection} {steps : List Step}

theorem line_steps (c : Connection) (steps : List Step) :
    (steps.foldl step c).line.frame = c.line.frame ∧
      (steps.foldl step c).line.writable = c.line.writable := by
  refine List.foldlRecOn (motive := fun d : Connection => d.line.frame = c.line.frame ∧
    d.line.writable = c.line.writable) steps step ⟨rfl, rfl⟩ ?_
  rintro d ⟨hframe, hwritable⟩ s -
  obtain ⟨hf, hw⟩ := d.line_step s
  exact ⟨hf.trans hframe, hw.trans hwritable⟩

theorem exists_owing_steps (c : Connection) (steps : List Step) :
    ∃ r, c.stream.telnet.run (c.collect puts steps) =
      (steps.foldl step c).stream.telnet.owing r := by
  induction steps generalizing c with
  | nil => exact ⟨[], rfl⟩
  | cons s ss ih =>
    obtain ⟨r, hr⟩ := c.exists_owing_step s
    obtain ⟨r', hr'⟩ := ih (c.step s)
    refine ⟨r ++ r', ?_⟩
    rw [collect, Telnet.Endpoint.run_append, hr, Telnet.Endpoint.run_owing, hr',
      ← Telnet.Endpoint.owing_append]
    rfl

theorem decides_steps (c : Connection) (steps : List Step) :
    c.collect decides steps = c.stream.telnet.decided (c.collect puts steps) := by
  induction steps generalizing c with
  | nil => rfl
  | cons s ss ih =>
    obtain ⟨r, hr⟩ := c.exists_owing_step s
    rw [collect, collect, Telnet.Endpoint.decided_append, ih, hr, Telnet.Endpoint.decided_owing,
      decides]

theorem halves_steps (c : Connection) (steps : List Step) :
    ((c.collect raises steps).filterMap TerminalEvent.half?).Sublist
      ((c.collect decides steps).map halfOf) := by
  induction steps generalizing c with
  | nil => exact .refl _
  | cons s ss ih =>
    rw [collect, collect, List.filterMap_append, List.map_append]
    exact (c.halves_raises s).append (ih _)

theorem said_steps
    (h : c.line.writable = true ∨ c.stream.replies = [] ∧ c.collect decides steps = []) :
    (steps.foldl step c).said = c.said ++ encodeMessages (c.collect decides steps) := by
  induction steps generalizing c with
  | nil => exact (List.append_nil _).symm
  | cons s ss ih =>
    have hnow : c.stream.replies = [] ∨ c.line.writable = true := h.symm.imp_left And.left
    -- No step changes what the line takes. Where it takes nothing, no reply comes to wait.
    have hnext : (c.step s).line.writable = true ∨
        (c.step s).stream.replies = [] ∧ (c.step s).collect decides ss = [] := by
      rcases h with hw | ⟨hr, hd⟩
      · exact .inl ((c.line_step s).2.trans hw)
      · obtain ⟨hhead, htail⟩ := List.append_eq_nil_iff.mp hd
        refine .inr ⟨?_, htail⟩
        by_cases hs : s = .flush
        · subst hs
          rfl
        · rw [c.replies_step hs, hr, hhead]
          rfl
    rw [List.foldl_cons, ih hnext, c.said_step s hnow, collect, Telnet.encodeMessages_append,
      List.append_assoc]

end Steps

def decidedBy (c : Connection) (k : Call) : List Message := c.stream.telnet.decided (c.heeds k)

/-- A call has something to say and the line does not take it. -/
def refuses (c : Connection) (k : Call) : Bool := !c.line.writable && !(c.decidedBy k).isEmpty

structure Speaks (c : Connection) (k : Call) : Prop where
  telnet : ∃ r, c.stream.telnet.run (c.heeds k) = (c.perform k).2.stream.telnet.owing r
  replies : (c.perform k).2.stream.replies = []
  written : (c.perform k).2.line.written.flatten =
    c.line.written.flatten ++ encodeMessages (c.decidedBy k)
  frame : (c.perform k).2.line.frame = c.line.frame
  halves :
    (((c.perform k).1.toList ++ (c.perform k).2.pending).filterMap TerminalEvent.half?).Sublist
      (c.pending.filterMap TerminalEvent.half? ++ (c.decidedBy k).map halfOf)

theorem speaks_perform {c : Connection} {k : Call} (hr : c.stream.replies = [])
    (hk : c.refuses k = false) : c.Speaks k := by
  obtain ⟨steps, hpath, hputs⟩ := c.exists_path k
  have hdecides : c.collect decides steps = c.decidedBy k := by
    rw [decides_steps, hputs, decidedBy]
  have hquiet : c.line.writable = true ∨
      c.stream.replies = [] ∧ c.collect decides steps = [] := by
    rw [hdecides]
    rcases Bool.and_eq_false_iff.mp hk with hw | hd
    · exact .inl (by simpa using hw)
    · exact .inr ⟨hr, by simpa using hd⟩
  have hreplies := replies_perform k hr
  have hsaid := said_steps hquiet
  rw [hpath.leads, hdecides, said, said, hr, hreplies, List.append_nil, List.append_nil] at hsaid
  have hframe := (c.line_steps steps).1
  rw [hpath.leads] at hframe
  have htelnet := c.exists_owing_steps steps
  rw [hputs, hpath.leads] at htelnet
  refine ⟨htelnet, hreplies, hsaid, hframe, ?_⟩
  have hevents := hpath.events.filterMap TerminalEvent.half?
  rw [List.filterMap_append (l := c.pending)] at hevents
  refine hevents.trans (List.Sublist.append (.refl _) ?_)
  rw [← hdecides]
  exact c.halves_steps steps

end Connection

/-- A connection in use, with what was put to its endpoint. -/
structure Talk where
  connection : Connection
  heeded : List Telnet.Endpoint.Input := []
  events : List TerminalEvent := []
  refused : Bool := false
  deriving DecidableEq

namespace Talk

inductive Act where
  | call (k : Call)
  | send (payload : List UInt8)
  | arrive (a : Arrival)
  /-- The line is another, but for what the host has sent and what has gone out. -/
  | change (line : Line)
  | close
  deriving DecidableEq

def setLine (h : Talk) (line : Line) : Talk :=
  { h with connection := { h.connection with line } }

def act (h : Talk) : Act → Talk
  | .call k =>
    { h with
      connection := (h.connection.perform k).2
      heeded := h.heeded ++ h.connection.heeds k
      events := h.events ++ (h.connection.perform k).1.toList
      refused := h.refused || h.connection.refuses k }
  | .send payload => h.setLine (h.connection.line.sendData payload).2
  | .arrive a => h.setLine (h.connection.line.arrive a)
  | .change line =>
    h.setLine
      { line with
        inbound := h.connection.line.inbound
        written := h.connection.line.written
        frame := h.connection.line.frame }
  | .close => { h with connection := h.connection.close.2 }

def run (h : Talk) (acts : List Act) : Talk := acts.foldl act h

/-- Since the endpoint was `e`, all that it has decided on has gone out, and of that the events are
answered. -/
structure Answered (e : Telnet.Endpoint) (h : Talk) : Prop where
  telnet : ∃ r, e.run h.heeded = h.connection.stream.telnet.owing r
  replies : h.connection.stream.replies = []
  wire : Telnet.Framing.plain.scan h.connection.line.written.flatten = (.plain, e.decided h.heeded)
  frame : h.connection.line.frame = []
  halves : ((h.events ++ h.connection.pending).filterMap TerminalEvent.half?).Sublist
    ((e.decided h.heeded).map halfOf)

variable {e : Telnet.Endpoint} {h : Talk}

theorem scan_encode (p : Parcel) :
    Telnet.Framing.plain.scan p.encode = (.plain, p.messages) := by
  have hp : [p].flatMap Parcel.messages = p.messages := List.flatMap_singleton ..
  rw [p.encode_eq, Telnet.Framing.scan_encodeAll, ← hp, ← Parcel.messages_frames,
    List.flatMap_singleton]

theorem scan_append_encode {wire : List UInt8} {ms : List Message} (p : Parcel)
    (h : Telnet.Framing.plain.scan wire = (.plain, ms)) :
    Telnet.Framing.plain.scan (wire ++ p.encode) = (.plain, ms ++ p.messages) := by
  rw [Telnet.Framing.scan_append, h, scan_encode]

theorem Answered.start {s : Settings} {line : Line} {c : Connection}
    (hc : Connection.wrap s line = .ok c) (hw : line.written = []) (hf : line.frame = []) :
    Answered c.stream.telnet { connection := c } := by
  unfold Connection.wrap at hc
  split at hc
  · cases hc
  · cases hc
    exact ⟨⟨[], rfl⟩, rfl, by rw [hw]; rfl, hf, .refl _⟩

theorem Answered.decided_heeds (ha : h.Answered e) (k : Call) :
    e.decided (h.heeded ++ h.connection.heeds k) =
      e.decided h.heeded ++ h.connection.decidedBy k := by
  obtain ⟨r, hr⟩ := ha.telnet
  rw [Telnet.Endpoint.decided_append, hr, Telnet.Endpoint.decided_owing]
  rfl

theorem Answered.call (ha : h.Answered e) {k : Call} (hk : h.connection.refuses k = false) :
    (h.act (.call k)).Answered e := by
  obtain ⟨r, hr⟩ := ha.telnet
  have hs := Connection.speaks_perform ha.replies hk
  obtain ⟨r', hr'⟩ := hs.telnet
  refine ⟨⟨r ++ r', ?_⟩, hs.replies, ?_, hs.frame.trans ha.frame, ?_⟩
  · simp only [act]
    rw [Telnet.Endpoint.run_append, hr, Telnet.Endpoint.run_owing, hr',
      ← Telnet.Endpoint.owing_append]
  · simp only [act]
    rw [hs.written, ha.decided_heeds]
    exact scan_append_encode (.verbs _) ha.wire
  · -- The events of the call come after the earlier ones, and so do their answers.
    have hkept := ha.halves
    rw [List.filterMap_append] at hkept
    simp only [act]
    rw [ha.decided_heeds, List.append_assoc, List.filterMap_append, List.map_append]
    refine (List.Sublist.append (.refl _) hs.halves).trans ?_
    rw [← List.append_assoc]
    exact hkept.append (.refl _)

theorem Answered.setLine (ha : h.Answered e) {line : Line} (hf : line.frame = [])
    (hw : Telnet.Framing.plain.scan line.written.flatten = (.plain, e.decided h.heeded)) :
    (h.setLine line).Answered e :=
  ⟨ha.telnet, ha.replies, hw, hf, ha.halves⟩

theorem Answered.send (ha : h.Answered e) (payload : List UInt8) :
    (h.act (.send payload)).Answered e := by
  obtain ⟨hframe, hwritten⟩ := h.connection.line.sendData_written payload ha.frame
  refine ha.setLine hframe ?_
  rcases hwritten with hw | hw
  · rw [hw]
    exact ha.wire
  · have hdata := scan_append_encode (.data payload) ha.wire
    rw [Parcel.messages, List.append_nil] at hdata
    rw [hw, List.flatten_concat]
    exact hdata

theorem Answered.close (ha : h.Answered e) : (h.act .close).Answered e := by
  obtain ⟨hframe, hwritten⟩ := h.connection.line.close_kept
  have hl := ha.setLine (hframe.trans ha.frame) (by rw [hwritten]; exact ha.wire)
  exact ⟨hl.telnet, hl.replies, hl.wire, hl.frame, hl.halves⟩

theorem Answered.act (ha : h.Answered e) (a : Act) (hok : (h.act a).refused = false) :
    (h.act a).Answered e := by
  cases a with
  | call k => exact ha.call (Bool.or_eq_false_iff.mp hok).2
  | send payload => exact ha.send payload
  | arrive a => exact ha.setLine ha.frame ha.wire
  | change line => exact ha.setLine ha.frame ha.wire
  | close => exact ha.close

theorem refused_act {a : Act} (hok : (h.act a).refused = false) : h.refused = false := by
  cases a with
  | call k => exact (Bool.or_eq_false_iff.mp hok).1
  | _ => exact hok

theorem Answered.run (ha : h.Answered e) (acts : List Act)
    (hok : (h.run acts).refused = false) : (h.run acts).Answered e := by
  refine List.foldlRecOn (motive := fun h : Talk => h.refused = false → h.Answered e) acts _
    (fun _ => ha) ?_ hok
  intro h ih a _ hok
  exact (ih (refused_act hok)).act a hok

/-- Whatever the host sends, in whatever pieces, and however calls, sending, closing and changes of
the line follow each other, as long as no write of a call fails: after every call no reply waits, and
the verbs that have gone out are those that the endpoint has decided on, in order. Each event of a
negotiation that was handed out or is kept has its own answer among them, in the order of the
events. -/
theorem run_answered {s : Settings} {line : Line} {c : Connection}
    (hc : Connection.wrap s line = .ok c) (hw : line.written = []) (hf : line.frame = [])
    (acts : List Act) (hok : (({ connection := c } : Talk).run acts).refused = false) :
    let h := ({ connection := c } : Talk).run acts
    let verbs := (Telnet.Framing.plain.scan h.connection.line.written.flatten).2
    h.connection.stream.telnet.hasReplies = false ∧
      verbs = c.stream.telnet.decided h.heeded ∧
      ((h.events ++ h.connection.pending).filterMap TerminalEvent.half?).Sublist
        (verbs.map halfOf) := by
  intro h verbs
  have ha : h.Answered c.stream.telnet := (Answered.start hc hw hf).run acts hok
  have hreplies : h.connection.stream.telnet.replies = [] := ha.replies
  have hverbs : verbs = c.stream.telnet.decided h.heeded := congrArg (·.2) ha.wire
  refine ⟨?_, hverbs, ?_⟩
  · rw [Telnet.Endpoint.hasReplies, hreplies]
    rfl
  · rw [hverbs]
    exact ha.halves

/-- While an offer waits, the host turns its own side on and off and on again, refers to an option
that is not registered, and goes. What was kept is handed out afterwards, the last after closing. -/
def waylaid : List Act :=
  [.arrive (.bytes [120, 255, 251]), .arrive (.bytes [1, 255, 252, 1, 255]), .send [255, 253, 1],
    .arrive (.bytes [251, 7, 255, 251, 1]), .change { ended := true }, .call (.offer "ECHO"),
    .call (.next (some 9)), .call (.next none), .call (.ask "ECHO"), .call (.next none), .close,
    .call (.next none), .call (.next none)]

theorem run_answered_waylaid :
    let h := ({ connection := History.echoing } : Talk).run waylaid
    let verbs := [(.will, 1), (.do_, 1), (.dont, 1), (.dont, 7), (.do_, 1)]
    Connection.wrap Traffic.echoSettings {} = .ok History.echoing ∧ h.refused = false ∧
      h.connection.stream.telnet.hasReplies = false ∧
      (Telnet.Framing.plain.scan h.connection.line.written.flatten).2 = verbs ∧
      h.events.filterMap TerminalEvent.half? =
        [(1, .remoteSide), (1, .remoteSide), (1, .remoteSide)] := by
  intro h verbs
  have hc : Connection.wrap Traffic.echoSettings {} = .ok History.echoing := by cbv
  have hok : h.refused = false := by decide +kernel
  obtain ⟨hreplies, hverbs, -⟩ := run_answered hc rfl rfl waylaid hok
  have hdecided : History.echoing.stream.telnet.decided h.heeded = verbs := by decide +kernel
  exact ⟨hc, hok, hreplies, hverbs.trans hdecided, by decide +kernel⟩

end Talk

end Client

end VatTerminal
