import VatTerminal.Proofs.Client.Handoff
import VatTerminal.Proofs.Client.Order
import VatTerminal.Proofs.Stream.Alike

/-! # The course of a client

Whatever order reader, display, user and host take their steps in, the screen
shows what the bytes that have been decoded say, each time more is asked for
and when all is over. The user has no part in it.
-/

namespace VatTerminal.Client

namespace Connection

/-- Something has been read of `c` and of what was sent since, and makes the events that were
handed out and those that are kept at `d`. While it is open, `d` reads on from there. -/
structure Tracks (c : Connection) (sent : List UInt8) (events : List TerminalEvent)
    (d : Connection) : Prop where
  read : ∃ bytes, c.undecoded ++ sent = bytes ++ d.undecoded ∧
    events ++ d.pending = c.pending ++ (c.stream.drain bytes).2 ∧
    (d.phase = .open → (c.stream.drain bytes).1.Alike d.stream)
  pending : c.pending = [] → d.pending = []

variable {c d e : Connection} {sent : List UInt8} {events : List TerminalEvent}

theorem Tracks.start (c : Connection) : Tracks c [] [] c where
  read := ⟨[], List.append_nil _, (List.append_nil _).symm, fun _ => .refl _⟩
  pending := id

theorem Tracks.congr (h : Tracks c sent events d) (hu : e.undecoded = d.undecoded)
    (hp : e.pending = d.pending) (hs : d.stream.Alike e.stream)
    (ho : e.phase = .open → d.phase = .open) : Tracks c sent events e := by
  obtain ⟨bytes, hb, he, ha⟩ := h.read
  refine ⟨⟨bytes, hu ▸ hb, hp ▸ he, fun hc => (ha (ho hc)).trans hs⟩, ?_⟩
  rw [hp]
  exact h.pending

theorem Tracks.arrive (h : Tracks c sent events d) (a : Arrival) :
    Tracks c (sent ++ a.payload) events { d with line := d.line.arrive a } := by
  obtain ⟨bytes, hb, he, ha⟩ := h.read
  refine ⟨⟨bytes, ?_, he, ha⟩, h.pending⟩
  rw [History.undecoded_arrive, ← List.append_assoc, hb, List.append_assoc]

theorem feed_reads (s : Stream) (bytes : List UInt8) (c d : Connection) :
    (s.feed (bytes.map .byte ++ endMet c d)).2 = (s.drain bytes).2 := by
  rw [Stream.feed_append, Stream.feed_bytes, endMet]
  split <;> exact List.append_nil _

theorem Tracks.reads {bytes : List UInt8} {es : List TerminalEvent}
    (h : Tracks c sent events d) (hr : d.Reads bytes es e) (hp : d.pending = [] → e.pending = []) :
    Tracks c sent (events ++ es) e := by
  obtain ⟨read, hb, hev, ha⟩ := h.read
  have hu := hr.feeds.bytes
  rw [Stream.Input.bytes_append, Stream.Input.bytes_map_byte, bytes_endMet,
    List.append_nil] at hu
  have hes := hr.feeds.events
  rw [feed_reads] at hes
  refine ⟨⟨read ++ bytes, ?_, ?_, ?_⟩, fun hc => hp (h.pending hc)⟩
  · rw [hb, hu, List.append_assoc]
  · rw [List.append_assoc, hes, ← List.append_assoc, hev, List.append_assoc, Stream.drain_append]
    by_cases ho : d.phase = .open
    · rw [((ha ho).drain bytes).2]
    · obtain ⟨rfl, -⟩ := hr.stopped ho
      rfl
  · intro ho
    have hdo : d.phase = .open := hr.of_open_right ho
    obtain ⟨r, hs⟩ := hr.feeds.stream
    rw [endMet_of_eq (ho.trans hdo.symm), List.append_nil, Stream.feed_bytes] at hs
    rw [Stream.drain_append]
    refine ((ha hdo).drain bytes).1.trans ?_
    rw [hs]
    exact e.stream.alike_owing r

theorem Tracks.next (h : Tracks c sent events d) (hl : d.line.Faultless) (limit : Option Nat) :
    Tracks c sent (events ++ (d.next limit).1.event?.toList) (d.next limit).2 := by
  have hok : d.phase = .open → (d.next limit).1.error? = none := fun ho =>
    (next_faultless hl limit).2 (by rw [ho]; nofun)
  obtain ⟨bytes, hr⟩ := d.reads_next limit hok
  exact h.reads hr (d.pending_next limit)

end Connection

namespace Line

theorem inbound_sendData (l : Line) (bytes : List UInt8) :
    (l.sendData bytes).2.inbound = l.inbound := by
  simp only [sendData, writeFrame]
  repeat' split
  all_goals rfl

theorem sendOwed_eq (l : Line) (bytes : List UInt8) :
    (l.sendOwed bytes).2 = (l.sendData bytes).2 := by
  rw [sendOwed]
  split <;> simp_all

end Line

theorem ReaderStep.tracks {c : Connection} {x d : Client} {sent : List UInt8}
    {events : List TerminalEvent} {limit : Nat} {event : Option TerminalEvent}
    (hd : x.ReaderStep limit event d) (h : c.Tracks sent events x.connection)
    (hl : x.reader.connected = true → x.connection.line.Faultless) :
    c.Tracks sent (events ++ event.toList) d.connection ∧
      (d.reader.connected = true → d.connection.line.Faultless) := by
  cases hd with
  | still hr =>
    rw [Option.toList_none, List.append_nil]
    exact ⟨h, hl⟩
  | asked hr hn hw hc hh =>
    have hline := hl (by rw [hr]; rfl)
    have hnext := h.next hline (some limit)
    have hline' := (Connection.next_faultless hline (some limit)).1
    rw [hn] at hnext hline'
    exact ⟨hnext.congr rfl rfl (Stream.alike_takeStrays _) id, fun _ => hline'⟩
  | hungUp hr =>
    rw [Option.toList_none, List.append_nil]
    refine ⟨h.congr ?_ rfl (.refl _) nofun, nofun⟩
    show x.connection.buffer ++ (x.connection.line.close).2.onWay = _
    rw [Line.close]
    split <;> rfl
  | stopped hr | sent hr | woken hr _ =>
    rw [Option.toList_none, List.append_nil]
    exact ⟨h, fun _ => hl (by rw [hr]; rfl)⟩
  | announced hr | parted hr =>
    rw [Option.toList_none, List.append_nil]
    exact ⟨h, nofun⟩

structure Course where
  client : Client
  sent : List UInt8 := []
  events : List TerminalEvent := []
  deriving DecidableEq

namespace Course

/-- The steps that are taken. What only looks at the screen is not among them: it would take a
place in the queue for a while, and change nothing else. -/
inductive Act where
  | reader (limit : Nat)
  | display
  | input (r : Request)
  | arrive (a : Arrival)
  | finish
  | elapse (moment : Nat)
  deriving DecidableEq

def act (h : Course) : Act → Course
  | .reader limit =>
    { h with
      client := (h.client.readerStep limit).2
      events := h.events ++ (h.client.handed? limit).toList }
  | .display => { h with client := h.client.displayStep.2 }
  | .input r => { h with client := (h.client.submit r).2 }
  | .arrive a =>
    { h with
      client := h.client.setLine (h.client.connection.line.arrive a)
      sent := h.sent ++ a.payload }
  | .finish => { h with client := h.client.setLine { h.client.connection.line with ended := true } }
  | .elapse moment =>
    { h with
      client :=
        h.client.setLine { h.client.connection.line with now := max h.client.now moment } }

def run (h : Course) (acts : List Act) : Course := acts.foldl act h

/-- The user neither clears the screen nor speaks for the reader, and the line does not fail. -/
def Act.Plain : Act → Prop
  | .input r => r.isInput = true
  | .arrive a => ∀ f, a ≠ .fault f
  | .reader _ | .display | .finish | .elapse _ => True

structure Faithful (c : Connection) (t : Terminal) (h : Course) : Prop where
  inStep : h.client.InStep t (instructions h.events)
  tracks : c.Tracks h.sent h.events h.client.connection
  faultless : h.client.reader.connected = true → h.client.connection.line.Faultless

variable {c : Connection} {t : Terminal} {h : Course}

theorem Faithful.setLine (hf : Faithful c t h) {line : Line}
    (hi : line.inbound = h.client.connection.line.inbound)
    (hl : h.client.connection.line.Faultless → line.Faultless) :
    Faithful c t { h with client := h.client.setLine line } where
  inStep := ⟨hf.inStep.plain, hf.inStep.acks, hf.inStep.due⟩
  tracks := by
    refine hf.tracks.congr ?_ rfl (.refl _) id
    show h.client.connection.buffer ++ line.inbound.flatMap _ = _
    rw [hi]
    rfl
  faultless hc := hl (hf.faultless hc)

theorem Faithful.reader (hf : Faithful c t h) (limit : Nat) :
    Faithful c t (h.act (.reader limit)) := by
  have hspec := h.client.readerStep_spec limit
  obtain ⟨htracks, hl⟩ := hspec.tracks hf.tracks hf.faultless
  refine ⟨?_, htracks, hl⟩
  show InStep t (instructions (h.events ++ (h.client.handed? limit).toList)) _
  rw [instructions, List.filterMap_append]
  exact hf.inStep.readerStep hspec

theorem Faithful.display (hf : Faithful c t h) : Faithful c t (h.act .display) := by
  have hstep := hf.inStep.displayStep
  rw [act]
  rw [Client.displayStep] at hstep ⊢
  split
  · exact hf
  · next r rest hq =>
    rw [hq] at hstep
    have hi := h.client.connection.line.inbound_sendData (h.client.display.handle r).2.reply
    have hl (hbefore : h.client.connection.line.Faultless) :=
      (hbefore.sendData (h.client.display.handle r).2.reply).2
    rw [← Line.sendOwed_eq] at hi hl
    have hline := hf.setLine hi hl
    exact ⟨hstep, hline.tracks, hline.faultless⟩

theorem Faithful.input (hf : Faithful c t h) {r : Request} (hr : r.isInput = true) :
    Faithful c t (h.act (.input r)) := by
  have hstep := hf.inStep.input hr
  rw [act]
  rw [submit] at hstep ⊢
  split at hstep
  · next hroom =>
    rw [if_pos hroom]
    exact ⟨hstep, hf.tracks, hf.faultless⟩
  · next hroom =>
    rw [if_neg hroom]
    exact hf

theorem Faithful.act (hf : Faithful c t h) {a : Act} (ha : a.Plain) : Faithful c t (h.act a) := by
  cases a with
  | reader limit => exact hf.reader limit
  | display => exact hf.display
  | input r => exact hf.input ha
  | arrive a =>
    refine ⟨⟨hf.inStep.plain, hf.inStep.acks, hf.inStep.due⟩, hf.tracks.arrive a, fun hc => ?_⟩
    obtain ⟨hw, hcl, hi⟩ := hf.faultless hc
    refine ⟨hw, hcl, ?_⟩
    intro f hm
    rcases List.mem_append.mp hm with hm | hm
    · exact hi f hm
    · exact ha f (List.mem_singleton.mp hm).symm
  | finish => exact hf.setLine rfl fun hl => ⟨hl.writeFault, hl.closed, hl.inbound⟩
  | elapse moment => exact hf.setLine rfl fun hl => ⟨hl.writeFault, hl.closed, hl.inbound⟩

theorem Faithful.run (hf : Faithful c t h) {acts : List Act} (ha : ∀ a ∈ acts, a.Plain) :
    Faithful c t (h.run acts) :=
  List.foldlRecOn acts _ hf fun _ hf a hm => hf.act (ha a hm)

theorem Faithful.start (s : Settings) (connection : Connection) (screen : Screen)
    (device : KeysetDevice) (hl : connection.line.Faultless) :
    Faithful connection (.start screen s.escapeWideCoordinates)
      { client := .start s connection screen device } where
  inStep := ⟨fun _ hr => (List.not_mem_nil hr).elim, rfl, [], rfl, rfl, fun _ => rfl⟩
  tracks := .start connection
  faultless _ := hl

/-- Whatever order the steps are taken in, and whatever the user does meanwhile, the screen shows at
each call for the next event what the instructions handed to the reader make of the first screen,
and at the end it is that screen. What the reader was handed is what the bytes decoded so far say,
in order and once, where nothing had been kept before the start. -/
theorem run_faithful (s : Settings) (connection : Connection) (screen : Screen)
    (device : KeysetDevice) (hl : connection.line.Faultless) (acts : List Act)
    (ha : ∀ a ∈ acts, a.Plain) :
    let h := ({ client := .start s connection screen device } : Course).run acts
    let told := (Terminal.start screen s.escapeWideCoordinates).interpret (instructions h.events)
    (h.client.reader = .asking →
        h.client.display.terminal.screen.grid = told.screen.grid) ∧
      (h.client.reader = .finished → h.client.queue = [] →
        h.client.display.terminal.screen = told.screen) ∧
      ∃ bytes, connection.undecoded ++ h.sent = bytes ++ h.client.connection.undecoded ∧
        h.events ++ h.client.connection.pending =
          connection.pending ++ (connection.stream.drain bytes).2 ∧
        (connection.pending = [] → h.events = (connection.stream.drain bytes).2) := by
  intro h told
  have hf := (Faithful.start s connection screen device hl).run ha
  obtain ⟨bytes, hb, he, -⟩ := hf.tracks.read
  refine ⟨hf.inStep.grid_of_asking, hf.inStep.screen_of_finished, bytes, hb, he, fun hp => ?_⟩
  rwa [hf.tracks.pending hp, hp, List.append_nil] at he

def small : Course where
  client := .start {} { negotiationTimeout := 5 } (.blank { columns := 2, rows := 1 }) .none

/-- A host that writes, rings and goes away, and a user who clicks and types meanwhile. -/
def mingled : List Act :=
  [.arrive (.bytes [65, 7]), .finish, .reader 0, .input (.press .left {}), .reader 0, .display,
    .display, .reader 0, .reader 0, .reader 0, .input (.key 'x'), .reader 0, .reader 0, .reader 0,
    .reader 0, .display, .display, .display]

theorem run_faithful_mingled :
    (small.run mingled).client.reader = .finished ∧ (small.run mingled).client.queue = [] ∧
      instructions (small.run mingled).events = [.print 65, .bell] ∧
      (small.run mingled).client.display.terminal.screen =
        ((Terminal.start (.blank { columns := 2, rows := 1 }) false).interpret
          [.print 65, .bell]).screen := by
  have hl : Line.Faultless {} := ⟨rfl, rfl, fun _ => List.not_mem_nil⟩
  have ha : ∀ a ∈ mingled, a.Plain := by simp [mingled, Act.Plain, Request.isInput]
  have hr : (small.run mingled).client.reader = .finished := by decide +kernel
  have hq : (small.run mingled).client.queue = [] := by decide +kernel
  have hi : instructions (small.run mingled).events = [.print 65, .bell] := by decide +kernel
  obtain ⟨-, hscreen, -⟩ := run_faithful {} { negotiationTimeout := 5 }
    (.blank { columns := 2, rows := 1 }) .none hl mingled ha
  refine ⟨hr, hq, hi, ?_⟩
  rw [← hi]
  exact hscreen hr hq

end Course

end VatTerminal.Client
