import VatTerminal.Proofs.Client.Faultless
import VatTerminal.Proofs.Client.Wishes

/-! # The order of events

However calls for events and negotiations follow each other, every byte is
decoded once and in the order of its arrival, every wish is put to the stream
where it is made, and every event is handed out once, in the order in which the
events were made. No byte is left behind: where a call comes to rest without an
event nothing waits to be decoded.
-/

namespace VatTerminal.Client

inductive Call where
  | next (limit : Option Nat)
  | offer (name : String)
  | ask (name : String)
  | negotiateOnConnect
  deriving DecidableEq

namespace Connection

def perform (c : Connection) : Call → Option TerminalEvent × Connection
  | .next limit => ((c.next limit).1.event?, (c.next limit).2)
  | .offer name => (none, (c.offer name).2)
  | .ask name => (none, (c.ask name).2)
  | .negotiateOnConnect => (none, c.negotiateOnConnect.2)

/-- A call for the next event fails while the stream is open, as it does only where a write or a
read does. -/
def fails (c : Connection) : Call → Bool
  | .next limit => decide (c.phase = .open) && (c.next limit).1.error?.isSome
  | .offer _ | .ask _ | .negotiateOnConnect => false

/-- What a call wishes for. Once the stream has ended, nothing is offered or asked for. -/
def wishes (c : Connection) : Call → List Stream.Input
  | .next _ => []
  | .offer name => if c.phase = .open then [.wish name .localSide] else []
  | .ask name => if c.phase = .open then [.wish name .remoteSide] else []
  | .negotiateOnConnect => wishesFor c.options.entries

/-- The bytes that have been decoded from `c` to `d`, where nothing has arrived meanwhile. -/
def decoded (c d : Connection) : List UInt8 :=
  c.undecoded.take (c.undecoded.length - d.undecoded.length)

/-- What a call puts to the stream: its wishes, the bytes that are decoded, and the end of the
stream where it is met. -/
def inputs (c : Connection) (k : Call) : List Stream.Input :=
  c.wishes k ++ ((decoded c (c.perform k).2).map .byte ++ endMet c (c.perform k).2)

variable {c d : Connection} {es : List TerminalEvent} {bytes : List UInt8}

theorem bytes_endMet : Stream.Input.bytes (endMet c d) = [] := by
  unfold endMet
  split <;> rfl

theorem decoded_of_feeds {ws : List Stream.Input} (hw : Stream.Input.bytes ws = [])
    (h : c.Feeds (ws ++ (bytes.map .byte ++ endMet c d)) es d) : decoded c d = bytes := by
  have hb : c.undecoded = bytes ++ d.undecoded := by
    have := h.bytes
    rwa [Stream.Input.bytes_append, Stream.Input.bytes_append, Stream.Input.bytes_map_byte, hw,
      bytes_endMet, List.append_nil] at this
  rw [decoded, hb, List.length_append, Nat.add_sub_cancel, List.take_left]

theorem Reads.feeds_decoded (h : c.Reads bytes es d) :
    c.Feeds ((decoded c d).map .byte ++ endMet c d) es d := by
  have hf : c.Feeds ([] ++ (bytes.map .byte ++ endMet c d)) es d := h.feeds
  rw [decoded_of_feeds rfl hf]
  exact h.feeds

theorem feeds_negotiate_decoded (c : Connection) (name : String) (side : Telnet.Side) :
    c.Feeds
      ((if c.phase = .open then [.wish name side] else []) ++
        ((decoded c (c.negotiate name side).2).map .byte ++ endMet c (c.negotiate name side).2))
      [] (c.negotiate name side).2 := by
  split
  · next hc =>
    obtain ⟨bytes, h⟩ := c.feeds_negotiate name side hc
    rw [decoded_of_feeds rfl h]
    exact h
  · next hc =>
    rw [c.negotiate_of_not_open name side hc]
    exact (Reads.still (.refl c) rfl rfl).feeds_decoded

theorem feeds_perform (c : Connection) (k : Call) (hok : c.fails k = false) :
    c.Feeds (c.inputs k) (c.perform k).1.toList (c.perform k).2 := by
  cases k with
  | next limit =>
    have hn : c.phase = .open → (c.next limit).1.error? = none := by
      intro hc
      rw [fails, decide_eq_true hc, Bool.true_and] at hok
      exact Option.not_isSome_iff_eq_none.mp (Bool.not_eq_true _ ▸ hok)
    obtain ⟨bytes, h⟩ := c.reads_next limit hn
    exact h.feeds_decoded
  | offer name => exact c.feeds_negotiate_decoded name .localSide
  | ask name => exact c.feeds_negotiate_decoded name .remoteSide
  | negotiateOnConnect =>
    have h := c.feeds_negotiateOnConnect
    have hp : c.negotiateOnConnect.2.phase = c.phase := phase_negotiateOnConnect c
    have hf : c.Feeds (wishesFor c.options.entries ++
        (([] : List UInt8).map .byte ++ endMet c c.negotiateOnConnect.2)) []
        c.negotiateOnConnect.2 := by
      rw [endMet_of_eq hp, List.map_nil, List.append_nil, List.append_nil]
      exact h
    show c.Feeds (wishesFor c.options.entries ++
      ((decoded c c.negotiateOnConnect.2).map .byte ++ endMet c c.negotiateOnConnect.2)) [] _
    rw [decoded_of_feeds (bytes_wishesFor _) hf]
    exact hf

theorem buffer_negotiateOnConnect (c : Connection) : c.negotiateOnConnect.2.buffer = c.buffer := by
  obtain ⟨telnet, hr, -⟩ := c.requestAll_options
  rw [negotiateOnConnect, hr]
  rfl

theorem perform_of_not_open (hc : c.phase ≠ .open) (k : Call) :
    (c.perform k).2.phase ≠ .open ∧ (c.perform k).2.buffer = c.buffer := by
  have hwish {name : String} {side : Telnet.Side} :
      (c.negotiate name side).2.phase ≠ .open ∧ (c.negotiate name side).2.buffer = c.buffer := by
    rw [c.negotiate_of_not_open name side hc]
    exact ⟨hc, rfl⟩
  cases k with
  | next limit =>
    obtain ⟨bytes, lost, hr, -⟩ := c.exists_reads_next limit
    exact (hr.stopped hc).2
  | offer | ask => exact hwish
  | negotiateOnConnect =>
    have hp : c.negotiateOnConnect.2.phase ≠ .open := by
      rw [phase_negotiateOnConnect]
      exact hc
    exact ⟨hp, c.buffer_negotiateOnConnect⟩

theorem undecoded_of_met (hc : c.phase = .open) {k : Call} (hk : (c.perform k).2.phase ≠ .open) :
    (c.perform k).2.undecoded = [] := by
  have hwish {name : String} {side : Telnet.Side} (hn : (c.negotiate name side).2.phase ≠ .open) :
      (c.negotiate name side).2.undecoded = [] := by
    obtain ⟨d, bytes, -, hd, hr⟩ := c.exists_reads_negotiate name side hc
    exact hr.met hd hn
  cases k with
  | next limit =>
    obtain ⟨bytes, lost, hr, -⟩ := c.exists_reads_next limit
    exact hr.met hc hk
  | offer | ask => exact hwish hk
  | negotiateOnConnect => exact absurd (c.phase_negotiateOnConnect.trans hc) hk

theorem buffer_perform (h : c.phase ≠ .open → c.buffer = []) (k : Call)
    (hk : (c.perform k).2.phase ≠ .open) : (c.perform k).2.buffer = [] := by
  by_cases hc : c.phase = .open
  · exact (List.append_eq_nil_iff.mp (undecoded_of_met hc hk)).1
  · exact (perform_of_not_open hc k).2.trans (h hc)

/-- What may be left behind. Of what has been read something stays only while the stream is open, and
only behind a call that has handed out an event, has not put its wish or could not write. Asking is
given up only where the line brings nothing more by the limit. -/
structure Exhausts (c : Connection) : Prop where
  ended : c.phase ≠ .open → c.buffer = []
  met (k : Call) : c.phase = .open → (c.perform k).2.phase ≠ .open →
    (c.perform k).2.undecoded = []
  finished (limit : Option Nat) : (c.next limit).1 = .finished →
    (c.next limit).2.pending = [] ∧ (c.next limit).2.buffer = []
  waiting (limit : Option Nat) : (c.next limit).1 = .waiting →
    (c.next limit).2.pending = [] ∧ (c.next limit).2.buffer = [] ∧
      ((c.next limit).2.line.read limit).1 = .waiting
  forever : (c.next none).1 = .waiting → (c.next none).2.undecoded = []
  wished (name : String) : c.phase = .open → (c.option? name).isSome → c.line.writable = true →
    (c.offer name).2.buffer = [] ∧ (c.ask name).2.buffer = []

theorem exhausts (h : c.phase ≠ .open → c.buffer = []) : c.Exhausts where
  ended := h
  met _ hc hk := undecoded_of_met hc hk
  finished limit hn := by
    obtain ⟨hp, hq⟩ := next_finished hn
    have hclosed : (c.perform (.next limit)).2.phase ≠ .open := by
      rw [show (c.perform (.next limit)).2.phase = .closed from hq]
      exact Phase.noConfusion
    exact ⟨hp, buffer_perform h (.next limit) hclosed⟩
  waiting limit hn := by
    obtain ⟨hp, hb, hl, -⟩ := next_waiting hn
    exact ⟨hp, hb, hl⟩
  forever hn := by
    obtain ⟨-, hb, -, hl⟩ := next_waiting hn
    exact List.append_eq_nil_iff.mpr ⟨hb, hl rfl⟩
  wished _ hc hn hw :=
    ⟨c.buffer_negotiate .localSide hc hn hw, c.buffer_negotiate .remoteSide hc hn hw⟩

theorem perform_faultless (h : c.line.Faultless) (k : Call) :
    (c.perform k).2.line.Faultless ∧ c.fails k = false := by
  cases k with
  | next limit =>
    obtain ⟨hl, hf⟩ := next_faultless h limit
    refine ⟨hl, Bool.and_eq_false_imp.mpr ?_⟩
    intro ho
    rw [hf (by rw [of_decide_eq_true ho]; exact Phase.noConfusion)]
    rfl
  | offer name => exact ⟨negotiate_faultless h name .localSide, rfl⟩
  | ask name => exact ⟨negotiate_faultless h name .remoteSide, rfl⟩
  | negotiateOnConnect => exact ⟨negotiateOnConnect_faultless h, rfl⟩

end Connection

/-- A connection in use, with what has come of it since. -/
structure History where
  connection : Connection
  inputs : List Stream.Input := []
  events : List TerminalEvent := []
  sent : List UInt8 := []
  failed : Bool := false
  deriving DecidableEq

namespace History

inductive Act where
  | call (k : Call)
  | arrive (a : Arrival)
  /-- The line is another, but for what the host has sent. -/
  | change (line : Line)
  deriving DecidableEq

def act (h : History) : Act → History
  | .call k =>
    { h with
      connection := (h.connection.perform k).2
      inputs := h.inputs ++ h.connection.inputs k
      events := h.events ++ (h.connection.perform k).1.toList
      failed := h.failed || h.connection.fails k }
  | .arrive a =>
    { h with
      connection := { h.connection with line := h.connection.line.arrive a }
      sent := h.sent ++ a.payload }
  | .change line =>
    { h with
      connection :=
        { h.connection with line := { line with inbound := h.connection.line.inbound } } }

def run (h : History) (acts : List Act) : History := acts.foldl act h

/-- The history accounts for everything since `c`, had all been sent at once. -/
def Follows (c : Connection) (h : History) : Prop :=
  ({ c with line := c.line.arrive (.bytes h.sent) } : Connection).Feeds h.inputs h.events
    h.connection

variable {c : Connection} {h : History}

theorem undecoded_arrive (c : Connection) (a : Arrival) :
    ({ c with line := c.line.arrive a } : Connection).undecoded = c.undecoded ++ a.payload := by
  show c.buffer ++ (c.line.arrive a).onWay = _
  rw [Line.onWay_arrive, ← List.append_assoc]
  rfl

theorem Follows.start (c : Connection) : Follows c { connection := c } := by
  refine Connection.feeds_of_eq ?_ rfl rfl rfl
  rw [Line.onWay_arrive]
  exact List.append_nil _

theorem Follows.arrive (hf : Follows c h) (a : Arrival) : Follows c (h.act (.arrive a)) := by
  obtain ⟨received, hline, hbuffer⟩ := hf.received
  refine ⟨⟨received, ?_, hbuffer⟩, hf.stream, hf.events⟩
  rw [Line.onWay_arrive] at hline
  show (c.line.arrive (.bytes (h.sent ++ a.payload))).onWay =
    received ++ (h.connection.line.arrive a).onWay
  rw [Line.onWay_arrive, Line.onWay_arrive, ← List.append_assoc, ← hline, List.append_assoc]
  rfl

theorem failed_act {a : Act} (hok : (h.act a).failed = false) : h.failed = false := by
  cases a with
  | call k => exact (Bool.or_eq_false_iff.mp hok).1
  | arrive a => exact hok
  | change line => exact hok

theorem Follows.act (hf : Follows c h) (a : Act) (hok : (h.act a).failed = false) :
    Follows c (h.act a) := by
  cases a with
  | call k => exact hf.trans (h.connection.feeds_perform k (Bool.or_eq_false_iff.mp hok).2)
  | arrive a => exact hf.arrive a
  | change line => exact ⟨hf.received, hf.stream, hf.events⟩

theorem Follows.run (hf : Follows c h) (acts : List Act) (hok : (h.run acts).failed = false) :
    Follows c (h.run acts) := by
  refine List.foldlRecOn (motive := fun h : History => h.failed = false → Follows c h) acts _
    (fun _ => hf) ?_ hok
  intro h ih a _ hok
  exact (ih (failed_act hok)).act a hok

theorem buffer_act (hb : h.connection.phase ≠ .open → h.connection.buffer = []) (a : Act)
    (ha : (h.act a).connection.phase ≠ .open) : (h.act a).connection.buffer = [] := by
  cases a with
  | call k => exact Connection.buffer_perform hb k ha
  | arrive a => exact hb ha
  | change line => exact hb ha

theorem exhausts_run (hb : c.phase ≠ .open → c.buffer = []) (acts : List Act) :
    (({ connection := c } : History).run acts).connection.Exhausts :=
  Connection.exhausts <|
    List.foldlRecOn (motive := fun h => h.connection.phase ≠ .open → h.connection.buffer = []) acts
      act hb fun _ ih a _ => buffer_act ih a

def Act.Faultless : Act → Prop
  | .call _ => True
  | .arrive a => ∀ f, a ≠ .fault f
  | .change line => line.writeFault = none ∧ line.closed = false

theorem act_faultless {a : Act} (hl : h.connection.line.Faultless) (ha : a.Faultless)
    (hok : h.failed = false) :
    (h.act a).connection.line.Faultless ∧ (h.act a).failed = false := by
  cases a with
  | call k =>
    obtain ⟨hl', hk⟩ := Connection.perform_faultless hl k
    exact ⟨hl', Bool.or_eq_false_iff.mpr ⟨hok, hk⟩⟩
  | arrive a =>
    refine ⟨⟨hl.writeFault, hl.closed, ?_⟩, hok⟩
    intro f hm
    rcases List.mem_append.mp hm with hm | hm
    · exact hl.inbound f hm
    · exact ha f (List.mem_singleton.mp hm).symm
  | change line => exact ⟨⟨ha.1, ha.2, hl.inbound⟩, hok⟩

theorem failed_of_faultless {acts : List Act} (hl : h.connection.line.Faultless)
    (ha : ∀ a ∈ acts, a.Faultless) (hok : h.failed = false) : (h.run acts).failed = false :=
  (List.foldlRecOn (motive := fun h => h.connection.line.Faultless ∧ h.failed = false) acts act
    ⟨hl, hok⟩ fun _ ih a hm => act_faultless ih.1 (ha a hm) ih.2).2

/-- In every run in which no call for the next event meets a fault, the bytes that were received are
those among the inputs and those still in the buffer, the events handed out and those kept are what
the stream made of its inputs, and what is kept is handed out before more is decoded. Where no write
and no read fails, no fault is met. In every run what was received leaves the buffer: nothing stays
there once a call has come to rest without an event, or the end has been met. -/
theorem run_in_order (c : Connection) (acts : List Act) :
    let h := ({ connection := c } : History).run acts
    (c.line.Faultless → (∀ a ∈ acts, a.Faultless) → h.failed = false) ∧
      ((c.phase ≠ .open → c.buffer = []) → h.connection.Exhausts) ∧
      (h.failed = false →
        (∃ received, c.line.onWay ++ h.sent = received ++ h.connection.line.onWay ∧
          c.buffer ++ received = Stream.Input.bytes h.inputs ++ h.connection.buffer) ∧
        h.events ++ h.connection.pending = c.pending ++ (c.stream.feed h.inputs).2 ∧
        (c.stream.feed h.inputs).1.takeReplies.2 = h.connection.stream.takeReplies.2 ∧
        ∀ event rest, h.connection.pending = event :: rest → ∀ limit,
          h.connection.next limit = (.event event, { h.connection with pending := rest })) := by
  intro h
  refine ⟨fun hl ha => failed_of_faultless hl ha rfl, fun hb => exhausts_run hb acts, fun hok => ?_⟩
  have hf : Follows c h := (Follows.start c).run acts hok
  obtain ⟨received, hline, hbuffer⟩ := hf.received
  obtain ⟨r, hr⟩ := hf.stream
  refine ⟨⟨received, ?_, hbuffer⟩, hf.events, ?_, ?_⟩
  · rw [← hline, Line.onWay_arrive]
    rfl
  · rw [hr, Stream.takeReplies_owing]
  · intro event rest hp limit
    exact Connection.next_of_pending hp limit

def echoing : Connection where
  stream.telnet.options.entries :=
    [{ code := 1, name := "ECHO", localSupport := true, remoteSupport := true, associated := true }]
  negotiationTimeout := 5

/-- Data before and after the answer that is waited for, and then the end of the stream. -/
def interleaved : List Act :=
  [.call .negotiateOnConnect, .arrive (.bytes [120, 255]), .arrive (.bytes [251, 1, 121]),
    .call (.ask "ECHO"), .call (.next none), .change { now := 3, ended := true },
    .call (.next (some 7)), .call (.offer "ECHO")]

/-- When the end is reported all five bytes have been decoded. -/
theorem run_in_order_interleaved :
    let h := ({ connection := echoing } : History).run interleaved
    h.failed = false ∧ (h.connection.next none).1 = .finished ∧
      h.events = (echoing.stream.feed h.inputs).2 ∧
      Stream.Input.bytes h.inputs = [120, 255, 251, 1, 121] := by
  intro h
  obtain ⟨hfaultless, hexhausts, hread⟩ := run_in_order echoing interleaved
  have hok : h.failed = false := by
    refine hfaultless ⟨rfl, rfl, fun _ => List.not_mem_nil⟩ ?_
    simp [interleaved, Act.Faultless]
  have hend : h.connection.phase = .ended ∧ h.connection.pending = [] ∧
      h.connection.line.onWay = [] := by
    decide +kernel
  obtain ⟨hphase, hpending, honWay⟩ := hend
  have hbuffer : h.connection.buffer = [] := by
    refine (hexhausts fun hn => absurd rfl hn).ended ?_
    rw [hphase]
    exact Phase.noConfusion
  obtain ⟨⟨received, hline, hbytes⟩, hevents, -⟩ := hread hok
  rw [honWay, List.append_nil] at hline
  rw [hbuffer, List.append_nil] at hbytes
  rw [hpending, List.append_nil] at hevents
  refine ⟨hok, congrArg Prod.fst (Connection.next_of_ended hpending hphase none), hevents, ?_⟩
  rw [← hbytes, ← hline]
  rfl

end History

end VatTerminal.Client
