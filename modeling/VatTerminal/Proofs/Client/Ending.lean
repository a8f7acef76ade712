import VatTerminal.Proofs.Client.Answers

/-! # The end of the stream

The end of the stream is reported once, behind everything that came before it,
and then every call fails. Once it has been met nothing is offered or asked for
any more, and what is kept is still handed out. The one way to lose an event is
to ask for it while the answer that it calls for cannot be written.
-/

namespace VatTerminal.Client

namespace Line

variable (l : Line)

/-- The line after others have had their way with it. What has gone out, what waits in the frame and
whether we have let go of it is not theirs to change. -/
def outside (line : Line) : Line :=
  { line with closed := l.closed, written := l.written, frame := l.frame }

theorem sendData_kept (payload : List UInt8) :
    (l.sendData payload).2.closed = l.closed ∧
      (l.sendData payload).2.writable = l.writable := by
  simp only [sendData, writeFrame, writable]
  repeat' split
  all_goals exact ⟨rfl, rfl⟩

end Line

inductive Answer where
  | next (r : Next)
  | settled (r : Except Error Bool)
  | wished (r : Except Error Unit)
  deriving DecidableEq

namespace Answer

def event? : Answer → Option TerminalEvent
  | .next r => r.event?
  | .settled _ | .wished _ => none

/-- There is no connection to be had. Wishes on connecting are not refused: those that have been
granted before call for nothing to be written. -/
def Refused : Answer → Prop
  | .next r => r = .failed .notConnected
  | .settled r => r = .error .notConnected
  | .wished _ => True

theorem Refused.event? {a : Answer} (h : a.Refused) : a.event? = none := by
  cases a with
  | next r =>
    obtain rfl : r = .failed .notConnected := h
    rfl
  | settled | wished => rfl

end Answer

namespace Connection

def answer (c : Connection) : Call → Answer
  | .next limit => .next (c.next limit).1
  | .offer name => .settled (c.offer name).1
  | .ask name => .settled (c.ask name).1
  | .negotiateOnConnect => .wished c.negotiateOnConnect.1

theorem event?_answer (c : Connection) (k : Call) : (c.answer k).event? = (c.perform k).1 := by
  cases k <;> rfl

/-- The events that a call makes of what it puts to the stream. -/
def makes (c : Connection) (k : Call) : List TerminalEvent := (c.stream.feed (c.inputs k)).2

/-- The events that a call makes and lets go of. Asking for the next event hands out nothing if it
fails. -/
def loses (c : Connection) : Call → List TerminalEvent
  | .next limit =>
    match (c.next limit).1 with
    | .failed _ => c.makes (.next limit)
    | .event _ | .finished | .waiting => []
  | .offer _ | .ask _ | .negotiateOnConnect => []

def meets (c : Connection) (k : Call) : Bool :=
  decide (c.phase = .open) && decide ((c.perform k).2.phase ≠ .open)

variable {c d : Connection} {limit : Option Nat}

section Lost

theorem pending_of_failed {e : Error} (h : (c.next limit).1 = .failed e) :
    c.pending = [] ∧ (c.next limit).2.pending = [] := by
  have hp : c.pending = [] := by
    cases hp : c.pending with
    | nil => rfl
    | cons event rest =>
      rw [next_of_pending hp] at h
      cases h
  exact ⟨hp, c.pending_next limit hp⟩

/-- What asking for the next event makes and does not hand out is kept or lost, and it is lost only
where a write fails. -/
theorem accounts_next (c : Connection) (limit : Option Nat) :
    (c.next limit).1.event?.toList ++ c.loses (.next limit) ++ (c.next limit).2.pending =
        c.pending ++ c.makes (.next limit) ∧
      (c.loses (.next limit) ≠ [] → c.phase = .open ∧ c.line.writable = false) := by
  obtain ⟨bytes, lost, hr, hlost⟩ := c.exists_reads_next limit
  have hevents := hr.feeds_decoded.events
  have hl : c.loses (.next limit) = lost := by
    have hkept (hne : ∀ e, (c.next limit).1 ≠ .failed e) : lost = [] := by
      by_contra hn
      obtain ⟨e, he, -⟩ := hlost hn
      exact hne e he
    cases hn : (c.next limit).1 with
    | failed e =>
      obtain ⟨hp, hp'⟩ := pending_of_failed hn
      rw [hn, hp, hp', List.append_nil] at hevents
      simp only [loses, hn]
      exact hevents.symm
    | event | finished | waiting =>
      rw [hn] at hkept
      simp only [loses, hn]
      refine (hkept ?_).symm
      rintro e ⟨⟩
  rw [hl]
  refine ⟨hevents, fun hne => ?_⟩
  obtain ⟨-, -, ho, hw⟩ := hlost hne
  exact ⟨ho, hw⟩

theorem accounts_perform (c : Connection) (k : Call) :
    (c.perform k).1.toList ++ c.loses k ++ (c.perform k).2.pending = c.pending ++ c.makes k ∧
      (c.loses k ≠ [] → c.phase = .open ∧ c.line.writable = false) := by
  have hwish {k : Call} (hf : c.fails k = false) (hl : c.loses k = []) :
      (c.perform k).1.toList ++ c.loses k ++ (c.perform k).2.pending = c.pending ++ c.makes k ∧
        (c.loses k ≠ [] → c.phase = .open ∧ c.line.writable = false) := by
    rw [hl, List.append_nil]
    exact ⟨(c.feeds_perform k hf).events, fun hne => absurd rfl hne⟩
  cases k with
  | next limit => exact c.accounts_next limit
  | offer | ask | negotiateOnConnect => exact hwish rfl rfl

theorem writable_perform (c : Connection) (k : Call) :
    (c.perform k).2.line.writable = c.line.writable := by
  obtain ⟨steps, hpath, -⟩ := c.exists_path k
  rw [← hpath.leads]
  exact (c.line_steps steps).2

end Lost

section End

structure Late (c : Connection) (k : Call) : Prop where
  phase : (c.perform k).2.phase = c.phase ∨ (c.perform k).2.phase = .closed
  events : (c.perform k).1.toList ++ (c.perform k).2.pending = c.pending
  line : c.line.closed = true → (c.perform k).2.line = c.line

theorem Late.not_open {k : Call} (h : c.Late k) (hc : c.phase ≠ .open) :
    (c.perform k).2.phase ≠ .open := by
  rcases h.phase with hp | hp
  · rw [hp]
    exact hc
  · rw [hp]
    nofun

theorem Late.of_eq {k : Call} {event : Option TerminalEvent} (h : c.perform k = (event, d))
    (hd : d.phase = c.phase ∨ d.phase = .closed) (he : event.toList ++ d.pending = c.pending)
    (hl : d.line = c.line) : c.Late k := by
  refine ⟨?_, ?_, fun _ => ?_⟩
  · rw [h]
    exact hd
  · rw [h]
    exact he
  · rw [h]
    exact hl

theorem late_next (hc : c.phase ≠ .open) (limit : Option Nat) : c.Late (.next limit) := by
  have hperform {r : Next} {d : Connection} (hn : c.next limit = (r, d)) :
      c.perform (.next limit) = (r.event?, d) := by rw [perform, hn]
  cases hp : c.pending with
  | cons event rest => exact .of_eq (hperform (next_of_pending hp limit)) (.inl rfl) hp.symm rfl
  | nil =>
    cases hq : c.phase with
    | «open» => exact absurd hq hc
    | ended => exact .of_eq (hperform (next_of_ended hp hq limit)) (.inr rfl) rfl rfl
    | closed => exact .of_eq (hperform (next_of_closed hp hq limit)) (.inl rfl) rfl rfl

theorem line_negotiateOnConnect (h : c.line.closed = true) :
    c.negotiateOnConnect.2.line = c.line := by
  obtain ⟨telnet, hr, -⟩ := c.requestAll_options
  simp only [negotiateOnConnect, hr, flushReplies, Line.sendRaw]
  split
  · rfl
  · exact congrArg Prod.snd (if_pos h)

theorem pending_negotiateOnConnect : c.negotiateOnConnect.2.pending = c.pending := by
  obtain ⟨telnet, hr, -⟩ := c.requestAll_options
  rw [negotiateOnConnect, hr]
  rfl

theorem late_perform (hc : c.phase ≠ .open) (k : Call) : c.Late k := by
  have hwish {k : Call} {name : String} {side : Telnet.Side}
      (hk : c.perform k = (none, (c.negotiate name side).2)) : c.Late k := by
    rw [c.negotiate_of_not_open name side hc] at hk
    exact .of_eq hk (.inl rfl) rfl rfl
  cases k with
  | next limit => exact late_next hc limit
  | offer | ask => exact hwish rfl
  | negotiateOnConnect =>
    exact ⟨.inl c.phase_negotiateOnConnect, pending_negotiateOnConnect, line_negotiateOnConnect⟩

theorem refused_answer (hp : c.pending = []) (hc : c.phase = .closed) (k : Call) :
    (c.answer k).Refused := by
  have hn : c.phase ≠ .open := by rw [hc]; nofun
  cases k with
  | next limit => exact congrArg Prod.fst (next_of_closed hp hc limit)
  | offer name => exact congrArg Prod.fst (c.negotiate_of_not_open name .localSide hn)
  | ask name => exact congrArg Prod.fst (c.negotiate_of_not_open name .remoteSide hn)
  | negotiateOnConnect => trivial

end End

end Connection

/-- A connection in use, with what its calls have answered. -/
structure Log where
  connection : Connection
  answers : List Answer := []
  made : List TerminalEvent := []
  lost : List TerminalEvent := []
  met : Bool := false
  deriving DecidableEq

namespace Log

inductive Act where
  | call (k : Call)
  | send (payload : List UInt8)
  | sendRaw (bytes : List UInt8)
  | letGo
  | close
  /-- The host sends or ends, time passes, writes begin or cease to fail. -/
  | outside (line : Line)

def setLine (h : Log) (line : Line) : Log := { h with connection := { h.connection with line } }

def act (h : Log) : Act → Log
  | .call k =>
    { connection := (h.connection.perform k).2
      answers := h.answers ++ [h.connection.answer k]
      made := h.made ++ h.connection.makes k
      lost := h.lost ++ h.connection.loses k
      met := h.met || h.connection.meets k }
  | .send payload => h.setLine (h.connection.line.sendData payload).2
  | .sendRaw bytes => h.setLine (h.connection.line.sendRaw bytes).2
  | .letGo => h.setLine h.connection.line.close.2
  | .close => { h with connection := h.connection.close.2 }
  | .outside line => h.setLine (h.connection.line.outside line)

def run (h : Log) (acts : List Act) : Log := acts.foldl act h

def handed (h : Log) : List TerminalEvent := h.answers.filterMap Answer.event?

/-- No write fails because of the act, but for what is sent after closing. -/
def Act.Unhindered : Act → Prop
  | .letGo => False
  | .outside line => line.writeFault = none
  | .call _ | .send _ | .sendRaw _ | .close => True

structure Accounted (c : Connection) (h : Log) : Prop where
  order : (h.handed ++ h.connection.pending).Sublist (c.pending ++ h.made)
  all : (h.handed ++ h.lost ++ h.connection.pending).Perm (c.pending ++ h.made)
  finished : ∀ before after, h.answers = before ++ .next .finished :: after →
    h.connection.pending = [] ∧ h.connection.phase = .closed ∧ .next .finished ∉ before ∧
      ∀ a ∈ after, a.Refused
  met : h.met = true → h.connection.phase ≠ .open

variable {c d : Connection} {h : Log}

theorem Accounted.start (c : Connection) : Accounted c { connection := c } where
  order := by
    show (c.pending).Sublist (c.pending ++ [])
    rw [List.append_nil]
  all := by
    show (c.pending).Perm (c.pending ++ [])
    rw [List.append_nil]
  finished before after he := by simp at he
  met := nofun

theorem Accounted.congr (ha : Accounted c h) (hp : d.pending = h.connection.pending)
    (hc : d.phase = h.connection.phase ∨ d.phase = .closed) :
    Accounted c { h with connection := d } where
  order := by
    show (h.handed ++ d.pending).Sublist _
    rw [hp]
    exact ha.order
  all := by
    show (h.handed ++ h.lost ++ d.pending).Perm _
    rw [hp]
    exact ha.all
  finished before after he := by
    obtain ⟨hpending, hphase, hrest⟩ := ha.finished before after he
    refine ⟨hp.trans hpending, ?_, hrest⟩
    rcases hc with hc | hc
    · exact hc.trans hphase
    · exact hc
  met hm := by
    show d.phase ≠ .open
    rcases hc with hc | hc
    · rw [hc]
      exact ha.met hm
    · rw [hc]
      nofun

theorem handed_call (h : Log) (k : Call) :
    (h.act (.call k)).handed = h.handed ++ (h.connection.perform k).1.toList := by
  show (h.answers ++ [h.connection.answer k]).filterMap Answer.event? = _
  rw [List.filterMap_append, ← h.connection.event?_answer k]
  congr 1

/-- The answer of a call comes after all earlier ones. Once the end has been reported, it is that
there is no connection. -/
theorem Accounted.finished_call (ha : Accounted c h) (k : Call) {before after : List Answer}
    (he : h.answers ++ [h.connection.answer k] = before ++ .next .finished :: after) :
    (h.connection.perform k).2.pending = [] ∧ (h.connection.perform k).2.phase = .closed ∧
      .next .finished ∉ before ∧ ∀ a ∈ after, a.Refused := by
  rcases List.eq_nil_or_concat after with rfl | ⟨earlier, a, rfl⟩
  · obtain ⟨rfl, ha'⟩ := List.append_inj' he rfl
    have hk : h.connection.answer k = .next .finished := (List.cons.inj ha').1
    have hmem : Answer.next .finished ∉ h.answers := by
      intro hmem
      obtain ⟨before, after, hsplit⟩ := List.append_of_mem hmem
      obtain ⟨hp, hc, -⟩ := ha.finished before after hsplit
      have hrefused := Connection.refused_answer hp hc k
      rw [hk] at hrefused
      cases hrefused
    cases k with
    | next limit =>
      obtain ⟨hp, hc⟩ := Connection.next_finished (Answer.next.inj hk)
      exact ⟨hp, hc, hmem, fun _ ha => absurd ha List.not_mem_nil⟩
    | offer | ask | negotiateOnConnect => cases hk
  · rw [List.concat_eq_append] at he ⊢
    rw [← List.cons_append, ← List.append_assoc] at he
    obtain ⟨hsplit, ha'⟩ := List.append_inj' he rfl
    obtain ⟨hp, hc, hbefore, hafter⟩ := ha.finished before earlier hsplit
    have hlate := Connection.late_perform (c := h.connection) (by rw [hc]; nofun) k
    have hevents := hlate.events
    rw [hp] at hevents
    refine ⟨(List.append_eq_nil_iff.mp hevents).2, ?_, hbefore, ?_⟩
    · rcases hlate.phase with hq | hq
      · exact hq.trans hc
      · exact hq
    · intro b hb
      rcases List.mem_append.mp hb with hb | hb
      · exact hafter b hb
      · rw [List.mem_singleton.mp hb, ← (List.cons.inj ha').1]
        exact Connection.refused_answer hp hc k

theorem Accounted.call (ha : Accounted c h) (k : Call) : Accounted c (h.act (.call k)) := by
  obtain ⟨hevents, -⟩ := h.connection.accounts_perform k
  refine ⟨?_, ?_, fun before after he => ha.finished_call k he, fun hm => ?_⟩
  · have hcall : ((h.connection.perform k).1.toList ++ (h.connection.perform k).2.pending).Sublist
        (h.connection.pending ++ h.connection.makes k) := by
      rw [← hevents]
      exact (List.sublist_append_left ..).append (.refl _)
    rw [handed_call, List.append_assoc]
    refine ((List.Sublist.refl h.handed).append hcall).trans ?_
    show List.Sublist _ (c.pending ++ (h.made ++ h.connection.makes k))
    rw [← List.append_assoc, ← List.append_assoc c.pending]
    exact ha.order.append (.refl _)
  · refine List.perm_iff_count.mpr fun e => ?_
    have hbefore := ha.all.count_eq e
    have hcall := congrArg (List.count e) hevents
    rw [handed_call]
    simp only [act, List.count_append] at hbefore hcall ⊢
    omega
  · rcases Bool.or_eq_true_iff.mp hm with hm | hm
    · exact (Connection.late_perform (ha.met hm) k).not_open (ha.met hm)
    · exact of_decide_eq_true (Bool.and_eq_true_iff.mp hm).2

theorem Accounted.act (ha : Accounted c h) (a : Act) : Accounted c (h.act a) := by
  cases a with
  | call k => exact ha.call k
  | close => exact ha.congr rfl (.inr rfl)
  | send | sendRaw | letGo | outside => exact ha.congr rfl (.inl rfl)

theorem Accounted.events (ha : Accounted c h) (hl : h.lost = []) :
    h.handed ++ h.connection.pending = c.pending ++ h.made := by
  refine ha.order.eq_of_length ?_
  have hall := ha.all.length_eq
  rwa [hl, List.append_nil] at hall

/-- Writes are taken as long as they are called for. -/
def Writes (h : Log) : Prop :=
  h.lost = [] ∧ (h.connection.line.writable = true ∨ h.connection.phase ≠ .open)

theorem Writes.call (hw : h.Writes) (k : Call) : (h.act (.call k)).Writes := by
  obtain ⟨hl, hline⟩ := hw
  obtain ⟨-, hlost⟩ := h.connection.accounts_perform k
  have hk : h.connection.loses k = [] := by
    by_contra hne
    obtain ⟨ho, hf⟩ := hlost hne
    rcases hline with hw | hc
    · rw [hf] at hw
      cases hw
    · exact hc ho
  refine ⟨?_, ?_⟩
  · show h.lost ++ h.connection.loses k = []
    rw [hl, hk]
    rfl
  · rcases hline with hw | hc
    · exact .inl ((h.connection.writable_perform k).trans hw)
    · exact .inr ((Connection.late_perform hc k).not_open hc)

theorem Writes.setLine (hw : h.Writes) {line : Line}
    (hl : h.connection.line.writable = true → line.writable = true) : (h.setLine line).Writes :=
  ⟨hw.1, hw.2.imp_left hl⟩

theorem Writes.act (hw : h.Writes) {a : Act} (ha : a.Unhindered) : (h.act a).Writes := by
  cases a with
  | call k => exact hw.call k
  | send payload => exact hw.setLine (h.connection.line.sendData_kept payload).2.trans
  | sendRaw bytes => exact hw.setLine (h.connection.line.sendRaw_kept bytes).2.trans
  | letGo => exact ha.elim
  | close => exact ⟨hw.1, .inr nofun⟩
  | outside line =>
    refine hw.setLine fun hl => ?_
    have hf : line.writeFault = none := ha
    have hc := (Bool.and_eq_true_iff.mp hl).2
    simp [Line.writable, Line.outside, hf, hc]

theorem Writes.run (hw : h.Writes) {acts : List Act} (ha : ∀ a ∈ acts, a.Unhindered) :
    (h.run acts).Writes :=
  List.foldlRecOn acts _ hw fun _ hw a hm => hw.act (ha a hm)

/-- Once the end has been met or all is closed, nothing is handed out but what is kept, in order. -/
theorem handed_run_of_not_open (hc : h.connection.phase ≠ .open) (acts : List Act) :
    (h.run acts).connection.phase ≠ .open ∧
      (h.run acts).handed ++ (h.run acts).connection.pending =
        h.handed ++ h.connection.pending := by
  refine List.foldlRecOn (motive := fun l : Log => l.connection.phase ≠ .open ∧
    l.handed ++ l.connection.pending = h.handed ++ h.connection.pending) acts _ ⟨hc, rfl⟩ ?_
  rintro l ⟨hc, he⟩ a -
  cases a with
  | call k =>
    have hlate := Connection.late_perform hc k
    refine ⟨hlate.not_open hc, ?_⟩
    rw [handed_call, List.append_assoc]
    exact (congrArg (l.handed ++ ·) hlate.events).trans he
  | close => exact ⟨nofun, he⟩
  | send | sendRaw | letGo | outside => exact ⟨hc, he⟩

/-- In every run, whatever fails meanwhile, events are handed out in the order in which they were
decoded, and none twice. What is missing has been lost, and nothing is lost where every write is
taken. The end is reported once at most, and after that every call is refused; if nothing has been
lost, all that was ever decoded had been handed out by then. Once the end has been met, no option is
touched and nothing written by an offer or by asking for an option, and what is kept is still handed
out, and nothing else. -/
theorem run_ends_once (c : Connection) (acts : List Act) :
    let h := ({ connection := c } : Log).run acts
    (h.handed ++ h.connection.pending).Sublist (c.pending ++ h.made) ∧
      (h.handed ++ h.lost ++ h.connection.pending).Perm (c.pending ++ h.made) ∧
      (c.line.writable = true → (∀ a ∈ acts, a.Unhindered) → h.lost = []) ∧
      (∀ before after, h.answers = before ++ .next .finished :: after →
        .next .finished ∉ before ∧ (∀ a ∈ after, a.Refused) ∧
          (h.lost = [] → before.filterMap Answer.event? = c.pending ++ h.made)) ∧
      (h.met = true → ∀ more,
        let l := h.run more
        l.handed ++ l.connection.pending = h.handed ++ h.connection.pending ∧
          (∀ event rest, l.connection.pending = event :: rest → ∀ limit,
            l.connection.next limit = (.event event, { l.connection with pending := rest })) ∧
          ∀ name, l.connection.offer name = (.error .notConnected, l.connection) ∧
            l.connection.ask name = (.error .notConnected, l.connection)) := by
  intro h
  have ha : Accounted c h := List.foldlRecOn acts _ (.start c) fun _ ha a _ => ha.act a
  refine ⟨ha.order, ha.all, fun hw hu => ?_, fun before after he => ?_, fun hm more => ?_⟩
  · have hstart : ({ connection := c } : Log).Writes := ⟨rfl, .inl hw⟩
    exact (hstart.run hu).1
  · obtain ⟨hp, -, hbefore, hafter⟩ := ha.finished before after he
    refine ⟨hbefore, hafter, fun hl => ?_⟩
    have hnone : after.filterMap Answer.event? = [] :=
      List.filterMap_eq_nil_iff.mpr fun a hm => (hafter a hm).event?
    have hevents := ha.events hl
    rw [hp, List.append_nil, handed, he, List.filterMap_append, List.filterMap_cons_none rfl, hnone,
      List.append_nil] at hevents
    exact hevents
  · obtain ⟨hc, he⟩ := handed_run_of_not_open (ha.met hm) more
    refine ⟨he, fun event rest hp limit => Connection.next_of_pending hp limit, fun name => ?_⟩
    exact ⟨Connection.negotiate_of_not_open _ name .localSide hc,
      Connection.negotiate_of_not_open _ name .remoteSide hc⟩

/-- A host that turns an option on while nothing can be written to it, and goes. -/
def unanswered : List Act :=
  [.outside { inbound := [.bytes [255, 251, 1]], writeFault := some ⟨.brokenPipe, "gone"⟩ },
    .call (.next none), .outside { ended := true }, .call (.next none), .call (.next none)]

/-- The end is reported though an event that was decoded before has not been handed out. -/
theorem unanswered_event_lost :
    let h := ({ connection := History.echoing } : Log).run unanswered
    h.made = [.telnet (.option ⟨1, .remoteSide, .enabled, false⟩)] ∧ h.handed = [] ∧
      h.answers = [.next (.failed .connectionClosed), .next .finished,
        .next (.failed .notConnected)] := by
  decide +kernel

end Log

end VatTerminal.Client
