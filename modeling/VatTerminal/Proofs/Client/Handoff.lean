import VatTerminal.Client.Basic
import VatTerminal.Proofs.Client.Reads
import VatTerminal.Proofs.Session.Mouse

/-! # The hand-off to the display

The display is always behind by what is in the queue. What it will show once it
has served the queue is not changed by serving, and each request that joins the
queue changes it as if it were served at once. While the reader asks for events
nothing in the queue changes a cell, so that what will be shown is shown.
-/

namespace VatTerminal

def TerminalEvent.instruction? : TerminalEvent → Option Instruction
  | .instruction i => some i
  | .telnet _ => none

def instructions (events : List TerminalEvent) : List Instruction :=
  events.filterMap TerminalEvent.instruction?

namespace Client

/-- The requests that come from the reader and from the user. The reader wants to be told of what
may change the screen, and of nothing else. -/
def Request.Plain : Request → Prop
  | .apply i ack => ack = i.mutatesScreen
  | .clear => False
  | .key _ | .press _ _ | .release _ | .move _ | .exit | .disconnected => True

theorem Request.plain_of_isInput {r : Request} (h : r.isInput = true) : r.Plain := by
  cases r with
  | apply | clear => cases h
  | _ => trivial

namespace Display

variable (d : Display) {r : Request}

theorem forgetMouse_input (t : Terminal) (r : Request) :
    (input t r).1.forgetMouse = t.forgetMouse := by
  cases r with
  | key c => exact t.forgetMouse_key c
  | _ => rfl

theorem handle_of_isInput (h : r.isInput = true) :
    d.handle r = if d.attached then
      ({ d with terminal := (input d.terminal r).1 }, (input d.terminal r).2) else (d, {}) := by
  cases r with
  | apply | clear | disconnected => cases h
  | _ => rfl

theorem forgetMouse_handle (h : r.isInput = true) :
    (d.handle r).1.terminal.forgetMouse = d.terminal.forgetMouse := by
  rw [d.handle_of_isInput h]
  split
  · exact forgetMouse_input d.terminal r
  · rfl

theorem screen_handle (h : r.isInput = true) :
    (d.handle r).1.terminal.screen = d.terminal.screen :=
  Terminal.screen_of_forgetMouse (d.forgetMouse_handle h)

theorem grid_handle (hp : r.Plain) (ha : r.wantsAck = false) :
    (d.handle r).1.terminal.screen.grid = d.terminal.screen.grid := by
  cases r with
  | apply i ack => exact d.terminal.grid_apply (hp.symm.trans ha)
  | clear => exact hp.elim
  | disconnected => rfl
  | _ => exact congrArg Screen.grid (d.screen_handle rfl)

def after (d : Display) (rs : List Request) : Display := rs.foldl (fun d r => (d.handle r).1) d

theorem after_append (rs : List Request) (r : Request) :
    d.after (rs ++ [r]) = ((d.after rs).handle r).1 := List.foldl_append

theorem grid_after {rs : List Request} (hp : ∀ r ∈ rs, r.Plain)
    (ha : rs.countP Request.wantsAck = 0) :
    (d.after rs).terminal.screen.grid = d.terminal.screen.grid := by
  induction rs generalizing d with
  | nil => rfl
  | cons r rs ih =>
    rw [List.countP_eq_zero] at ha
    have hr := d.grid_handle (hp r List.mem_cons_self)
      (Bool.not_eq_true _ ▸ ha r List.mem_cons_self)
    refine (ih (d.handle r).1 (fun r' hm => hp r' (List.mem_cons_of_mem r hm)) ?_).trans hr
    exact List.countP_eq_zero.mpr fun r' hm => ha r' (List.mem_cons_of_mem r hm)

end Display

/-- The instruction that the reader has been handed and has not passed on. -/
def Reader.held : Reader → List Instruction
  | .sending i => [i]
  | .asking | .awaiting | .closing | .announcing | .parting | .finished => []

def Reader.connected : Reader → Bool
  | .asking | .sending _ | .awaiting | .closing => true
  | .announcing | .parting | .finished => false

/-- The terminal once the display has served the queue. -/
def due (c : Client) : Terminal := (c.display.after c.queue).terminal

def handed? (c : Client) (limit : Nat) : Option TerminalEvent :=
  if c.reader = .asking ∧ c.stopping = false then (c.connection.next (some limit)).1.event?
  else none

inductive ReaderStep (c : Client) (limit : Nat) : Option TerminalEvent → Client → Prop where
  | still (hr : c.reader ≠ .asking) : ReaderStep c limit none c
  | stopped (hr : c.reader = .asking) : ReaderStep c limit none { c with reader := .closing }
  | asked {next : Next} {connection : Connection} {reader : Reader} {journal : Journal}
    (hr : c.reader = .asking) (hn : c.connection.next (some limit) = (next, connection))
    (hw : reader ≠ .awaiting) (hc : reader.connected = true)
    (hh : reader.held = instructions next.event?.toList) :
    ReaderStep c limit next.event?
      { c with
        reader, journal
        connection := { connection with stream := connection.stream.takeStrays.2 } }
  | sent {i : Instruction} (hr : c.reader = .sending i) :
    ReaderStep c limit none
      (({ c with reader := if i.mutatesScreen then .awaiting else .asking } : Client).enqueue
        (.apply i i.mutatesScreen))
  | woken (hr : c.reader = .awaiting) (ha : c.acknowledged = true) :
    ReaderStep c limit none { c with reader := .asking, acknowledged := false }
  | hungUp (hr : c.reader = .closing) : ReaderStep c limit none c.hangUp
  | announced (hr : c.reader = .announcing) :
    ReaderStep c limit none (({ c with reader := .parting } : Client).enqueue .disconnected)
  | parted {journal : Journal} (hr : c.reader = .parting) :
    ReaderStep c limit none { c with reader := .finished, journal }

theorem ask_spec {c : Client} (hr : c.reader = .asking) (limit : Nat) :
    ReaderStep c limit (c.connection.next (some limit)).1.event? (c.ask limit).2 := by
  rw [ask]
  rcases hn : c.connection.next (some limit) with ⟨next, connection⟩
  cases next with
  | event e =>
    cases e with
    | instruction i => exact .asked hr hn nofun rfl rfl
    | telnet e => exact .asked hr hn (by rw [hr]; nofun) (by rw [hr]; rfl) (by rw [hr]; rfl)
  | finished => exact .asked hr hn nofun rfl rfl
  | failed e => exact .asked hr hn nofun rfl rfl
  | waiting => exact .asked hr hn (by rw [hr]; nofun) (by rw [hr]; rfl) (by rw [hr]; rfl)

theorem readerStep_spec (c : Client) (limit : Nat) :
    ReaderStep c limit (c.handed? limit) (c.readerStep limit).2 := by
  have hnone (hne : c.reader ≠ .asking) : c.handed? limit = none := if_neg fun hc => hne hc.1
  rw [readerStep]
  split
  · next hr =>
    split
    · next hs =>
      rw [handed?, if_neg fun hc => Bool.noConfusion (hs.symm.trans hc.2)]
      exact .stopped hr
    · next hs =>
      rw [handed?, if_pos ⟨hr, Bool.not_eq_true _ ▸ hs⟩]
      exact ask_spec hr limit
  · next i hr =>
    rw [hnone (by rw [hr]; nofun)]
    split
    · exact .sent hr
    · exact .still (by rw [hr]; nofun)
  · next hr =>
    rw [hnone (by rw [hr]; nofun)]
    split
    · next ha => exact .woken hr ha
    · exact .still (by rw [hr]; nofun)
  · next hr =>
    rw [hnone (by rw [hr]; nofun)]
    exact .hungUp hr
  · next hr =>
    rw [hnone (by rw [hr]; nofun)]
    split
    · exact .announced hr
    · exact .still (by rw [hr]; nofun)
  · next hr =>
    rw [hnone (by rw [hr]; nofun)]
    exact .parted hr
  · next hr =>
    rw [hnone (by rw [hr]; nofun)]
    exact .still (by rw [hr]; nofun)

/-- The client has been handed instructions for a terminal. All but what the reader holds will be
carried out, in order and once, and the reader waits for those in the queue that change a cell. -/
structure InStep (t : Terminal) (is : List Instruction) (c : Client) : Prop where
  plain : ∀ r ∈ c.queue, r.Plain
  acks : c.queue.countP Request.wantsAck + c.acknowledged.toNat =
    if c.reader = .awaiting then 1 else 0
  due : ∃ done, is = done ++ c.reader.held ∧ c.due.screen = (t.interpret done).screen ∧
    (c.reader.connected = true → c.due.forgetMouse = (t.interpret done).forgetMouse)

variable {c : Client} {t : Terminal} {is : List Instruction} {r : Request}

theorem due_enqueue (c : Client) (r : Request) :
    (c.enqueue r).due = ((c.display.after c.queue).handle r).1.terminal :=
  congrArg Display.terminal (c.display.after_append c.queue r)

theorem acks_enqueue (c : Client) (r : Request) :
    (c.enqueue r).queue.countP Request.wantsAck =
      c.queue.countP Request.wantsAck + r.wantsAck.toNat := by
  show (c.queue ++ [r]).countP _ = _
  rw [List.countP_append, List.countP_singleton]
  cases r.wantsAck <;> rfl

namespace InStep

theorem congr {d : Client} {new : List Instruction} (h : c.InStep t is)
    (hq : d.queue = c.queue) (hd : d.display = c.display)
    (ha : c.queue.countP Request.wantsAck + d.acknowledged.toNat =
      if d.reader = .awaiting then 1 else 0)
    (hheld : c.reader.held ++ new = d.reader.held)
    (hcon : d.reader.connected = true → c.reader.connected = true) : d.InStep t (is ++ new) := by
  obtain ⟨done, hdone, hs, hm⟩ := h.due
  have hdue : d.due = c.due := by rw [Client.due, Client.due, hq, hd]
  refine ⟨hq ▸ h.plain, hq ▸ ha, done, ?_, hdue ▸ hs, fun hc => ?_⟩
  · rw [hdone, List.append_assoc, hheld]
  · rw [hdue]
    exact hm (hcon hc)

theorem plain_enqueue (h : c.InStep t is) (hr : r.Plain) :
    ∀ r' ∈ (c.enqueue r).queue, r'.Plain := by
  intro r' hm
  rcases List.mem_append.mp hm with hm | hm
  · exact h.plain r' hm
  · rw [List.mem_singleton.mp hm]
    exact hr

theorem input (h : c.InStep t is) (hr : r.isInput = true) : (c.submit r).2.InStep t is := by
  rw [submit]
  split
  · obtain ⟨done, hdone, hs, hm⟩ := h.due
    have hw : r.wantsAck = false := by
      cases r with
      | apply => cases hr
      | _ => rfl
    have hf := (c.display.after c.queue).forgetMouse_handle hr
    have hsc := (c.display.after c.queue).screen_handle hr
    rw [← due_enqueue] at hf hsc
    refine ⟨h.plain_enqueue (Request.plain_of_isInput hr), ?_, done, hdone, hsc.trans hs, ?_⟩
    · rw [acks_enqueue, hw]
      exact h.acks
    · intro ha
      exact hf.trans (hm ha)
  · exact h

theorem displayStep (h : c.InStep t is) : c.displayStep.2.InStep t is := by
  rw [Client.displayStep]
  split
  · exact h
  · next r rest hq =>
    obtain ⟨done, hdone, hs, hm⟩ := h.due
    have hdue : (({ c with queue := rest } : Client).serve r).due = c.due := by
      show _ = (c.display.after c.queue).terminal
      rw [hq]
      rfl
    refine ⟨?_, ?_, done, hdone, hdue ▸ hs, hdue ▸ hm⟩
    · intro r' hr'
      exact h.plain r' (hq ▸ List.mem_cons_of_mem r hr')
    · have ha := h.acks
      rw [hq, List.countP_cons] at ha
      show rest.countP Request.wantsAck + (c.acknowledged || r.wantsAck).toNat =
        if c.reader = .awaiting then 1 else 0
      rw [← ha]
      have hle : rest.countP Request.wantsAck + (if r.wantsAck then 1 else 0) +
          c.acknowledged.toNat ≤ 1 := by
        rw [ha]
        split <;> omega
      revert hle
      cases c.acknowledged <;> cases r.wantsAck <;> simp

/-- The reader passes on what it holds, and waits if this may change a cell. -/
theorem send {i : Instruction} (h : c.InStep t is) (hr : c.reader = .sending i) :
    (({ c with reader := if i.mutatesScreen then .awaiting else .asking } : Client).enqueue
      (.apply i i.mutatesScreen)).InStep t is := by
  obtain ⟨done, hdone, -, hm⟩ := h.due
  rw [hr] at hdone hm
  have hterm := due_enqueue { c with reader := if i.mutatesScreen then .awaiting else .asking }
    (.apply i i.mutatesScreen)
  have hmouse : (c.due.apply i).1.forgetMouse = (t.interpret is).forgetMouse := by
    rw [hdone, Terminal.interpret_append, Terminal.forgetMouse_apply, hm rfl]
    exact (Terminal.forgetMouse_apply _ i).symm
  refine ⟨h.plain_enqueue rfl, ?_, is, ?_, ?_, fun _ => ?_⟩
  · have ha := h.acks
    rw [hr, if_neg (by nofun)] at ha
    rw [acks_enqueue]
    show c.queue.countP Request.wantsAck + i.mutatesScreen.toNat + c.acknowledged.toNat =
      if (if i.mutatesScreen then Reader.awaiting else .asking) = .awaiting then 1 else 0
    cases i.mutatesScreen with
    | true =>
      show _ + 1 + _ = 1
      omega
    | false => exact ha
  · show is = is ++ Reader.held (if i.mutatesScreen then .awaiting else .asking)
    split <;> exact (List.append_nil is).symm
  · rw [hterm]
    exact Terminal.screen_of_forgetMouse hmouse
  · rw [hterm]
    exact hmouse

/-- The reader has nothing more to pass on, and tells the display that the line is gone. -/
theorem announce (h : c.InStep t is) (hr : c.reader = .announcing) :
    (({ c with reader := .parting } : Client).enqueue .disconnected).InStep t is := by
  obtain ⟨done, hdone, hs, -⟩ := h.due
  rw [hr] at hdone
  have hterm := due_enqueue { c with reader := .parting } .disconnected
  refine ⟨h.plain_enqueue trivial, ?_, done, hdone, ?_, nofun⟩
  · have ha := h.acks
    rw [hr] at ha
    rw [acks_enqueue]
    exact ha
  · rw [hterm]
    exact hs

theorem readerStep {limit : Nat} {event : Option TerminalEvent} {d : Client}
    (h : c.InStep t is) (hd : c.ReaderStep limit event d) :
    d.InStep t (is ++ instructions event.toList) := by
  have hacks := h.acks
  cases hd with
  | still hr => rwa [← List.append_nil is] at h
  | stopped hr =>
    rw [hr] at hacks
    exact h.congr rfl rfl hacks (by rw [hr]; rfl) (fun _ => by rw [hr]; rfl)
  | asked hr hn hw hc hh =>
    rw [hr] at hacks
    exact h.congr rfl rfl (hacks.trans (if_neg hw).symm) (by rw [hr]; exact hh.symm)
      (fun _ => by rw [hr]; rfl)
  | sent hr =>
    have hs := h.send hr
    rwa [← List.append_nil is] at hs
  | woken hr ha =>
    have hq : c.queue.countP Request.wantsAck = 0 := by
      rw [hr, ha] at hacks
      exact Nat.succ.inj hacks
    exact h.congr rfl rfl hq (by rw [hr]; rfl) (fun _ => by rw [hr]; rfl)
  | hungUp hr =>
    rw [hr] at hacks
    exact h.congr rfl rfl hacks (by rw [hr]; rfl) nofun
  | announced hr =>
    have ha := h.announce hr
    rwa [← List.append_nil is] at ha
  | parted hr =>
    rw [hr] at hacks
    exact h.congr rfl rfl hacks (by rw [hr]; rfl) nofun

/-- While the reader asks for events the display shows what it was handed. -/
theorem grid_of_asking (h : c.InStep t is) (hr : c.reader = .asking) :
    c.display.terminal.screen.grid = (t.interpret is).screen.grid := by
  obtain ⟨done, hdone, hs, -⟩ := h.due
  have hacks := h.acks
  rw [hr, if_neg (by nofun)] at hacks
  rw [hr] at hdone
  have hg := c.display.grid_after h.plain (Nat.eq_zero_of_add_eq_zero_right hacks)
  rw [hdone, show done ++ Reader.asking.held = done from List.append_nil done, ← hs]
  exact hg.symm

/-- Once all has been served the screen is what the reader was handed, its bells included. -/
theorem screen_of_finished (h : c.InStep t is) (hr : c.reader = .finished) (hq : c.queue = []) :
    c.display.terminal.screen = (t.interpret is).screen := by
  obtain ⟨done, hdone, hs, -⟩ := h.due
  rw [hr] at hdone
  rw [hdone, show done ++ Reader.finished.held = done from List.append_nil done, ← hs, Client.due,
    hq]
  rfl

end InStep

end Client

end VatTerminal
