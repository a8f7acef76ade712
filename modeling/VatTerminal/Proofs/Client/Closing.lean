import VatTerminal.Proofs.Client.Ending

/-! # After closing

Closing lets go of the line for good: nothing is written any more, whoever
tries, and nothing is read, offered or asked for. What had been kept by then is
still handed out, and only then does asking for the next event fail.
-/

namespace VatTerminal.Client

namespace Line

variable {l : Line}

theorem sendData_of_closed (h : l.closed = true) {payload : List UInt8} (hp : payload ≠ []) :
    l.sendData payload = (.error .notConnected, l) := by
  rw [sendData, if_neg hp, if_pos h]

theorem sendRaw_of_closed (h : l.closed = true) {bytes : List UInt8} (hb : bytes ≠ []) :
    l.sendRaw bytes = (.error .notConnected, l) := by
  rw [sendRaw, if_neg hb, if_pos h]

theorem line_sendData_of_closed (h : l.closed = true) (payload : List UInt8) :
    (l.sendData payload).2 = l := by
  by_cases hp : payload = []
  · rw [sendData, if_pos hp]
  · rw [sendData_of_closed h hp]

theorem line_sendRaw_of_closed (h : l.closed = true) (bytes : List UInt8) :
    (l.sendRaw bytes).2 = l := by
  by_cases hb : bytes = []
  · rw [sendRaw, if_pos hb]
  · rw [sendRaw_of_closed h hb]

theorem line_close_of_closed (h : l.closed = true) : l.close.2 = l := by
  rw [close, if_pos h]

theorem closed_close (l : Line) : l.close.2.closed = true := by
  unfold close
  split
  · assumption
  · rfl

end Line

namespace Log

variable {h : Log} {w : List (List UInt8)} {a : Answer}

/-- All is closed, and this is what had been written by then. -/
structure Closed (w : List (List UInt8)) (h : Log) : Prop where
  phase : h.connection.phase = .closed
  closed : h.connection.line.closed = true
  written : h.connection.line.written = w

theorem closed_act_close (h : Log) : Closed h.connection.line.written (h.act .close) where
  phase := rfl
  closed := h.connection.line.closed_close
  written := h.connection.line.close_kept.2

theorem Closed.not_open (hc : Closed w h) : h.connection.phase ≠ .open := by
  rw [hc.phase]
  nofun

theorem Closed.call (hc : Closed w h) (k : Call) : Closed w (h.act (.call k)) := by
  have hlate := Connection.late_perform hc.not_open k
  have hline : (h.act (.call k)).connection.line = h.connection.line := hlate.line hc.closed
  refine ⟨hlate.phase.elim (fun hp => hp.trans hc.phase) id, ?_, ?_⟩
  · rw [hline]
    exact hc.closed
  · rw [hline]
    exact hc.written

theorem Closed.setLine (hc : Closed w h) {line : Line} (hl : line.closed = h.connection.line.closed)
    (hw : line.written = h.connection.line.written) : Closed w (h.setLine line) :=
  ⟨hc.phase, hl.trans hc.closed, hw.trans hc.written⟩

theorem Closed.act (hc : Closed w h) (a : Act) : Closed w (h.act a) := by
  cases a with
  | call k => exact hc.call k
  | send payload =>
    have hl := Line.line_sendData_of_closed hc.closed payload
    exact hc.setLine (congrArg _ hl) (congrArg _ hl)
  | sendRaw bytes =>
    have hl := Line.line_sendRaw_of_closed hc.closed bytes
    exact hc.setLine (congrArg _ hl) (congrArg _ hl)
  | letGo =>
    have hl := Line.line_close_of_closed hc.closed
    exact hc.setLine (congrArg _ hl) (congrArg _ hl)
  | close =>
    have hl := Line.line_close_of_closed hc.closed
    exact ⟨rfl, (congrArg Line.closed hl).trans hc.closed,
      (congrArg Line.written hl).trans hc.written⟩
  | outside line => exact hc.setLine rfl rfl

theorem Closed.answer (hc : Closed w h) (k : Call) :
    (h.connection.answer k).Refused ∨ ∃ e, h.connection.answer k = .next (.event e) := by
  have hwish (name : String) (side : Telnet.Side) :
      (h.connection.negotiate name side).1 = .error .notConnected :=
    congrArg Prod.fst (Connection.negotiate_of_not_open _ name side hc.not_open)
  cases k with
  | next limit =>
    cases hp : h.connection.pending with
    | nil => exact .inl (Connection.refused_answer hp hc.phase _)
    | cons event rest =>
      refine .inr ⟨event, ?_⟩
      rw [Connection.answer, Connection.next_of_pending hp]
  | offer name => exact .inl (hwish name .localSide)
  | ask name => exact .inl (hwish name .remoteSide)
  | negotiateOnConnect => exact .inl trivial

theorem Closed.run (hc : Closed w h) (acts : List Act) :
    Closed w (h.run acts) ∧ ∃ later, (h.run acts).answers = h.answers ++ later ∧
      ∀ a ∈ later, a.Refused ∨ ∃ e, a = .next (.event e) := by
  refine List.foldlRecOn (motive := fun l : Log => Closed w l ∧ ∃ later,
    l.answers = h.answers ++ later ∧ ∀ a ∈ later, a.Refused ∨ ∃ e, a = .next (.event e)) acts _
    ⟨hc, [], (List.append_nil _).symm, fun _ ha => absurd ha List.not_mem_nil⟩ ?_
  rintro l ⟨hc, later, he, hl⟩ a -
  refine ⟨hc.act a, ?_⟩
  cases a with
  | call k =>
    refine ⟨later ++ [l.connection.answer k], ?_, ?_⟩
    · show l.answers ++ [l.connection.answer k] = _
      rw [he, List.append_assoc]
    · exact List.forall_mem_append.mpr ⟨hl, List.forall_mem_singleton.mpr (hc.answer k)⟩
  | send | sendRaw | letGo | close | outside => exact ⟨later, he, hl⟩

/-- After closing, whatever is called and whoever else holds the line, nothing is written, offered
or asked for, and no data can be sent. Asking for the next event fails once all that had been kept
is handed out; where nothing had been kept, every call is refused. -/
theorem run_closed (c : Connection) (acts more : List Act) :
    let used := ({ connection := c } : Log).run acts
    let h := used.act .close
    let l := h.run more
    l.connection.line.written = used.connection.line.written ∧
      (∃ later, l.answers = h.answers ++ later ∧
        later.filterMap Answer.event? ++ l.connection.pending = used.connection.pending ∧
        (∀ a ∈ later, a.Refused ∨ ∃ e, a = .next (.event e)) ∧
        (used.connection.pending = [] → ∀ a ∈ later, a.Refused)) ∧
      (∀ limit, l.connection.pending = [] →
        l.connection.next limit = (.failed .notConnected, l.connection)) ∧
      (∀ name, l.connection.offer name = (.error .notConnected, l.connection) ∧
        l.connection.ask name = (.error .notConnected, l.connection)) ∧
      ∀ payload, payload ≠ [] →
        l.connection.line.sendData payload = (.error .notConnected, l.connection.line) := by
  intro used h l
  have hc : Closed used.connection.line.written h := used.closed_act_close
  obtain ⟨hl, later, hlater, hall⟩ := hc.run more
  have hkept : later.filterMap Answer.event? ++ l.connection.pending = used.connection.pending := by
    have he := (handed_run_of_not_open hc.not_open more).2
    rw [handed, hlater, List.filterMap_append, List.append_assoc] at he
    exact List.append_cancel_left he
  refine ⟨hl.written, ⟨later, hlater, hkept, hall, fun hp a ha => ?_⟩, fun limit hp => ?_,
    fun name => ?_, fun payload hp => Line.sendData_of_closed hl.closed hp⟩
  · rcases hall a ha with hr | ⟨e, rfl⟩
    · exact hr
    · have hmem : e ∈ later.filterMap Answer.event? := List.mem_filterMap.mpr ⟨_, ha, rfl⟩
      rw [hp] at hkept
      rw [(List.append_eq_nil_iff.mp hkept).1] at hmem
      cases hmem
  · exact Connection.next_of_closed hp hl.phase limit
  · exact ⟨Connection.negotiate_of_not_open _ name .localSide hl.not_open,
      Connection.negotiate_of_not_open _ name .remoteSide hl.not_open⟩

/-- A host that writes while an offer waits for its answer in vain, and then all is closed. -/
def untimely : List Act :=
  [.outside { inbound := [.bytes [120]] }, .call (.offer "ECHO"), .close, .call (.next none)]

/-- Asking for the next event is not refused though all is closed. -/
theorem kept_event_outlives_closing :
    let h := ({ connection := History.echoing } : Log).run untimely
    h.connection.phase = .closed ∧ h.connection.line.closed = true ∧
      h.answers = [.settled (.ok false), .next (.event (.instruction (.print 120)))] := by
  decide +kernel

end Log

end VatTerminal.Client
