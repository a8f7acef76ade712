import VatTerminal.Client.Schedule
import VatTerminal.Proofs.Client.Closing
import VatTerminal.Proofs.Client.Course

/-! # Moves

Everything that happens to a client, one after the other and in any order: the
steps of reader and display, what the user asks for, what others do to the line
and what comes from outside. The order in which a client is run is one of these.
-/

namespace VatTerminal.Client

def Request.fromUser : Request → Bool
  | .key _ | .press _ _ | .release _ | .move _ | .exit | .clear => true
  | .apply _ _ | .disconnected => false

theorem Request.isInput_or_clear {r : Request} (h : r.fromUser = true) :
    r.isInput = true ∨ r = .clear := by
  cases r with
  | apply | disconnected => cases h
  | clear => exact .inr rfl
  | _ => exact .inl rfl

inductive Move where
  | reader (limit : Nat)
  | display
  | request (r : Request) (h : r.fromUser = true)
  | stop
  | lend (draw : Terminal → Screen)
  | send (payload : List UInt8)
  | sendRaw (bytes : List UInt8)
  | letGo
  /-- The host sends or ends, time passes, writes begin or cease to fail. -/
  | outside (line : Line)

/-- What the user draws is no smaller and no larger than what was there. -/
def Move.KeepsSize : Move → Prop
  | .lend draw => ∀ t, (draw t).size = t.screen.size
  | .reader _ | .display | .request _ _ | .stop | .send _ | .sendRaw _ | .letGo | .outside _ => True

def lend (c : Client) (draw : Terminal → Screen) : Client :=
  { c with
    display :=
      { c.display with terminal := { c.display.terminal with screen := draw c.display.terminal } } }

def move (c : Client) : Move → Client
  | .reader limit => (c.readerStep limit).2
  | .display => c.displayStep.2
  | .request r _ => (c.submit r).2
  | .stop => c.disconnect
  | .lend draw => c.lend draw
  | .send payload => c.setLine (c.connection.line.sendData payload).2
  | .sendRaw bytes => c.setLine (c.connection.line.sendRaw bytes).2
  | .letGo => c.setLine c.connection.line.close.2
  | .outside line => c.setLine (c.connection.line.outside line)

def play (c : Client) (moves : List Move) : Client := moves.foldl move c

inductive Moved (c : Client) : Move → Client → Prop where
  | still {m : Move} : Moved c m c
  | read {limit : Nat} {event : Option TerminalEvent} {d : Client}
    (hd : c.ReaderStep limit event d) : Moved c (.reader limit) d
  | served {r : Request} {rest : List Request} (hq : c.queue = r :: rest) :
    Moved c .display (({ c with queue := rest } : Client).serve r)
  | joined {r : Request} (hr : r.fromUser = true) : Moved c (.request r hr) (c.enqueue r)
  | stopped : Moved c .stop c.disconnect
  | drawn {draw : Terminal → Screen} : Moved c (.lend draw) (c.lend draw)
  /-- Something is done to the line. Once it has been let go of nothing is written. -/
  | line {m : Move} {line : Line}
    (hl : c.connection.line.closed = true →
      line.closed = true ∧ line.written = c.connection.line.written) :
    Moved c m (c.setLine line)

theorem move_spec (c : Client) (m : Move) : c.Moved m (c.move m) := by
  have hkept {m : Move} {line : Line}
      (hl : c.connection.line.closed = true → line = c.connection.line) :
      c.Moved m (c.setLine line) := by
    refine .line fun hc => ?_
    rw [hl hc]
    exact ⟨hc, rfl⟩
  cases m with
  | reader limit => exact .read (c.readerStep_spec limit)
  | display =>
    rw [move, displayStep]
    split
    · exact .still
    · next hq => exact .served hq
  | request r hr =>
    rw [move, submit]
    split
    · exact .joined hr
    · exact .still
  | stop => exact .stopped
  | lend draw => exact .drawn
  | send payload => exact hkept fun hc => Line.line_sendData_of_closed hc payload
  | sendRaw bytes => exact hkept fun hc => Line.line_sendRaw_of_closed hc bytes
  | letGo => exact hkept Line.line_close_of_closed
  | outside line => exact .line fun hc => ⟨hc, rfl⟩

theorem play_induction {P : Client → Prop} {c : Client} (h : P c)
    (hmove : ∀ {c d : Client} {m : Move}, P c → c.Moved m d → P d) (moves : List Move) :
    P (c.play moves) :=
  List.foldlRecOn moves _ h fun c h m _ => hmove h (c.move_spec m)

theorem line_serve (c : Client) (r : Request) :
    (c.serve r).connection.line =
      (c.connection.line.sendData (c.display.handle r).2.reply).2 :=
  c.connection.line.sendOwed_eq _

theorem play_append (c : Client) (ms ns : List Move) : c.play (ms ++ ns) = (c.play ms).play ns :=
  List.foldl_append

theorem play_display (c : Client) (rs : List Request) :
    ({ c with queue := rs } : Client).play (List.replicate rs.length .display) =
      rs.foldl serve { c with queue := [] } := by
  induction rs generalizing c with
  | nil => rfl
  | cons r rs ih => exact ih (c.serve r)

theorem exists_play_readerTurn (c : Client) (limit : Nat) :
    ∃ moves, c.play moves = c.readerTurn limit := by
  fun_induction readerTurn c limit with
  | case1 c d h ih =>
    obtain ⟨moves, hm⟩ := ih
    refine ⟨.reader limit :: moves, ?_⟩
    show (c.readerStep limit).2.play moves = _
    rw [h]
    exact hm
  | case2 c d h => exact ⟨[.reader limit], congrArg Prod.snd h⟩

theorem exists_play_runIdle (c : Client) : ∃ moves, c.play moves = c.runIdle := by
  fun_induction runIdle c with
  | case1 c _ => exact c.exists_play_readerTurn c.now
  | case2 c _ ih =>
    obtain ⟨turn, ht⟩ := c.exists_play_readerTurn c.now
    obtain ⟨moves, hm⟩ := ih
    refine ⟨turn ++ (List.replicate (c.readerTurn c.now).queue.length .display ++ moves), ?_⟩
    rw [play_append, play_append, ht, ← hm]
    exact congrArg (play · moves) (play_display (c.readerTurn c.now) _)

/-- The order in which a client is run is one of those in which the steps may be taken. -/
theorem exists_play_settle (c : Client) (moment : Nat) :
    ∃ moves, c.play moves = c.settle moment := by
  fun_induction settle c moment with
  | case1 c d h ih =>
    obtain ⟨turn, ht⟩ := c.exists_play_runIdle
    obtain ⟨moves, hm⟩ := ih
    refine ⟨turn ++ .reader moment :: moves, ?_⟩
    rw [play_append, ht]
    show (c.runIdle.readerStep moment).2.play moves = _
    rw [h]
    exact hm
  | case2 c d h =>
    obtain ⟨turn, ht⟩ := c.exists_play_runIdle
    refine ⟨turn ++
      [.reader moment, .outside { d.connection.line with now := max d.now moment }], ?_⟩
    have hd : c.runIdle.move (.reader moment) = d := congrArg Prod.snd h
    rw [play_append, ht, play, List.foldl_cons, List.foldl_cons, hd]
    rfl

end VatTerminal.Client
