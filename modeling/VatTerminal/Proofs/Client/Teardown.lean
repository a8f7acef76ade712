import VatTerminal.Proofs.Client.Moves
import VatTerminal.Proofs.Session.Acts

/-! # Teardown

When the reader stops it lets go of the line, tells the display behind all that
waits in the queue, and passes on nothing more. From then on only the user is
heard. Nothing that the user asks for is written, and once the display has been
told the terminal is reset and stays reset.
-/

namespace VatTerminal

namespace Client

def Reader.told : Reader → Bool
  | .parting | .finished => true
  | .asking | .sending _ | .awaiting | .closing | .announcing => false

theorem Reader.told_of_connected {r : Reader} (h : r.connected = true) : r.told = false := by
  cases r with
  | announcing | parting | finished => cases h
  | _ => rfl

namespace Display

variable (d : Display)

theorem escapeWide_handle (r : Request) :
    (d.handle r).1.terminal.session.escapeWide = d.terminal.session.escapeWide := by
  have hinput {r : Request} (hr : r.isInput = true) :
      (d.handle r).1.terminal.session.escapeWide = d.terminal.session.escapeWide :=
    congrArg (·.session.escapeWide) (d.forgetMouse_handle hr)
  cases r with
  | apply i ack =>
    show (d.terminal.perform (.apply i)).1.session.escapeWide = _
    rw [Terminal.session_perform]
    exact d.terminal.session.escapeWide_apply _ i
  | clear | disconnected => rfl
  | key | press | release | move | exit => exact hinput rfl

theorem handle_of_detached {r : Request} (ha : d.attached = false) (hr : r.isInput = true) :
    d.handle r = (d, {}) := by
  rw [d.handle_of_isInput hr, if_neg (by rw [ha]; nofun)]

theorem attached_of_handle {r : Request} (h : (d.handle r).1.attached = true) :
    d.attached = true ∧ r ≠ .disconnected := by
  have hinput {r : Request} (hr : r.isInput = true) (h : (d.handle r).1.attached = true) :
      d.attached = true := by
    by_contra ha
    rw [d.handle_of_detached (Bool.not_eq_true _ ▸ ha) hr] at h
    exact ha h
  cases r with
  | apply | clear => exact ⟨h, nofun⟩
  | disconnected => cases h
  | key | press | release | move | exit => exact ⟨hinput rfl h, nofun⟩

end Display

variable {c d : Client} {r : Request} {limit : Nat}

/-! ## Letting go of the line -/

/-- The reader has let go of the line, and this had been written by then. -/
structure Gone (w : List (List UInt8)) (c : Client) : Prop where
  reader : c.reader.connected = false
  closed : c.connection.line.closed = true
  written : c.connection.line.written = w

namespace Gone

variable {w : List (List UInt8)}

theorem congr (h : Gone w c) (hr : d.reader.connected = false)
    (hl : d.connection.line = c.connection.line) : Gone w d := by
  refine ⟨hr, ?_, ?_⟩
  · rw [hl]
    exact h.closed
  · rw [hl]
    exact h.written

theorem readerStep {event : Option TerminalEvent} (h : Gone w c)
    (hd : c.ReaderStep limit event d) : Gone w d := by
  have hr := h.reader
  cases hd with
  | still => exact h
  | stopped hc | asked hc | sent hc | woken hc | hungUp hc =>
    rw [hc] at hr
    cases hr
  | announced | parted => exact h.congr rfl rfl

theorem move {m : Move} (h : Gone w c) (hm : c.Moved m d) : Gone w d := by
  cases hm with
  | still => exact h
  | read hd => exact h.readerStep hd
  | served =>
    refine h.congr h.reader ?_
    rw [line_serve]
    exact Line.line_sendData_of_closed h.closed _
  | joined | stopped | drawn => exact h.congr h.reader rfl
  | line hl =>
    obtain ⟨hc, hw⟩ := hl h.closed
    exact ⟨h.reader, hc, hw.trans h.written⟩

end Gone

/-! ## Telling the display -/

structure Orderly (wide : Bool) (c : Client) : Prop where
  line : c.reader.connected = false → c.connection.line.closed = true
  told : .disconnected ∈ c.queue → c.reader.told = true
  /-- What the display has been told it knows, or it is still in the queue. -/
  heard : c.reader.told = true → c.display.attached = true → .disconnected ∈ c.queue
  /-- Only the user comes behind the reader's last request. -/
  behind : c.queue.Pairwise fun r later => r = .disconnected → later.fromUser = true
  form : c.display.terminal.session.escapeWide = wide

namespace Orderly

variable {wide : Bool}

theorem start (s : Settings) (connection : Connection) (screen : Screen) (device : KeysetDevice) :
    Orderly s.escapeWideCoordinates (start s connection screen device) where
  line := nofun
  told := nofun
  heard := nofun
  behind := .nil
  form := rfl

theorem congr (h : Orderly wide c) (hq : d.queue = c.queue) (hd : d.display = c.display)
    (ht : d.reader.told = c.reader.told)
    (hl : d.reader.connected = false → d.connection.line.closed = true) : Orderly wide d := by
  refine ⟨hl, ?_, ?_, ?_, ?_⟩
  · rw [hq, ht]
    exact h.told
  · rw [hq, ht, hd]
    exact h.heard
  · rw [hq]
    exact h.behind
  · rw [hd]
    exact h.form

/-- A request joins the queue. The reader's last one is the one that tells the display, and none of
the reader's comes after it. -/
theorem join (h : Orderly wide c) {reader : Reader}
    (hl : reader.connected = false → c.connection.line.closed = true)
    (ht : reader.told = true ↔ c.reader.told = true ∨ r = .disconnected)
    (hr : c.reader.told = true → r.fromUser = true) :
    Orderly wide (({ c with reader } : Client).enqueue r) := by
  refine ⟨hl, fun hm => ht.mpr ?_, fun hn ha => ?_, ?_, h.form⟩
  · rcases List.mem_append.mp hm with hm | hm
    · exact .inl (h.told hm)
    · exact .inr (List.mem_singleton.mp hm).symm
  · rcases ht.mp hn with hc | rfl
    · exact List.mem_append_left _ (h.heard hc ha)
    · exact List.mem_append_right _ (List.mem_singleton_self _)
  · refine List.pairwise_append.mpr ⟨h.behind, List.pairwise_singleton _ _, ?_⟩
    rintro r' hm later hlater rfl
    rw [List.mem_singleton.mp hlater]
    exact hr (h.told hm)

theorem serve {rest : List Request} (h : Orderly wide c) (hq : c.queue = r :: rest) :
    Orderly wide (({ c with queue := rest } : Client).serve r) := by
  have hbehind := h.behind
  rw [hq] at hbehind
  refine ⟨fun hr => ?_, fun hm => ?_, fun ht ha => ?_, (List.pairwise_cons.mp hbehind).2, ?_⟩
  · rw [line_serve]
    exact (Line.sendData_kept _ _).1.trans (h.line hr)
  · exact h.told (hq ▸ List.mem_cons_of_mem r hm)
  · obtain ⟨hc, hne⟩ := c.display.attached_of_handle ha
    have hm : .disconnected ∈ r :: rest := hq ▸ h.heard ht hc
    exact (List.mem_cons.mp hm).resolve_left hne.symm
  · exact (c.display.escapeWide_handle r).trans h.form

theorem reader {event : Option TerminalEvent} (h : Orderly wide c)
    (hd : c.ReaderStep limit event d) : Orderly wide d := by
  cases hd with
  | still => exact h
  | stopped hr => exact h.congr rfl rfl (by rw [hr]; rfl) nofun
  | asked hr _ _ hc _ =>
    refine h.congr rfl rfl ?_ fun hn => Bool.noConfusion (hc.symm.trans hn)
    rw [hr]
    exact Reader.told_of_connected hc
  | @sent i hr =>
    have hc : Reader.connected (if i.mutatesScreen then .awaiting else .asking) = true := by
      split <;> rfl
    have hno : c.reader.told = false := by rw [hr]; rfl
    refine h.join (fun hn => Bool.noConfusion (hc.symm.trans hn)) ?_ fun ht => ?_
    · rw [Reader.told_of_connected hc, hno]
      simp
    · exact Bool.noConfusion (hno.symm.trans ht)
  | woken hr => exact h.congr rfl rfl (by rw [hr]; rfl) nofun
  | hungUp hr =>
    exact h.congr rfl rfl (by rw [hr]; rfl) fun _ => c.connection.line.closed_close
  | announced hr =>
    refine h.join (fun _ => h.line (by rw [hr]; rfl)) ⟨fun _ => .inr rfl, fun _ => rfl⟩ ?_
    rw [hr]
    nofun
  | parted hr => exact h.congr rfl rfl (by rw [hr]; rfl) fun _ => h.line (by rw [hr]; rfl)

theorem move {m : Move} (h : Orderly wide c) (hm : c.Moved m d) : Orderly wide d := by
  cases hm with
  | still => exact h
  | read hd => exact h.reader hd
  | served hq => exact h.serve hq
  | @joined r hr =>
    have hne : r ≠ .disconnected := by
      rintro rfl
      cases hr
    exact h.join h.line ⟨.inl, fun ht => ht.resolve_right hne⟩ fun _ => hr
  | stopped => exact h.congr rfl rfl rfl h.line
  | drawn => exact ⟨h.line, h.told, h.heard, h.behind, h.form⟩
  | line hl => exact h.congr rfl rfl rfl fun hr => (hl (h.line hr)).1

theorem gone (h : Orderly wide c) (hr : c.reader.connected = false) :
    Gone c.connection.line.written c :=
  ⟨hr, h.line hr, rfl⟩

end Orderly

/-! ## After the display has been told -/

/-- The display has been told, and its session is as it was at first on a screen of the size. Only
the user is still heard. -/
structure Detached (wide : Bool) (size : Size) (c : Client) : Prop where
  told : c.reader.told = true
  attached : c.display.attached = false
  queue : ∀ r ∈ c.queue, r.fromUser = true
  session : c.display.terminal.session = .initial size wide

namespace Detached

variable {wide : Bool} {size : Size}

theorem congr (h : Detached wide size c) (hr : d.reader.told = true) (hq : d.queue = c.queue)
    (ha : d.display.attached = c.display.attached)
    (hs : d.display.terminal.session = c.display.terminal.session) : Detached wide size d :=
  ⟨hr, ha.trans h.attached, hq ▸ h.queue, hs.trans h.session⟩

theorem reader {event : Option TerminalEvent} (h : Detached wide size c)
    (hd : c.ReaderStep limit event d) : Detached wide size d ∧ d.display = c.display := by
  have hr := h.told
  cases hd with
  | still => exact ⟨h, rfl⟩
  | stopped hc | asked hc | sent hc | woken hc | hungUp hc | announced hc =>
    rw [hc] at hr
    cases hr
  | parted => exact ⟨h.congr rfl rfl rfl rfl, rfl⟩

/-- What the user does is dropped, and clearing the screen resets again what is reset. -/
theorem serve (h : Detached wide size c) (hr : r.fromUser = true) :
    ∃ size', Detached wide size' (c.serve r) ∧
      (size = c.display.terminal.screen.size →
        size' = (c.serve r).display.terminal.screen.size) := by
  rcases Request.isInput_or_clear hr with hi | rfl
  · have hd : (c.serve r).display = c.display :=
      congrArg Prod.fst (c.display.handle_of_detached h.attached hi)
    refine ⟨size, h.congr h.told rfl (by rw [hd]) (by rw [hd]), fun hs => ?_⟩
    rw [hd]
    exact hs
  · refine ⟨c.display.terminal.screen.size, ⟨h.told, h.attached, h.queue, ?_⟩, fun _ => rfl⟩
    show Session.initial _ c.display.terminal.session.escapeWide = _
    rw [h.session]
    rfl

theorem move {m : Move} (h : Detached wide size c) (hm : c.Moved m d) :
    ∃ size', Detached wide size' d ∧
      (m.KeepsSize → size = c.display.terminal.screen.size →
        size' = d.display.terminal.screen.size) := by
  cases hm with
  | still => exact ⟨size, h, fun _ => id⟩
  | read hd =>
    obtain ⟨hd, hdisplay⟩ := h.reader hd
    refine ⟨size, hd, fun _ hs => ?_⟩
    rw [hdisplay]
    exact hs
  | @served r rest hq =>
    obtain ⟨hr, hrest⟩ := List.forall_mem_cons.mp (hq ▸ h.queue)
    have hc : Detached wide size { c with queue := rest } :=
      ⟨h.told, h.attached, hrest, h.session⟩
    obtain ⟨size', hd, hsize⟩ := hc.serve hr
    exact ⟨size', hd, fun _ => hsize⟩
  | @joined r hr =>
    refine ⟨size, ⟨h.told, h.attached, fun r' hm => ?_, h.session⟩, fun _ => id⟩
    rcases List.mem_append.mp hm with hm | hm
    · exact h.queue r' hm
    · rw [List.mem_singleton.mp hm]
      exact hr
  | stopped | line => exact ⟨size, h.congr h.told rfl rfl rfl, fun _ => id⟩
  | drawn => exact ⟨size, h.congr h.told rfl rfl rfl, fun hk hs => hs.trans (hk _).symm⟩

theorem play (h : Detached wide size c) (moves : List Move) :
    ∃ size', Detached wide size' (c.play moves) ∧
      ((∀ m ∈ moves, m.KeepsSize) → size = c.display.terminal.screen.size →
        size' = (c.play moves).display.terminal.screen.size) := by
  refine List.foldlRecOn (motive := fun d : Client => ∃ size', Detached wide size' d ∧
    ((∀ m ∈ moves, m.KeepsSize) → size = c.display.terminal.screen.size →
      size' = d.display.terminal.screen.size)) moves _ ⟨size, h, fun _ => id⟩ ?_
  rintro d ⟨size₁, hd₁, hs₁⟩ m hm
  obtain ⟨size₂, hd₂, hs₂⟩ := hd₁.move (d.move_spec m)
  exact ⟨size₂, hd₂, fun hk hs => hs₂ (hk m hm) (hs₁ hk hs)⟩

end Detached

theorem Orderly.detached {wide : Bool} {rest : List Request} (h : Orderly wide c)
    (hq : c.queue = .disconnected :: rest) :
    Detached wide c.display.terminal.screen.size c.displayStep.2 := by
  have hbehind := h.behind
  rw [hq] at hbehind
  have hstep : c.displayStep.2 = ({ c with queue := rest } : Client).serve .disconnected := by
    rw [displayStep, hq]
  rw [hstep]
  refine ⟨h.told (hq ▸ List.mem_cons_self), rfl, fun r hm => ?_, ?_⟩
  · exact (List.pairwise_cons.mp hbehind).1 r hm rfl
  · show Session.initial _ c.display.terminal.session.escapeWide = _
    rw [h.form]

/-- However those who share a client take their steps, and whatever the host sends: once the reader
has let go of the line nothing is written any more. Once the display has served the reader's last
request its session is as at first, and stays so: the form of large numbers is kept, and the size is
that of the screen, as long as nobody draws a screen of another. What is served from then on comes
from the user, and of this keys and mouse actions change nothing. -/
theorem play_stays_reset (s : Settings) (connection : Connection) (screen : Screen)
    (device : KeysetDevice) (moves : List Move) :
    let c := (start s connection screen device).play moves
    (c.reader.connected = false → c.connection.line.closed = true ∧
        ∀ more, (c.play more).connection.line.written = c.connection.line.written) ∧
      ∀ rest, c.queue = .disconnected :: rest → ∀ more,
        let d := c.displayStep.2.play more
        (∃ size, d.display.terminal.session = .initial size s.escapeWideCoordinates ∧
            ((∀ m ∈ more, m.KeepsSize) → size = d.display.terminal.screen.size)) ∧
          (∀ r ∈ d.queue, r.fromUser = true) ∧
          ∀ r, r.isInput = true → (d.serve r).display = d.display := by
  intro c
  have hc : Orderly s.escapeWideCoordinates c :=
    play_induction (Orderly.start s connection screen device) Orderly.move moves
  refine ⟨fun hr => ⟨hc.line hr, fun more => ?_⟩, ?_⟩
  · exact (play_induction (hc.gone hr) Gone.move more).written
  intro rest hq more d
  obtain ⟨size, hd, hsize⟩ := (hc.detached hq).play more
  have hscreen : c.displayStep.2.display.terminal.screen = c.display.terminal.screen := by
    rw [displayStep, hq]
    rfl
  refine ⟨⟨size, hd.session, fun hk => hsize hk (by rw [hscreen])⟩, hd.queue, fun r hr => ?_⟩
  exact congrArg Prod.fst (d.display.handle_of_detached hd.attached hr)

/-- A user who goes on while the reader lets go of the line. The host has asked for the extents of
the screen and has gone. -/
def belated : List Move :=
  [.outside { inbound := [.bytes [27, 45]], ended := true }, .reader 0, .request (.key 'a') rfl,
    .reader 0, .reader 0, .reader 0, .request (.press .left {}) rfl, .reader 0,
    .request (.key 'b') rfl, .request .clear rfl]

theorem play_stays_reset_belated :
    let c := Course.small.client.play belated
    let served := c.play [.display, .display, .display]
    let d := served.displayStep.2.play
      [.display, .request (.press .right {}) rfl, .display, .display]
    c.reader.connected = false ∧ served.connection.line.written = c.connection.line.written ∧
      served.journal.warnings =
        [.outboundDropped 1 .notConnected, .outboundDropped 7 .notConnected] ∧
      served.queue = [.disconnected, .key 'b', .clear] ∧ d.queue = [] ∧
      d.display.terminal.session = .initial { columns := 2, rows := 1 } false := by
  intro c served d
  have hr : c.reader.connected = false := by decide +kernel
  have hw : served.journal.warnings =
      [.outboundDropped 1 .notConnected, .outboundDropped 7 .notConnected] := by decide +kernel
  have hq : served.queue = [.disconnected, .key 'b', .clear] := by decide +kernel
  have hsize : d.display.terminal.screen.size = { columns := 2, rows := 1 } := by decide +kernel
  have hd : d.queue = [] := by decide +kernel
  obtain ⟨hgone, -⟩ := play_stays_reset {} { negotiationTimeout := 5 }
    (.blank { columns := 2, rows := 1 }) .none belated
  obtain ⟨-, hreset⟩ := play_stays_reset {} { negotiationTimeout := 5 }
    (.blank { columns := 2, rows := 1 }) .none (belated ++ [.display, .display, .display])
  obtain ⟨⟨size, hs, hkeep⟩, -⟩ := hreset _ hq
    [.display, .request (.press .right {}) rfl, .display, .display]
  have hfit : size = d.display.terminal.screen.size := hkeep (by simp [Move.KeepsSize])
  rw [hfit, hsize] at hs
  exact ⟨hr, (hgone hr).2 _, hw, hq, hd, hs⟩

/-- Once the observer has been told that the line is gone, the line has been let go of, and the
display knows or is told by a request in the queue, behind which only the user waits. -/
theorem play_parted (s : Settings) (connection : Connection) (screen : Screen)
    (device : KeysetDevice) (moves : List Move) :
    let c := (start s connection screen device).play moves
    c.reader = .finished → c.connection.line.closed = true ∧
      (c.display.attached = false ∨ ∃ before after,
        c.queue = before ++ .disconnected :: after ∧ ∀ r ∈ after, r.fromUser = true) := by
  intro c hr
  have hc : Orderly s.escapeWideCoordinates c :=
    play_induction (Orderly.start s connection screen device) Orderly.move moves
  refine ⟨hc.line (by rw [hr]; rfl), ?_⟩
  by_cases ha : c.display.attached = true
  · obtain ⟨before, after, hq⟩ := List.append_of_mem (hc.heard (by rw [hr]; rfl) ha)
    have hbehind := hc.behind
    rw [hq] at hbehind
    have hlast := (List.pairwise_append.mp hbehind).2.1
    exact .inr ⟨before, after, hq, fun r hm => (List.pairwise_cons.mp hlast).1 r hm rfl⟩
  · exact .inl (Bool.not_eq_true _ ▸ ha)

/-- A reader that is stopped behind a press of the user, and lets go before the display is served. -/
def pressed : List Move :=
  [.stop, .request (.press .left {}) rfl, .reader 0, .reader 0, .reader 0, .reader 0]

theorem play_parted_pressed :
    let c := Course.small.client.play pressed
    c.reader = .finished ∧ c.connection.line.closed = true ∧
      (c.display.attached = false ∨ ∃ before after,
        c.queue = before ++ .disconnected :: after ∧ ∀ r ∈ after, r.fromUser = true) := by
  intro c
  have hr : c.reader = .finished := by decide +kernel
  obtain ⟨hclosed, htold⟩ := play_parted {} { negotiationTimeout := 5 }
    (.blank { columns := 2, rows := 1 }) .none pressed hr
  exact ⟨hr, hclosed, htold⟩

/-- The observer may be told while the display still takes what the user does. -/
theorem parted_while_attached :
    let c := Course.small.client.play pressed
    .disconnected ∈ c.journal.notices ∧ c.display.attached = true ∧
      c.queue = [.press .left {}, .disconnected] ∧
      c.displayStep.2.display.terminal.session.mouse.mask = Button.left.bit := by
  decide +kernel

end Client

end VatTerminal
