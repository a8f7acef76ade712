import VatTerminal.Proofs.Client.Reads

/-! # Lines without faults

On a line that takes every write and holds no fault to be read, no call of a
connection meets one, and the line stays as it is in this respect.
-/

namespace VatTerminal.Client

def Reading.fault? : Reading → Option Fault
  | .failed f => some f
  | .bytes _ | .ended | .waiting => none

namespace Line

structure Faultless (l : Line) : Prop where
  writeFault : l.writeFault = none
  closed : l.closed = false
  inbound : ∀ f, Arrival.fault f ∉ l.inbound

theorem readQueue_faultless (limit : Option Nat) (ended : Bool) (now : Nat) {q : List Arrival}
    (hq : ∀ f, Arrival.fault f ∉ q) :
    (readQueue limit ended now q).1.fault? = none ∧
      ∀ f, Arrival.fault f ∉ (readQueue limit ended now q).2.2 := by
  have tail {a : Arrival} {rest : List Arrival} (h : ∀ f, Arrival.fault f ∉ a :: rest) (f : Fault) :
      Arrival.fault f ∉ rest := fun hm => h f (List.mem_cons_of_mem a hm)
  fun_induction readQueue limit ended now q with
  | case1 | case2 => exact ⟨rfl, hq⟩
  | case3 now rest ih => exact ih (tail hq)
  | case4 now bs rest _ => exact ⟨rfl, tail hq⟩
  | case5 now f rest => exact absurd List.mem_cons_self (hq f)
  | case6 now ms rest now' h ih => exact ih (tail hq)
  | case7 now ms rest h =>
    refine ⟨rfl, ?_⟩
    rintro f (_ | ⟨_, hm⟩)
    exact tail hq f hm
  | case8 now moment rest now' h ih => exact ih (tail hq)
  | case9 now moment rest h => exact ⟨rfl, hq⟩

variable {l : Line}

theorem Faultless.read (h : l.Faultless) (limit : Option Nat) :
    (l.read limit).1.fault? = none ∧ (l.read limit).2.Faultless := by
  obtain ⟨hf, hq⟩ := readQueue_faultless limit l.ended l.now h.inbound
  exact ⟨hf, h.writeFault, h.closed, hq⟩

theorem Faultless.writeFrame (h : l.Faultless) (frame : List UInt8) :
    (l.writeFrame frame).1 = .ok () ∧ (l.writeFrame frame).2.Faultless := by
  unfold Line.writeFrame
  rw [h.writeFault]
  exact ⟨rfl, rfl, h.closed, h.inbound⟩

theorem Faultless.sendRaw (h : l.Faultless) (bytes : List UInt8) :
    (l.sendRaw bytes).1 = .ok () ∧ (l.sendRaw bytes).2.Faultless := by
  unfold Line.sendRaw
  split
  · exact ⟨rfl, h⟩
  · rw [h.closed]
    exact h.writeFrame bytes

theorem Faultless.sendData (h : l.Faultless) (bytes : List UInt8) :
    (l.sendData bytes).1 = .ok () ∧ (l.sendData bytes).2.Faultless := by
  have hempty : ({ l with frame := [], closed := false } : Line).Faultless :=
    ⟨h.writeFault, rfl, h.inbound⟩
  unfold Line.sendData
  split
  · exact ⟨rfl, h⟩
  · simp only [h.closed, Bool.false_eq_true, if_false]
    exact hempty.writeFrame _

end Line

namespace Connection

variable {c d : Connection} {name : String} {side : Telnet.Side} {deadline : Nat}
  {limit : Option Nat}

theorem flushReplies_faultless (h : c.line.Faultless) :
    c.flushReplies.1 = .ok () ∧ c.flushReplies.2.line.Faultless :=
  h.sendRaw c.stream.takeReplies.1

theorem faultless_of_flush {r : Except Error Unit} (h : c.line.Faultless)
    (hd : c.flushReplies = (r, d)) : r = .ok () ∧ d.line.Faultless := by
  have hf := flushReplies_faultless h
  rwa [hd] at hf

theorem faultless_of_decodeBuffered {r : Except Error Unit} (h : c.line.Faultless)
    (hd : c.decodeBuffered = (r, d)) : d.line.Faultless :=
  (faultless_of_flush (show c.drained.line.Faultless from h) hd).2

theorem faultless_of_fill {r : Reading} (h : c.line.Faultless) (hf : c.fill limit = (r, d)) :
    r.fault? = none ∧ d.line.Faultless := by
  have hr := h.read limit
  rwa [(read_of_fill hf).1] at hr

theorem SettleTurn.faultless {r : Option (Except Error Bool)}
    (ht : SettleTurn c name side deadline r d) (h : c.line.Faultless) : d.line.Faultless := by
  cases ht with
  | unsent hd | enabled hd _ | disabled hd _ => exact faultless_of_decodeBuffered h hd
  | read hd _ hf | fault hd _ hf | waiting hd _ hf =>
    exact (faultless_of_fill (faultless_of_decodeBuffered h hd) hf).2
  | met hd _ hf =>
    have hl := (faultless_of_fill (faultless_of_decodeBuffered h hd) hf).2
    exact hl

theorem awaitSettled_faultless (h : c.line.Faultless) :
    (c.awaitSettled name side deadline).2.line.Faultless := by
  refine c.awaitSettled_induction (R := fun c x => c.line.Faultless → x.2.line.Faultless) ?_ ?_ h
  · intro c r d ht h
    exact ht.faultless h
  · intro c d x ht ih h
    exact ih (ht.faultless h)

theorem negotiate_faultless (h : c.line.Faultless) (name : String) (side : Telnet.Side) :
    (c.negotiate name side).2.line.Faultless := by
  unfold negotiate
  split
  · exact h
  · split
    · exact h
    · next telnet code ht =>
      have hl : (c.setTelnet telnet).line.Faultless := h
      split
      · next hd => exact (faultless_of_flush hl hd).2
      · next hd => exact awaitSettled_faultless (faultless_of_flush hl hd).2

theorem negotiateOnConnect_faultless (h : c.line.Faultless) :
    c.negotiateOnConnect.2.line.Faultless := by
  simp only [negotiateOnConnect]
  split
  · exact h
  · have hl : (c.setTelnet (requestAll c.stream.telnet c.options.entries).2).line.Faultless := h
    exact (flushReplies_faultless hl).2

/-- A turn without an answer leaves something to ask for. Only what is closed fails. -/
theorem Turn.faultless {r : Option Next} (ht : Turn c limit r d) (h : c.line.Faultless) :
    d.line.Faultless ∧ (r = none → d.phase ≠ .closed) ∧
      (c.phase ≠ .closed → r.bind Next.error? = none) := by
  cases ht with
  | kept hp => exact ⟨h, nofun, fun _ => rfl⟩
  | closed hp hc => exact ⟨h, nofun, fun hn => absurd hc hn⟩
  | ended hp hc => exact ⟨h, nofun, fun _ => rfl⟩
  | unsent hp ho hd => exact nomatch (faultless_of_flush (c := c.decode.2) h hd).1
  | decoded hp ho hd he =>
    exact ⟨(faultless_of_flush (c := c.decode.2) h hd).2, nofun, fun _ => rfl⟩
  | read hp ho hd he hf =>
    have hl := (faultless_of_flush (c := c.decode.2) h hd).2
    refine ⟨(faultless_of_fill hl hf).2, fun _ => ?_, fun _ => rfl⟩
    rw [phase_of_fill hf, (reads_of_flush hd).2, phase_decode, ho]
    nofun
  | met hp ho hd he hf =>
    have hl := (faultless_of_flush (c := c.decode.2) h hd).2
    have hm := (faultless_of_fill hl hf).2
    exact ⟨hm, fun _ => nofun, fun _ => rfl⟩
  | fault hp ho hd he hf =>
    have hl := (faultless_of_flush (c := c.decode.2) h hd).2
    exact nomatch (faultless_of_fill hl hf).1
  | waiting hp ho hd he hf =>
    have hl := (faultless_of_flush (c := c.decode.2) h hd).2
    exact ⟨(faultless_of_fill hl hf).2, nofun, fun _ => rfl⟩

theorem next_faultless (h : c.line.Faultless) (limit : Option Nat) :
    (c.next limit).2.line.Faultless ∧ (c.phase ≠ .closed → (c.next limit).1.error? = none) := by
  refine c.next_induction (R := fun c x => c.line.Faultless →
    x.2.line.Faultless ∧ (c.phase ≠ .closed → x.1.error? = none)) ?_ ?_ h
  · intro c r d ht h
    obtain ⟨hl, -, hf⟩ := ht.faultless h
    exact ⟨hl, hf⟩
  · intro c d x ht ih h
    obtain ⟨hl, hn, -⟩ := ht.faultless h
    obtain ⟨hl', hf⟩ := ih hl
    exact ⟨hl', fun _ => hf (hn rfl)⟩

end Connection

end VatTerminal.Client
