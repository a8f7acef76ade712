import VatTerminal.Proofs.Client.Faultless
import VatTerminal.Proofs.Client.Wishes
import VatTerminal.Proofs.Negotiation.Settled

/-! # Waiting for a half to settle

A negotiation reads as long as its half is not settled, however the bytes that
settle it are cut, and gives up where the stream ends or the time is up.
-/

namespace VatTerminal

theorem Stream.settled_drain {s : Stream} {name : String} {side : Telnet.Side}
    (hm : s.telnet.options.modeOf name side ≠ .unstable) (bytes : List UInt8) :
    (s.drain bytes).1.telnet.options.modeOf name side ≠ .unstable := by
  induction bytes generalizing s with
  | nil => exact hm
  | cons b bs ih =>
    have hb : (s.step b).1.telnet.options.modeOf name side ≠ .unstable := by
      rw [telnet_step]
      exact Telnet.Endpoint.settled_step hm b
    exact ih hb

namespace Client

namespace Line

/-- So many readings one after the other, each up to the limit. -/
def readMany (l : Line) (limit : Option Nat) : Nat → List Reading × Line
  | 0 => ([], l)
  | n + 1 =>
    let (r, l) := l.read limit
    let (rs, l) := l.readMany limit n
    (r :: rs, l)

def brings (l : Line) (limit : Option Nat) (n : Nat) : List UInt8 :=
  (l.readMany limit n).1.flatMap Reading.payload

/-- The line but for what has been written to it. -/
def unwritten (l : Line) : Line := { l with written := [] }

variable (l : Line) {limit now : Nat}

theorem unwritten_sendRaw (bytes : List UInt8) :
    (l.sendRaw bytes).2.unwritten = l.unwritten := by
  unfold sendRaw writeFrame
  repeat' split
  all_goals rfl

theorem readMany_unwritten (limit : Option Nat) (n : Nat) :
    l.unwritten.readMany limit n = ((l.readMany limit n).1, (l.readMany limit n).2.unwritten) := by
  induction n generalizing l with
  | zero => rfl
  | succ n ih =>
    have h := ih (l.read limit).2
    exact congrArg (fun x => ((l.read limit).1 :: x.1, x.2)) h

theorem waitFor?_le {moment now' : Nat} (h : now ≤ limit)
    (hw : waitFor? now moment (some limit) = some now') : now' ≤ limit := by
  rw [waitFor?, Nat.max_eq_right h] at hw
  split at hw
  · next hm =>
    cases hw
    exact Nat.max_le.mpr ⟨h, hm⟩
  · cases hw

/-- A read that is given up by a moment does not pass it, and one that brings nothing lasts until
then. -/
theorem readQueue_by (ended : Bool) (q : List Arrival) (h : now ≤ limit) :
    (readQueue (some limit) ended now q).2.1 ≤ limit ∧
      ((readQueue (some limit) ended now q).1 = .waiting →
        (readQueue (some limit) ended now q).2.1 = limit) := by
  have given {now : Nat} (h : now ≤ limit) : giveUp now (some limit) = limit := Nat.max_eq_right h
  fun_induction readQueue (some limit) ended now q with
  | case1 now he => exact ⟨h, by rintro ⟨⟩⟩
  | case2 now he => exact ⟨Nat.le_of_eq (given h), fun _ => given h⟩
  | case3 now rest ih => exact ih h
  | case4 now bs rest _ => exact ⟨h, by rintro ⟨⟩⟩
  | case5 now f rest => exact ⟨h, by rintro ⟨⟩⟩
  | case6 now ms rest now' hw ih => exact ih (waitFor?_le h hw)
  | case7 now ms rest hw => exact ⟨Nat.le_of_eq (given h), fun _ => given h⟩
  | case8 now moment rest now' hw ih => exact ih (waitFor?_le h hw)
  | case9 now moment rest hw => exact ⟨Nat.le_of_eq (given h), fun _ => given h⟩

theorem read_by {r : Reading} {m : Line} (h : l.now ≤ limit) (hr : l.read (some limit) = (r, m)) :
    m.now ≤ limit ∧ (r = .waiting → m.now = limit) := by
  have hq := readQueue_by l.ended l.inbound h
  rw [read] at hr
  cases hr
  exact hq

end Line

namespace Connection

variable {c d : Connection} {name : String} {side : Telnet.Side} {deadline n : Nat}

/-- The bytes that are known once the line has been read so many times. -/
def known (c : Connection) (deadline n : Nat) : List UInt8 :=
  c.buffer ++ c.line.brings (some deadline) n

/-- How a half looks once the stream has been told bytes. -/
def modeAfter (c : Connection) (name : String) (side : Telnet.Side) (bytes : List UInt8) :
    Telnet.Mode :=
  { c with stream := (c.stream.drain bytes).1 }.modeOf name side

/-- What a call comes to that reads the line so many times and answers whether a half is on. -/
structure Pumped (c : Connection) (name : String) (side : Telnet.Side) (deadline n : Nat)
    (on : Bool) (d : Connection) : Prop where
  line : d.line.unwritten = (c.line.readMany (some deadline) n).2.unwritten
  /-- Before each of the readings the half was not settled. -/
  unsettled : ∀ k < n, c.modeAfter name side (c.known deadline k) = .unstable
  mode : d.modeOf name side = c.modeAfter name side (c.known deadline n)
  answer : on = true ↔ d.modeOf name side = .enabled
  refusal : on = false → d.modeOf name side = .disabled ∨
    (d.phase = .ended ∧ (c.line.readMany (some deadline) n).1.getLast? = some .ended) ∨
    (d.line.now = deadline ∧ d.modeOf name side = .unstable)
  by_deadline : d.line.now ≤ deadline

section Flushed

/-- Answers have been written, and nothing else has happened. -/
structure Flushed (c d : Connection) : Prop where
  buffer : d.buffer = c.buffer
  stream : d.stream = c.stream.takeReplies.2
  line : d.line.unwritten = c.line.unwritten
  faultless : d.line.Faultless

theorem flushed_of_flush {r : Except Error Unit} (h : c.line.Faultless)
    (hd : c.flushReplies = (r, d)) : r = .ok () ∧ Flushed c d := by
  obtain ⟨hr, hl⟩ := faultless_of_flush h hd
  refine ⟨hr, ?_⟩
  obtain rfl : c.flushReplies.2 = d := congrArg Prod.snd hd
  exact ⟨rfl, rfl, Line.unwritten_sendRaw _ _, hl⟩

namespace Flushed

theorem now (h : Flushed c d) : d.line.now = c.line.now := congrArg (·.now) h.line

theorem modeAfter (h : Flushed c d) (name : String) (side : Telnet.Side) (bytes : List UInt8) :
    d.modeAfter name side bytes = c.modeAfter name side bytes := by
  have howing := c.stream.takeReplies.2.drain_owing c.stream.takeReplies.1 bytes
  rw [c.stream.owing_takeReplies] at howing
  rw [Connection.modeAfter, Connection.modeAfter, h.stream, howing]
  rfl

theorem readMany (h : Flushed c d) (limit : Option Nat) (n : Nat) :
    (d.line.readMany limit n).1 = (c.line.readMany limit n).1 ∧
      (d.line.readMany limit n).2.unwritten = (c.line.readMany limit n).2.unwritten := by
  have hd := d.line.readMany_unwritten limit n
  have hc := c.line.readMany_unwritten limit n
  rw [h.line, hc, Prod.mk.injEq] at hd
  exact ⟨hd.1.symm, hd.2.symm⟩

theorem known (h : Flushed c d) (deadline n : Nat) : d.known deadline n = c.known deadline n := by
  rw [Connection.known, Connection.known, Line.brings, (h.readMany _ n).1, h.buffer]
  rfl

theorem pumped {e : Connection} {on : Bool} (h : Flushed c d)
    (hp : d.Pumped name side deadline n on e) : c.Pumped name side deadline n on e where
  line := hp.line.trans (h.readMany _ n).2
  unsettled k hk := by
    rw [← h.known, ← h.modeAfter]
    exact hp.unsettled k hk
  mode := by
    rw [← h.known, ← h.modeAfter]
    exact hp.mode
  answer := hp.answer
  refusal := by
    rw [← (h.readMany _ n).1]
    exact hp.refusal
  by_deadline := hp.by_deadline

end Flushed

end Flushed

section Drained

theorem flushed_of_decodeBuffered {r : Except Error Unit} (h : c.line.Faultless)
    (hd : c.decodeBuffered = (r, d)) : r = .ok () ∧ Flushed c.drained d :=
  flushed_of_flush (show c.drained.line.Faultless from h) hd

theorem modeAfter_drained (bytes : List UInt8) :
    c.drained.modeAfter name side bytes = c.modeAfter name side (c.buffer ++ bytes) := by
  rw [modeAfter, modeAfter, Stream.drain_append]
  rfl

theorem Flushed.pumped_of_drained {e : Connection} {on : Bool} (hd : Flushed c.drained d)
    (hp : d.Pumped name side deadline n on e) : c.Pumped name side deadline n on e := by
  have h := hd.pumped hp
  have hmode (k : Nat) : c.drained.modeAfter name side (c.drained.known deadline k) =
      c.modeAfter name side (c.known deadline k) := modeAfter_drained _
  exact ⟨h.line, fun k hk => (hmode k).symm.trans (h.unsettled k hk), h.mode.trans (hmode n),
    h.answer, h.refusal, h.by_deadline⟩

end Drained

section Fill

variable {f : Connection} {r : Reading}

variable (hf : d.fill (some deadline) = (r, f))

include hf

theorem readMany_succ (n : Nat) : d.line.readMany (some deadline) (n + 1) =
    (r :: (f.line.readMany (some deadline) n).1, (f.line.readMany (some deadline) n).2) := by
  rw [Line.readMany, (read_of_fill hf).1]

theorem modeAfter_known_succ (hb : d.buffer = []) (n : Nat) :
    d.modeAfter name side (d.known deadline (n + 1)) =
      f.modeAfter name side (f.known deadline n) := by
  obtain ⟨-, he⟩ := read_of_fill hf
  have hknown : d.known deadline (n + 1) = f.known deadline n := by
    rw [known, known, Line.brings, readMany_succ hf, List.flatMap_cons, hb, he, hb]
    rfl
  have hstream : f.stream = d.stream := by rw [he]
  rw [hknown, modeAfter, modeAfter, hstream]
  rfl

end Fill

section Pump

theorem pumped_settled {on : Bool} (hb : d.buffer = []) (ht : d.line.now ≤ deadline)
    (hm : d.modeOf name side = if on then .enabled else .disabled) :
    d.Pumped name side deadline 0 on d where
  line := rfl
  unsettled k hk := nomatch hk
  mode := by
    rw [known, hb]
    rfl
  answer := by cases on <;> simp [hm]
  refusal hon := by
    subst hon
    exact .inl hm
  by_deadline := ht

theorem pumped_gaveUp {e f : Connection} {r : Reading} (hb : d.buffer = [])
    (ht : d.line.now ≤ deadline) (hm : d.modeOf name side = .unstable)
    (hf : d.fill (some deadline) = (r, f)) (hr : r.payload = []) (hl : e.line = f.line)
    (hs : e.modeOf name side = f.modeOf name side)
    (he : r = .waiting ∨ r = .ended ∧ e.phase = .ended) :
    d.Pumped name side deadline 1 false e := by
  obtain ⟨hread, hfd⟩ := read_of_fill hf
  obtain ⟨hnow, hwait⟩ := Line.read_by _ ht hread
  have hfb : f.buffer = [] := by rw [hfd, hb, hr]; rfl
  have hfm : f.modeOf name side = .unstable := by
    rw [hfd]
    exact hm
  have hmany := readMany_succ hf 0
  refine ⟨?_, ?_, ?_, ?_, ?_, ?_⟩
  · rw [hmany, hl]
    rfl
  · intro k hk
    obtain rfl : k = 0 := by omega
    rw [known, hb]
    exact hm
  · rw [modeAfter_known_succ hf hb, known, hfb]
    exact hs
  · rw [hs, hfm]
    decide
  · intro _
    rcases he with rfl | ⟨rfl, hp⟩
    · exact .inr (.inr ⟨(congrArg (·.now) hl).trans (hwait rfl), hs.trans hfm⟩)
    · refine .inr (.inl ⟨hp, ?_⟩)
      rw [hmany]
      rfl
  · rw [hl]
    exact hnow

theorem pumped_goOn {e f : Connection} {r : Reading} {on : Bool} (hb : d.buffer = [])
    (hm : d.modeOf name side = .unstable) (hf : d.fill (some deadline) = (r, f))
    (h : f.Pumped name side deadline n on e) : d.Pumped name side deadline (n + 1) on e := by
  have hmany := readMany_succ hf n
  refine ⟨?_, ?_, ?_, h.answer, ?_, h.by_deadline⟩
  · rw [hmany]
    exact h.line
  · intro k hk
    cases k with
    | zero =>
      rw [known, hb]
      exact hm
    | succ k =>
      rw [modeAfter_known_succ hf hb]
      exact h.unsettled k (Nat.lt_of_succ_lt_succ hk)
  · rw [modeAfter_known_succ hf hb]
    exact h.mode
  · intro hon
    refine (h.refusal hon).imp_right (Or.imp_left fun ⟨hp, hlast⟩ => ⟨hp, ?_⟩)
    rw [hmany, List.getLast?_cons, hlast]
    rfl

theorem modeOf_endOfStream (hb : c.buffer = []) :
    c.endOfStream.modeOf name side = c.modeOf name side := by
  rw [endOfStream, hb]
  rfl

theorem SettleTurn.pumped {r : Except Error Bool} (ht : SettleTurn c name side deadline (some r) d)
    (hl : c.line.Faultless) (hn : c.line.now ≤ deadline) :
    ∃ n on, r = .ok on ∧ c.Pumped name side deadline n on d := by
  cases ht with
  | unsent hd => exact nomatch (flushed_of_decodeBuffered hl hd).1
  | enabled hd hm =>
    have hf := (flushed_of_decodeBuffered hl hd).2
    exact ⟨0, true, rfl, hf.pumped_of_drained (pumped_settled hf.buffer (hf.now ▸ hn) hm)⟩
  | disabled hd hm =>
    have hf := (flushed_of_decodeBuffered hl hd).2
    exact ⟨0, false, rfl, hf.pumped_of_drained (pumped_settled hf.buffer (hf.now ▸ hn) hm)⟩
  | @met d f hd hm hf =>
    have hd := (flushed_of_decodeBuffered hl hd).2
    have hb : f.buffer = [] := by
      rw [(read_of_fill hf).2]
      exact (List.append_nil _).trans hd.buffer
    have hp := pumped_gaveUp (e := f.endOfStream) hd.buffer (hd.now ▸ hn) hm hf rfl rfl
      (modeOf_endOfStream hb) (.inr ⟨rfl, rfl⟩)
    exact ⟨1, false, rfl, hd.pumped_of_drained hp⟩
  | fault hd hm hf =>
    have hd := (flushed_of_decodeBuffered hl hd).2
    exact nomatch (faultless_of_fill hd.faultless hf).1
  | waiting hd hm hf =>
    have hd := (flushed_of_decodeBuffered hl hd).2
    have hp := pumped_gaveUp hd.buffer (hd.now ▸ hn) hm hf rfl rfl rfl (.inl rfl)
    exact ⟨1, false, rfl, hd.pumped_of_drained hp⟩

theorem SettleTurn.pumped_goOn {f e : Connection} {on : Bool}
    (ht : SettleTurn c name side deadline none f) (hl : c.line.Faultless)
    (h : f.Pumped name side deadline n on e) : c.Pumped name side deadline (n + 1) on e := by
  cases ht with
  | read hd hm hf =>
    have hd := (flushed_of_decodeBuffered hl hd).2
    exact hd.pumped_of_drained (Connection.pumped_goOn hd.buffer hm hf h)

theorem SettleTurn.by_deadline {f : Connection} (ht : SettleTurn c name side deadline none f)
    (hl : c.line.Faultless) (hn : c.line.now ≤ deadline) : f.line.now ≤ deadline := by
  cases ht with
  | read hd hm hf =>
    have hd := (flushed_of_decodeBuffered hl hd).2
    exact (Line.read_by _ (hd.now ▸ hn) (read_of_fill hf).1).1

theorem pumped_awaitSettled (hl : c.line.Faultless) (hn : c.line.now ≤ deadline) :
    ∃ n on, (c.awaitSettled name side deadline).1 = .ok on ∧
      c.Pumped name side deadline n on (c.awaitSettled name side deadline).2 := by
  refine c.awaitSettled_induction (R := fun c x => c.line.Faultless → c.line.now ≤ deadline →
    ∃ n on, x.1 = .ok on ∧ c.Pumped name side deadline n on x.2) ?_ ?_ hl hn
  · intro c r d ht hl hn
    exact ht.pumped hl hn
  · intro c d x ht ih hl hn
    obtain ⟨n, on, hr, hp⟩ := ih (ht.faultless hl) (ht.by_deadline hl hn)
    exact ⟨n + 1, on, hr, ht.pumped_goOn hl hp⟩

end Pump

/-- No reading is made once the half has been settled by some of the bytes that are known. -/
theorem Pumped.le_of_settled {on : Bool} (h : c.Pumped name side deadline n on d) {k : Nat}
    {bytes : List UInt8} (hp : bytes <+: c.known deadline k)
    (hm : c.modeAfter name side bytes ≠ .unstable) : n ≤ k := by
  refine Nat.le_of_not_lt fun hk => ?_
  obtain ⟨rest, hrest⟩ := hp
  have hu := h.unsettled k hk
  rw [← hrest, modeAfter, Stream.drain_append] at hu
  exact Stream.settled_drain hm rest hu

variable (c)

/-- On a line that neither fails nor is closed an offer, and likewise a request, is answered by the
deadline, and the answer is whether the half is then on. It is given up only at the end of the
stream or when the time is up, and nothing is read once the half is settled. -/
theorem negotiate_settles (name : String) (side : Telnet.Side) (ho : c.phase = .open)
    (hname : (c.option? name).isSome) (hl : c.line.Faultless) :
    let deadline := c.line.now + c.negotiationTimeout
    let wished := { c with stream := c.stream.wish name side }
    ∃ n on d, c.negotiate name side = (.ok on, d) ∧ wished.Pumped name side deadline n on d ∧
      ∀ k bytes, bytes <+: wished.known deadline k →
        wished.modeAfter name side bytes ≠ .unstable → n ≤ k := by
  intro deadline wished
  obtain ⟨telnet, code, ht, -⟩ := c.stream.telnet.exists_request side true hname
  have hw : c.setTelnet telnet = wished := by
    rw [setTelnet, ← Stream.wish_of_ok ht]
  rcases hd : wished.flushReplies with ⟨r, d⟩
  obtain ⟨rfl, hf⟩ := flushed_of_flush (show wished.line.Faultless from hl) hd
  have hdeadline : d.line.now + d.negotiationTimeout = deadline := by
    have ht : d.negotiationTimeout = c.negotiationTimeout :=
      congrArg (·.2.negotiationTimeout) hd.symm
    rw [hf.now, ht]
  have hn : d.line.now ≤ deadline := hdeadline ▸ Nat.le_add_right _ _
  obtain ⟨n, on, hr, hp⟩ :
      ∃ n on, (d.awaitSettled name side deadline).1 = .ok on ∧
        d.Pumped name side deadline n on (d.awaitSettled name side deadline).2 :=
    pumped_awaitSettled hf.faultless hn
  refine ⟨n, on, _, ?_, hf.pumped hp, fun k bytes => (hf.pumped hp).le_of_settled⟩
  rw [negotiate, if_neg (not_not_intro ho), ht]
  simp only [hw, hd, hdeadline]
  exact Prod.ext hr rfl

/-- The host agrees to one side, in a verb that is cut, and never answers for the other. -/
def hesitant : Connection where
  line := { inbound := [.pause 5, .bytes [255], .pause 7, .bytes [251, 1, 65], .bytes [66]] }
  stream :=
    { telnet := { options := ⟨[{ code := 1, name := "ECHO", localSupport := true
                                 remoteSupport := true, associated := true }]⟩ } }
  buffer := [120]
  negotiationTimeout := 100

theorem negotiate_settles_hesitant :
    (∃ n d, hesitant.ask "ECHO" = (.ok true, d) ∧ n ≤ 2 ∧
      d.line.unwritten = (hesitant.line.readMany (some 100) n).2.unwritten ∧
      d.modeOf "ECHO" .remoteSide = .enabled ∧ d.line.inbound = [.bytes [66]]) ∧
    ∃ d, hesitant.offer "ECHO" = (.ok false, d) ∧ d.line.now = 100 ∧
      d.modeOf "ECHO" .localSide = .unstable := by
  have hl : hesitant.line.Faultless := ⟨rfl, rfl, by simp [hesitant]⟩
  constructor
  · obtain ⟨n, on, d, he, hp, hs⟩ :=
      negotiate_settles hesitant "ECHO" .remoteSide rfl (by decide +kernel) hl
    have hon : (hesitant.ask "ECHO").1.toOption = some true := by decide +kernel
    have hin : (hesitant.ask "ECHO").2.line.inbound = [.bytes [66]] := by decide +kernel
    rw [ask, he] at hon hin
    cases hon
    refine ⟨n, d, he, hs 2 _ (List.prefix_refl _) ?_, hp.line, hp.answer.mp rfl, hin⟩
    decide +kernel
  · obtain ⟨n, on, d, he, hp, -⟩ :=
      negotiate_settles hesitant "ECHO" .localSide rfl (by decide +kernel) hl
    have hon : (hesitant.offer "ECHO").1.toOption = some false := by decide +kernel
    have hopen : (hesitant.offer "ECHO").2.phase = .open := by decide +kernel
    have hmode : (hesitant.offer "ECHO").2.modeOf "ECHO" .localSide = .unstable := by
      decide +kernel
    rw [offer, he] at hon hopen hmode
    cases hon
    refine ⟨d, he, ?_, hmode⟩
    rcases hp.refusal rfl with hm | ⟨hm, -⟩ | ⟨hnow, -⟩
    · exact nomatch hm.symm.trans hmode
    · exact nomatch hm.symm.trans hopen
    · exact hnow

end Connection

end Client

end VatTerminal
