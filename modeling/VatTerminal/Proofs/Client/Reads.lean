import VatTerminal.Proofs.Client.Feeds
import VatTerminal.Proofs.Client.Turns

/-! # What the calls of a connection read

Between its wishes and its answer a call only reads: it decodes some bytes,
and the end of the stream where it is met. Nothing is read once the stream has
ended. A call that comes to rest without an event has decoded all that it has
read.
-/

namespace VatTerminal.Client

def Next.event? : Next → Option TerminalEvent
  | .event e => some e
  | .finished | .failed _ | .waiting => none

def Next.error? : Next → Option Error
  | .failed e => some e
  | .event _ | .finished | .waiting => none

namespace Connection

variable {c d e : Connection} {es fs : List TerminalEvent}

/-- The end of the stream, where it has been met from `c` to `d`. -/
def endMet (c d : Connection) : List Stream.Input :=
  if c.phase = .open ∧ d.phase ≠ .open then [.finish] else []

theorem endMet_of_eq (h : d.phase = c.phase) : endMet c d = [] := by
  rw [endMet, if_neg]
  rintro ⟨hc, hd⟩
  exact hd (h.trans hc)

theorem endMet_of_not_open (h : c.phase ≠ .open) : endMet c d = [] :=
  if_neg fun hcd => h hcd.1

/-- From `c` to `d` bytes have been decoded, and the end where it was met. -/
structure Reads (c : Connection) (bytes : List UInt8) (es : List TerminalEvent) (d : Connection) :
    Prop where
  feeds : c.Feeds (bytes.map .byte ++ endMet c d) es d
  stopped : c.phase ≠ .open → bytes = [] ∧ d.phase ≠ .open ∧ d.buffer = c.buffer
  /-- The end comes behind everything that was on the way. Once it has been met all is decoded. -/
  met : c.phase = .open → d.phase ≠ .open → d.undecoded = []

theorem Reads.of_open_right {bytes : List UInt8} (h : c.Reads bytes es d) (hd : d.phase = .open) :
    c.phase = .open :=
  Decidable.of_not_not fun hn => (h.stopped hn).2.1 hd

theorem Reads.trans {xs ys : List UInt8} (h : c.Reads xs es d) (k : d.Reads ys fs e) :
    c.Reads (xs ++ ys) (es ++ fs) e := by
  have hf := h.feeds.trans k.feeds
  -- The end is met in the second part or in the first, and in the latter nothing follows.
  by_cases hd : d.phase = .open
  · have hc : c.phase = .open := h.of_open_right hd
    have hcd : endMet c d = [] := endMet_of_eq (hd.trans hc.symm)
    have hce : endMet d e = endMet c e := by rw [endMet, endMet, hc, hd]
    rw [hcd, hce, List.append_nil, ← List.append_assoc, ← List.map_append] at hf
    exact ⟨hf, fun hn => absurd hc hn, fun _ => k.met hd⟩
  · obtain ⟨rfl, he, hb⟩ := k.stopped hd
    have hce : endMet c d = endMet c e := by simp only [endMet, ne_eq, hd, he]
    rw [endMet_of_not_open hd, List.map_nil, List.append_nil, List.append_nil, hce] at hf
    rw [List.append_nil]
    refine ⟨hf, fun hn => ?_, fun hc _ => ?_⟩
    · obtain ⟨hbytes, -, hbuffer⟩ := h.stopped hn
      exact ⟨hbytes, he, hb.trans hbuffer⟩
    · have hu := h.met hc hd
      rw [k.feeds.bytes] at hu
      exact (List.append_eq_nil_iff.mp hu).2

theorem Reads.still (h : c.Feeds [] es d) (hp : d.phase = c.phase) (hb : d.buffer = c.buffer) :
    c.Reads [] es d where
  feeds := by rw [endMet_of_eq hp]; exact h
  stopped hn := ⟨rfl, hp ▸ hn, hb⟩
  met hc hn := absurd (hp.trans hc) hn

theorem Reads.of_open {bytes : List UInt8} (h : c.Feeds (bytes.map .byte) es d)
    (hc : c.phase = .open) (hd : d.phase = .open) : c.Reads bytes es d where
  feeds := by rw [endMet_of_eq (hd.trans hc.symm), List.append_nil]; exact h
  stopped hn := absurd hc hn
  met _ hn := absurd hd hn

section Steps

theorem reads_of_flush {r : Except Error Unit} (h : c.flushReplies = (r, d)) :
    c.Reads [] [] d ∧ d.phase = c.phase := by
  have hr := c.feeds_flushReplies
  have hp := c.phase_flushReplies
  have hb : c.flushReplies.2.buffer = c.buffer := rfl
  rw [h] at hr hp hb
  exact ⟨.still hr hp hb, hp⟩

theorem phase_of_fill {r : Reading} {limit : Option Nat} (h : c.fill limit = (r, d)) :
    d.phase = c.phase := by
  have hp := c.phase_fill limit
  rwa [h] at hp

theorem reads_of_fill {r : Reading} {limit : Option Nat} (h : c.fill limit = (r, d))
    (hc : c.phase = .open) : c.Reads [] [] d ∧ d.phase = .open := by
  have hr := c.feeds_fill limit
  have hd := (phase_of_fill h).trans hc
  rw [h] at hr
  exact ⟨.of_open hr hc hd, hd⟩

theorem reads_endOfStream (hc : c.phase = .open) (hl : c.line.onWay = []) :
    c.Reads c.buffer [] c.endOfStream where
  feeds := by
    rw [endMet, if_pos ⟨hc, nofun⟩]
    exact c.feeds_endOfStream
  stopped hn := absurd hc hn
  met _ _ := hl

theorem reads_of_decodeBuffered {r : Except Error Unit} (h : c.decodeBuffered = (r, d))
    (hc : c.phase = .open) : c.Reads c.buffer [] d ∧ d.phase = .open := by
  have hr := c.feeds_decodeBuffered
  have hp : c.decodeBuffered.2.phase = .open := hc
  rw [h] at hr hp
  exact ⟨.of_open hr hc hp, hp⟩

theorem exists_reads_decode (c : Connection) (hc : c.phase = .open) (hp : c.pending = []) :
    ∃ bytes, c.Reads bytes c.decode.1.toList c.decode.2 := by
  obtain ⟨bytes, h⟩ := c.feeds_decode hp
  exact ⟨bytes, .of_open h hc hc⟩

end Steps

section Kept

theorem kept_of_flush {r : Except Error Unit} (hd : c.flushReplies = (r, d)) :
    d.pending = c.pending ∧ d.buffer = c.buffer := by
  rw [show d = c.flushReplies.2 by rw [hd]]
  exact ⟨rfl, rfl⟩

theorem read_of_fill {limit : Option Nat} {r : Reading} (h : c.fill limit = (r, d)) :
    c.line.read limit = (r, d.line) ∧
      d = { c with line := d.line, buffer := c.buffer ++ r.payload } := by
  unfold fill at h
  split at h
  · next hr =>
    cases h
    exact ⟨hr, rfl⟩
  · next r' line hn hr =>
    cases h
    refine ⟨hr, ?_⟩
    cases r with
    | bytes bs => exact absurd rfl (hn bs)
    | _ => simp only [Reading.payload, List.append_nil]

theorem onWay_of_fill {limit : Option Nat} {r : Reading} (hf : c.fill limit = (r, d))
    (hr : r = .ended ∨ r = .waiting ∧ limit = none) : d.line.onWay = [] := by
  have hrest := c.line.onWay_read_rest limit
  rw [(read_of_fill hf).1] at hrest
  exact hrest hr

theorem kept_of_fill {limit : Option Nat} {r : Reading} (hf : c.fill limit = (r, d)) :
    d.pending = c.pending ∧ (r.payload = [] → d.buffer = c.buffer) := by
  rw [(read_of_fill hf).2]
  refine ⟨rfl, fun hb => ?_⟩
  rw [hb]
  exact List.append_nil _

theorem writable_of_flush {r : Except Error Unit} (h : c.flushReplies = (r, d)) :
    d.line.writable = c.line.writable := by
  have hw := (c.line.sendRaw_kept c.stream.takeReplies.1).2
  have hl : c.flushReplies.2.line.writable = c.line.writable := hw
  rwa [h] at hl

theorem writable_of_fill {limit : Option Nat} {r : Reading} (hf : c.fill limit = (r, d)) :
    d.line.writable = c.line.writable := by
  have hl : (c.line.read limit).2.writable = c.line.writable := rfl
  rwa [(read_of_fill hf).1] at hl

theorem unwritable_of_flush {e : Error} (h : c.flushReplies = (.error e, d)) :
    c.line.writable = false := by
  have hsend : (c.line.sendRaw c.stream.takeReplies.1).1 = .error e := congrArg Prod.fst h
  simp only [Line.sendRaw, Line.writeFrame] at hsend
  split at hsend
  · cases hsend
  · split at hsend
    · next hc => simp [Line.writable, hc]
    · split at hsend
      · next hf => simp [Line.writable, hf]
      · cases hsend

theorem buffer_of_decode_none (h : c.decode.1 = none) : c.decode.2.buffer = [] :=
  Stream.rest_of_decode_none (s := c.stream) (Prod.ext rfl (Prod.ext h rfl))

theorem buffer_of_unread {e : Connection} {a : Except Error Unit} {limit : Option Nat} {r : Reading}
    (h : c.decode.1 = none) (hd : c.decode.2.flushReplies = (a, d)) (hf : d.fill limit = (r, e))
    (hr : r.payload = []) : e.buffer = [] :=
  ((kept_of_fill hf).2 hr).trans ((kept_of_flush hd).2.trans (buffer_of_decode_none h))

theorem buffer_of_decodeBuffered {r : Except Error Unit} (h : c.decodeBuffered = (r, d)) :
    d.buffer = [] := by
  have hb : c.decodeBuffered.2.buffer = [] := rfl
  rwa [h] at hb

end Kept

section Turns

variable {name : String} {side : Telnet.Side} {deadline : Nat} {limit : Option Nat}

theorem SettleTurn.reads {r : Option (Except Error Bool)}
    (h : SettleTurn c name side deadline r d) (hc : c.phase = .open) :
    (∃ bytes, c.Reads bytes [] d) ∧ (r = none → d.phase = .open) := by
  cases h with
  | unsent hd | enabled hd _ | disabled hd _ =>
    exact ⟨⟨_, (reads_of_decodeBuffered hd hc).1⟩, nofun⟩
  | read hd hm hf =>
    obtain ⟨hb, ho⟩ := reads_of_decodeBuffered hd hc
    obtain ⟨hr, hp⟩ := reads_of_fill hf ho
    exact ⟨⟨_, hb.trans hr⟩, fun _ => hp⟩
  | met hd hm hf =>
    obtain ⟨hb, ho⟩ := reads_of_decodeBuffered hd hc
    obtain ⟨hr, hp⟩ := reads_of_fill hf ho
    have he := reads_endOfStream hp (onWay_of_fill hf (.inl rfl))
    exact ⟨⟨_, (hb.trans hr).trans he⟩, nofun⟩
  | fault hd _ hf | waiting hd _ hf =>
    obtain ⟨hb, ho⟩ := reads_of_decodeBuffered hd hc
    exact ⟨⟨_, hb.trans (reads_of_fill hf ho).1⟩, nofun⟩

theorem reads_awaitSettled (hc : c.phase = .open) :
    ∃ bytes, c.Reads bytes [] (c.awaitSettled name side deadline).2 := by
  refine c.awaitSettled_induction (R := fun c x => c.phase = .open → ∃ bytes, c.Reads bytes [] x.2)
    ?_ ?_ hc
  · intro c r d ht hc
    exact (ht.reads hc).1
  · intro c d x ht ih hc
    obtain ⟨⟨xs, hx⟩, hd⟩ := ht.reads hc
    obtain ⟨ys, hy⟩ := ih (hd rfl)
    exact ⟨_, hx.trans hy⟩

/-- A turn of asking for the next event reads, and hands out what it makes. Where a write fails, the
event that was waiting for it is lost. -/
theorem Turn.exists_reads {r : Option Next} (h : Turn c limit r d) :
    ∃ bytes lost, c.Reads bytes ((r.bind Next.event?).toList ++ lost) d ∧
      (lost ≠ [] → ∃ e, r = some (.failed e) ∧ c.phase = .open ∧ c.line.writable = false) := by
  cases h with
  | kept hp =>
    exact ⟨_, [], .still (feeds_of_eq rfl rfl rfl (hp ▸ rfl)) rfl rfl, fun hl => absurd rfl hl⟩
  | closed hp hc => exact ⟨_, [], .still (.refl c) rfl rfl, fun hl => absurd rfl hl⟩
  | ended hp hc =>
    have hn : c.phase ≠ .open := by rw [hc]; nofun
    refine ⟨[], [], ⟨?_, fun _ => ⟨rfl, nofun, rfl⟩, fun ho => absurd ho hn⟩,
      fun hl => absurd rfl hl⟩
    rw [endMet_of_not_open hn]
    exact feeds_of_eq rfl rfl rfl rfl
  | @unsent e d hp ho hd =>
    obtain ⟨bytes, hb⟩ := c.exists_reads_decode ho hp
    have hr := hb.trans (reads_of_flush hd).1
    rw [List.append_nil c.decode.1.toList] at hr
    have hw := unwritable_of_flush (c := c.decode.2) hd
    exact ⟨_, c.decode.1.toList, hr, fun _ => ⟨e, rfl, ho, hw⟩⟩
  | decoded hp ho hd he =>
    obtain ⟨bytes, hb⟩ := c.exists_reads_decode ho hp
    rw [he] at hb
    exact ⟨_, [], hb.trans (reads_of_flush hd).1, fun hl => absurd rfl hl⟩
  | read hp ho hd he hf | fault hp ho hd he hf | waiting hp ho hd he hf =>
    obtain ⟨bytes, hb⟩ := c.exists_reads_decode ho hp
    rw [he] at hb
    obtain ⟨hs, hq⟩ := reads_of_flush hd
    exact ⟨_, [], (hb.trans hs).trans (reads_of_fill hf (hq.trans ho)).1, fun hl => absurd rfl hl⟩
  | met hp ho hd he hf =>
    obtain ⟨bytes, hb⟩ := c.exists_reads_decode ho hp
    rw [he] at hb
    obtain ⟨hs, hq⟩ := reads_of_flush hd
    obtain ⟨hr, hp⟩ := reads_of_fill hf (hq.trans ho)
    have he := reads_endOfStream hp (onWay_of_fill hf (.inl rfl))
    exact ⟨_, [], ((hb.trans hs).trans hr).trans he, fun hl => absurd rfl hl⟩

theorem Turn.writable {r : Option Next} (h : Turn c limit r d) :
    d.line.writable = c.line.writable := by
  cases h with
  | kept | closed | ended => rfl
  | unsent _ _ hd | decoded _ _ hd _ => exact writable_of_flush (c := c.decode.2) hd
  | read _ _ hd _ hf | met _ _ hd _ hf | fault _ _ hd _ hf | waiting _ _ hd _ hf =>
    exact (writable_of_fill hf).trans (writable_of_flush (c := c.decode.2) hd)

theorem exists_reads_next (c : Connection) (limit : Option Nat) :
    ∃ bytes lost, c.Reads bytes ((c.next limit).1.event?.toList ++ lost) (c.next limit).2 ∧
      (lost ≠ [] → ∃ e, (c.next limit).1 = .failed e ∧ c.phase = .open ∧
        c.line.writable = false) := by
  refine c.next_induction (R := fun c x => ∃ bytes lost, c.Reads bytes (x.1.event?.toList ++ lost)
    x.2 ∧ (lost ≠ [] → ∃ e, x.1 = .failed e ∧ c.phase = .open ∧ c.line.writable = false)) ?_ ?_
  · intro c r d ht
    obtain ⟨bytes, lost, hr, hlost⟩ := ht.exists_reads
    refine ⟨bytes, lost, hr, fun hne => ?_⟩
    obtain ⟨e, he, ho⟩ := hlost hne
    exact ⟨e, Option.some.inj he, ho⟩
  · intro c d x ht ih
    obtain ⟨xs, lost, hx, hlost⟩ := ht.exists_reads
    obtain rfl : lost = [] := by
      refine Classical.byContradiction fun hne => ?_
      obtain ⟨e, he, -⟩ := hlost hne
      cases he
    obtain ⟨ys, lost, hy, hlost⟩ := ih
    refine ⟨_, lost, hx.trans hy, fun hne => ?_⟩
    obtain ⟨e, he, ho, hw⟩ := hlost hne
    exact ⟨e, he, hx.of_open_right ho, ht.writable.symm.trans hw⟩

theorem reads_next (c : Connection) (limit : Option Nat)
    (hok : c.phase = .open → (c.next limit).1.error? = none) :
    ∃ bytes, c.Reads bytes (c.next limit).1.event?.toList (c.next limit).2 := by
  obtain ⟨bytes, lost, hr, hlost⟩ := c.exists_reads_next limit
  obtain rfl : lost = [] := by
    refine Classical.byContradiction fun hne => ?_
    obtain ⟨e, he, ho, -⟩ := hlost hne
    rw [he] at hok
    cases hok ho
  rw [List.append_nil] at hr
  exact ⟨bytes, hr⟩

theorem Turn.pending {limit : Option Nat} {r : Option Next} (h : Turn c limit r d)
    (hp : c.pending = []) : d.pending = [] := by
  cases h with
  | kept hk =>
    rw [hp] at hk
    cases hk
  | closed | ended => exact hp
  | unsent _ _ hd | decoded _ _ hd _ => exact (kept_of_flush hd).1.trans hp
  | read _ _ hd _ hf | fault _ _ hd _ hf | waiting _ _ hd _ hf =>
    exact (kept_of_fill hf).1.trans ((kept_of_flush hd).1.trans hp)
  | met _ _ hd he hf =>
    rw [endOfStream, buffer_of_unread he hd hf rfl]
    exact (List.append_nil _).trans ((kept_of_fill hf).1.trans ((kept_of_flush hd).1.trans hp))

theorem pending_next (c : Connection) (limit : Option Nat) (hp : c.pending = []) :
    (c.next limit).2.pending = [] := by
  refine c.next_induction (R := fun c x => c.pending = [] → x.2.pending = []) ?_ ?_ hp
  · intro c r d ht hp
    exact ht.pending hp
  · intro c d x ht ih hp
    exact ih (ht.pending hp)

/-- Asking is given up where everything is handed out that has been read and nothing more is to be
had by the limit, and without a limit only where nothing is on the way. -/
theorem next_waiting (h : (c.next limit).1 = .waiting) :
    (c.next limit).2.pending = [] ∧ (c.next limit).2.buffer = [] ∧
      ((c.next limit).2.line.read limit).1 = .waiting ∧
      (limit = none → (c.next limit).2.line.onWay = []) := by
  refine c.next_induction (R := fun _ x => x.1 = .waiting → x.2.pending = [] ∧ x.2.buffer = [] ∧
    (x.2.line.read limit).1 = .waiting ∧ (limit = none → x.2.line.onWay = [])) ?_ ?_ h
  · intro c r d ht hr
    subst hr
    cases ht with
    | @waiting d f hp ho hd he hf =>
      have hagain := d.line.read_again limit
      rw [(read_of_fill hf).1] at hagain
      exact ⟨(kept_of_fill hf).1.trans ((kept_of_flush hd).1.trans hp),
        buffer_of_unread he hd hf rfl, hagain rfl, fun hl => onWay_of_fill hf (.inr ⟨rfl, hl⟩)⟩
  · intro c d x _ ih
    exact ih

theorem next_finished (h : (c.next limit).1 = .finished) :
    (c.next limit).2.pending = [] ∧ (c.next limit).2.phase = .closed := by
  refine c.next_induction (R := fun _ x => x.1 = .finished → x.2.pending = [] ∧
    x.2.phase = .closed) ?_ ?_ h
  · intro c r d ht hr
    subst hr
    cases ht with
    | ended hp hc => exact ⟨hp, rfl⟩
  · intro c d x _ ih
    exact ih

theorem SettleTurn.buffer {r : Except Error Bool}
    (h : SettleTurn c name side deadline (some r) d) : d.buffer = [] := by
  cases h with
  | unsent hd | enabled hd _ | disabled hd _ => exact buffer_of_decodeBuffered hd
  | met => rfl
  | fault hd _ hf | waiting hd _ hf =>
    exact ((kept_of_fill hf).2 rfl).trans (buffer_of_decodeBuffered hd)

theorem buffer_awaitSettled (c : Connection) (name : String) (side : Telnet.Side)
    (deadline : Nat) : (c.awaitSettled name side deadline).2.buffer = [] :=
  c.awaitSettled_induction (R := fun _ x => x.2.buffer = []) SettleTurn.buffer fun _ ih => ih

end Turns

theorem next_of_turn {limit : Option Nat} {r : Next} (h : c.turn limit = (some r, d)) :
    c.next limit = (r, d) := by
  unfold next
  split
  · next hr =>
    rw [h] at hr
    cases hr
    rfl
  · next hr =>
    rw [h] at hr
    cases hr

theorem next_of_pending {event : TerminalEvent} {rest : List TerminalEvent}
    (h : c.pending = event :: rest) (limit : Option Nat) :
    c.next limit = (.event event, { c with pending := rest }) :=
  next_of_turn (by rw [turn, h])

theorem next_of_ended (hp : c.pending = []) (hc : c.phase = .ended) (limit : Option Nat) :
    c.next limit = (.finished, { c with phase := .closed }) :=
  next_of_turn (by rw [turn, hp, hc])

theorem next_of_closed (hp : c.pending = []) (hc : c.phase = .closed) (limit : Option Nat) :
    c.next limit = (.failed .notConnected, c) :=
  next_of_turn (by rw [turn, hp, hc])

end Connection

end VatTerminal.Client
