import VatTerminal.Client.Basic

/-! # Running a client

One fair order of the steps of a client. The reader runs until it has to wait,
then the display serves all that is in the queue, and so on until neither can
go on. Only then does time move, and straight to where the reader can.
-/

namespace VatTerminal

namespace Client

def Reader.rank : Reader → Nat
  | .sending _ => 13
  | .awaiting => 11
  | .asking => 10
  | .closing => 6
  | .announcing => 5
  | .parting => 2
  | .finished => 0

/-- A bound for the steps that can be taken before the host sends more. -/
def work (c : Client) : Nat := 4 * c.connection.load + c.reader.rank + c.queue.length

theorem work_ask_lt {c : Client} {limit : Nat} (hc : c.reader = .asking)
    (h : (c.ask limit).1 = true) : (c.ask limit).2.work < c.work := by
  have hle := Connection.load_next_le c.connection (some limit)
  rcases hn : c.connection.next (some limit) with ⟨next, connection⟩
  rw [hn] at hle
  have load_logStrays (d : Client) : d.logStrays.connection.load = d.connection.load := rfl
  have reader_logStrays (d : Client) : d.logStrays.reader = d.reader := rfl
  have queue_logStrays (d : Client) : d.logStrays.queue = d.queue := rfl
  simp only [ask, hn] at h ⊢
  cases next with
  | waiting => simp [react] at h
  | finished =>
    simp only [react, work, load_logStrays, queue_logStrays, hc, Reader.rank] at hle ⊢
    omega
  | failed e =>
    simp only [react, work, load_logStrays, queue_logStrays, hc, Reader.rank] at hle ⊢
    omega
  | event e =>
    have hlt := Connection.load_next_lt c.connection (some limit) (e := e)
      (by rw [hn])
    rw [hn] at hlt
    cases e with
    | instruction i =>
      simp only [react, work, load_logStrays, queue_logStrays, hc, Reader.rank] at hlt ⊢
      omega
    | telnet e =>
      simp only [react, work, load_logStrays, reader_logStrays, queue_logStrays, hc,
        Reader.rank] at hlt ⊢
      omega

theorem work_readerStep_lt (c : Client) (limit : Nat) (h : (c.readerStep limit).1 = true) :
    (c.readerStep limit).2.work < c.work := by
  revert h
  simp only [readerStep]
  split
  · next hr =>
    split
    · simp [work, hr, Reader.rank]
    · exact work_ask_lt hr
  · next i hr =>
    split
    · cases i.mutatesScreen <;> simp [work, enqueue, hr, Reader.rank] <;> omega
    · simp
  · next hr =>
    split <;> simp [work, hr, Reader.rank]
  · next hr =>
    have : c.hangUp.connection.load = c.connection.load := by
      simp only [hangUp, Connection.close, Line.close]
      split <;> rfl
    simp [work, hr, this, Reader.rank, show c.hangUp.queue = c.queue from rfl,
      show c.hangUp.reader = .announcing from rfl]
  · next hr =>
    split
    · simp [work, enqueue, hr, Reader.rank]
      omega
    · simp
  · next hr => simp [work, hr, Reader.rank]
  · simp

theorem work_readerStep_le (c : Client) (limit : Nat) : (c.readerStep limit).2.work ≤ c.work := by
  cases h : (c.readerStep limit).1 with
  | true => exact Nat.le_of_lt (work_readerStep_lt c limit h)
  | false =>
    revert h
    simp only [readerStep]
    split <;> try split
    all_goals try simp
    next hr _ =>
      have hle := Connection.load_next_le c.connection (some limit)
      rcases hn : c.connection.next (some limit) with ⟨next, connection⟩
      rw [hn] at hle
      simp only [ask, hn]
      cases next with
      | waiting =>
        intro _
        exact Nat.add_le_add_right (Nat.add_le_add_right (Nat.mul_le_mul_left 4 hle) _) _
      | event e => cases e <;> simp [react]
      | finished => simp [react]
      | failed e => simp [react]

def readerTurn (c : Client) (limit : Nat) : Client :=
  match _h : c.readerStep limit with
  | (true, d) => d.readerTurn limit
  | (false, d) => d
termination_by c.work
decreasing_by
  have := work_readerStep_lt c limit
  simp_all

def displayTurn (c : Client) : Client := c.queue.foldl serve { c with queue := [] }

theorem work_readerTurn_le (c : Client) (limit : Nat) : (c.readerTurn limit).work ≤ c.work := by
  fun_induction readerTurn c limit with
  | case1 c d h ih =>
    have := work_readerStep_le c limit
    simp_all
    omega
  | case2 c d h =>
    have := work_readerStep_le c limit
    simp_all

theorem work_serve (c : Client) (r : Request) : (c.serve r).work = c.work := by
  have inbound_sendData (l : Line) (bs : List UInt8) :
      (l.sendData bs).2.inbound = l.inbound := by
    simp only [Line.sendData, Line.writeFrame]
    repeat' split
    all_goals rfl
  have inbound_sendOwed (l : Line) (bs : List UInt8) :
      (l.sendOwed bs).2.inbound = l.inbound := by
    have := inbound_sendData l bs
    simp only [Line.sendOwed]
    split <;> simp_all
  simp [serve, work, setLine, Connection.load, inbound_sendOwed]

theorem work_displayTurn (c : Client) : c.displayTurn.work + c.queue.length = c.work := by
  have work_foldl (rs : List Request) (d : Client) : (rs.foldl serve d).work = d.work := by
    induction rs generalizing d with
    | nil => rfl
    | cons r rs ih => simp [ih, work_serve]
  rw [displayTurn, work_foldl]
  simp [work]

/-- Reader and display take turns until neither can go on. Time stands. -/
def runIdle (c : Client) : Client :=
  if (c.readerTurn c.now).queue = [] then c.readerTurn c.now
  else (c.readerTurn c.now).displayTurn.runIdle
termination_by c.work
decreasing_by
  have h₁ := work_readerTurn_le c c.now
  have h₂ := work_displayTurn (c.readerTurn c.now)
  have := List.length_pos_iff.2 ‹¬(c.readerTurn c.now).queue = []›
  omega

theorem work_runIdle_le (c : Client) : c.runIdle.work ≤ c.work := by
  fun_induction runIdle c with
  | case1 c h => exact work_readerTurn_le c c.now
  | case2 c h ih =>
    have h₁ := work_readerTurn_le c c.now
    have h₂ := work_displayTurn (c.readerTurn c.now)
    omega

def settle (c : Client) (moment : Nat) : Client :=
  match _h : c.runIdle.readerStep moment with
  | (true, d) => d.settle moment
  | (false, d) => d.setLine { d.connection.line with now := max d.now moment }
termination_by c.work
decreasing_by
  have h₁ := work_runIdle_le c
  have h₂ := work_readerStep_lt c.runIdle moment
  simp_all
  omega

def idle (c : Client) : Client := c.settle (c.now + 1)

def typeKeys (c : Client) (keys : List Char) : Client :=
  keys.foldl (fun c k => (c.enqueue (.key k)).displayTurn) c

def attach (c : Client) : KeysetDevice → Client
  | .records bytes =>
    let d := Keyset.Driver.run true [bytes] .endOfFile
    let c := c.typeKeys (d.events.filterMap (·.typed?))
    { c with journal := c.journal.warn (d.result.toList.flatMap Warning.ofKeyset) }
  | .none | .missing _ => c

end Client

end VatTerminal
