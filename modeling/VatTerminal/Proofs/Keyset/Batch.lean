import VatTerminal.Keyset.Driver
import VatTerminal.Proofs.Keyset.Repeats

/-! # The driver against its records

The driver is handed bytes in pieces of any size and ends in one of several
ways. What it delivers can be read off all bytes at once: they are cut into
records, those before the first invalid one are taken in without the ones said
again, and what the driver ends with is decided by that one or by the device.
-/

namespace VatTerminal.Keyset

namespace Record

variable {bytes : List UInt8}

/-- The bytes cut into blocks of one record each. What is left over at the end is in none. -/
def blocks (bytes : List UInt8) : List (List UInt8) :=
  (List.range (bytes.length / size)).map fun i => (bytes.drop (size * i)).take size

theorem blocks_of_lt (h : bytes.length < size) : blocks bytes = [] := by
  rw [blocks, Nat.div_eq_of_lt h]
  rfl

theorem blocks_of_le (h : size ≤ bytes.length) :
    blocks bytes = bytes.take size :: blocks (bytes.drop size) := by
  have hcount : bytes.length / size = (bytes.drop size).length / size + 1 := by
    rw [List.length_drop, ← Nat.div_eq_sub_div (by decide) h]
  rw [blocks, hcount, List.range_succ_eq_map, List.map_cons, List.map_map, blocks]
  congr 1
  refine List.map_congr_left fun i _ => ?_
  rw [Function.comp_apply, List.drop_drop, Nat.mul_succ, Nat.add_comm]

/-- The records before the first that is not valid, and what is wrong with that one. -/
def parseAll : List (List UInt8) → List Record × Option Error
  | [] => ([], none)
  | block :: rest =>
    match parse block with
    | .error e => ([], some e)
    | .ok r => (r :: (parseAll rest).1, (parseAll rest).2)

theorem exists_field_of_parse {e : Error} (h : parse bytes = .error e) :
    ∃ field value, e = .invalidRecord field value := by
  have hv : (ofBytes bytes).validate = .error e := by
    simp only [parse] at h
    cases hv : (ofBytes bytes).validate with
    | error e' =>
      rw [hv] at h
      exact congrArg Except.error (Except.error.inj h)
    | ok u =>
      rw [hv] at h
      cases h
  unfold validate at hv
  repeat' split at hv
  all_goals cases hv
  all_goals exact ⟨_, _, rfl⟩

theorem exists_field_of_parseAll {blocks : List (List UInt8)} {e : Error}
    (h : (parseAll blocks).2 = some e) : ∃ field value, e = .invalidRecord field value := by
  induction blocks with
  | nil => cases h
  | cons block rest ih =>
    rw [parseAll] at h
    split at h
    · next hp =>
      cases h
      exact exists_field_of_parse hp
    · exact ih h

end Record

/-- The records that differ from the one before them, the first of which is given. -/
def fresh (previous : Option Record) : List Record → List Record
  | [] => []
  | r :: rs => if previous = some r then fresh previous rs else r :: fresh (some r) rs

theorem destutter'_eq_fresh (r : Record) (rs : List Record) :
    rs.destutter' (· ≠ ·) r = r :: fresh (some r) rs := by
  induction rs generalizing r with
  | nil => rfl
  | cons q rs ih =>
    by_cases he : r = q
    · rw [List.destutter'_cons_neg _ (not_not.mpr he), ih, fresh, if_pos (congrArg some he)]
    · rw [List.destutter'_cons_pos _ he, ih, fresh, if_neg fun h => he (Option.some.inj h)]

theorem fresh_none (rs : List Record) : fresh none rs = rs.destutter (· ≠ ·) := by
  cases rs with
  | nil => rfl
  | cons r rs =>
    rw [List.destutter_cons', destutter'_eq_fresh, fresh, if_neg (Option.some_ne_none r).symm]

namespace Driver

open Record (size blocks parseAll)

variable {d : Driver} {listening : Bool} {bytes : List UInt8} {history : List Record}

section Pieces

variable (d) in
theorem feed_append (bytes more : List UInt8) :
    d.feed listening (bytes ++ more) = (d.feed listening bytes).feed listening more :=
  List.foldl_append

theorem feedAll_eq_feed (pieces : List (List UInt8)) :
    feedAll listening pieces = feed {} listening pieces.flatten :=
  List.foldl_flatten.symm

theorem feed_of_ended (h : d.result.isSome) : d.feed listening bytes = d := by
  induction bytes with
  | nil => rfl
  | cons b bs ih =>
    have hpush : d.push listening b = d := if_pos h
    rw [feed, List.foldl_cons, hpush, ← feed, ih]

theorem feed_of_lt (hr : d.result = none) (h : d.unfinished.length + bytes.length < size) :
    d.feed listening bytes = { d with unfinished := d.unfinished ++ bytes } := by
  induction bytes generalizing d with
  | nil => simp [feed]
  | cons b bs ih =>
    rw [List.length_cons] at h
    have hpush : d.push listening b = { d with unfinished := d.unfinished ++ [b] } := by
      have hlt : d.unfinished.length + 1 < size := by omega
      simp [push, hr, hlt]
    have hshort : (d.unfinished ++ [b]).length + bs.length < size := by
      rw [List.length_append, List.length_singleton]
      omega
    rw [feed, List.foldl_cons, hpush, ← feed,
      ih (d := { d with unfinished := d.unfinished ++ [b] }) hr hshort]
    simp

theorem feed_block (hr : d.result = none) (hu : d.unfinished = []) (h : bytes.length = size) :
    d.feed listening bytes = d.takeRecord listening bytes := by
  rcases List.eq_nil_or_concat bytes with rfl | ⟨init, b, rfl⟩
  · cases h
  rw [List.concat_eq_append] at h ⊢
  have hinit : init.length + 1 = size := by simpa using h
  have hlt : d.unfinished.length + init.length < size := by
    rw [hu, List.length_nil]
    omega
  have hkept : { d with unfinished := [] } = d := by rw [← hu]
  rw [feed_append, feed_of_lt hr hlt, hu, List.nil_append]
  show ({ d with unfinished := init } : Driver).push listening b = _
  have hfull : ¬ init.length + 1 < size := Nat.not_lt.mpr (Nat.le_of_eq hinit.symm)
  rw [push, if_neg (by simp [hr]), if_neg hfull]
  exact congrArg (takeRecord · listening (init ++ [b])) hkept

end Pieces

section Records

variable {block : List UInt8} {r : Record} {e : Error} {es : List Event}

theorem takeRecord_invalid (h : Record.parse block = .error e) :
    d.takeRecord listening block = d.finish (.error e) := by
  rw [takeRecord, h]

theorem takeRecord_again (h : Record.parse block = .ok r) (hp : d.previous = some r) :
    d.takeRecord listening block = d := by
  simp only [takeRecord, h, if_pos hp]

theorem takeRecord_fresh (h : Record.parse block = .ok r) (hp : d.previous ≠ some r)
    (hes : (d.chord.process r).2 = .ok es) :
    d.takeRecord true block =
      { d with
        chord := (d.chord.process r).1, previous := some r, events := d.events ++ es } := by
  have hprocess : d.chord.process r = ((d.chord.process r).1, .ok es) := Prod.ext rfl hes
  simp only [takeRecord, h, if_neg hp]
  rw [hprocess]
  simp [deliver]

end Records

theorem events_finishWith (d : Driver) (ending : Ending) :
    (d.finishWith ending).events = d.events := by
  unfold finishWith
  split
  · rfl
  · cases ending <;> rfl

/-- Between two records a driver delivers what a single pass over the records to come makes of
them, and ends with the first that is not valid. -/
theorem feed_eq_batch (hr : d.result = none) (hu : d.unfinished = [])
    (hc : d.chord.Follows history) (bytes : List UInt8) :
    ∃ chord reports,
      d.chord.processAll (fresh d.previous (parseAll (blocks bytes)).1) = .ok (chord, reports) ∧
        (d.feed true bytes).events = d.events ++ Report.told reports ∧
        (d.feed true bytes).result = (parseAll (blocks bytes)).2.map .error := by
  -- The induction is on how much is left, one block at a time.
  induction hn : bytes.length using Nat.strongRecOn generalizing d history bytes with
  | ind n ih =>
  subst hn
  rcases Nat.lt_or_ge bytes.length size with hlt | hge
  · have hshort : d.unfinished.length + bytes.length < size := by
      rw [hu, List.length_nil]
      omega
    rw [Record.blocks_of_lt hlt, feed_of_lt hr hshort]
    exact ⟨d.chord, [], rfl, (List.append_nil _).symm, hr⟩
  have hblock : (bytes.take size).length = size := List.length_take_of_le hge
  have hless : (bytes.drop size).length < bytes.length := by
    rw [List.length_drop]
    exact Nat.sub_lt (Nat.lt_of_lt_of_le (by decide) hge) (by decide)
  have hfeed : d.feed true bytes =
      (d.takeRecord true (bytes.take size)).feed true (bytes.drop size) := by
    rw [← feed_block hr hu hblock, ← feed_append, List.take_append_drop]
  rw [hfeed, Record.blocks_of_le hge, parseAll]
  cases hp : Record.parse (bytes.take size) with
  | error e =>
    rw [takeRecord_invalid hp, feed_of_ended rfl]
    exact ⟨d.chord, [], rfl, (List.append_nil _).symm, rfl⟩
  | ok r =>
    have hread : r.Read := ⟨_, hblock, hp⟩
    by_cases hprev : d.previous = some r
    · rw [takeRecord_again hp hprev, fresh, if_pos hprev]
      exact ih _ hless hr hu hc _ rfl
    · obtain ⟨es, hes, -⟩ := hc.typed hread
      rw [takeRecord_fresh hp hprev hes, fresh, if_neg hprev]
      obtain ⟨chord, reports, hall, hevents, hresult⟩ := ih _ hless
        (d := { d with
          chord := (d.chord.process r).1, previous := some r, events := d.events ++ es })
        hr hu (hc.process hread) _ rfl
      refine ⟨chord, _, Chord.processAll_cons_iff.mpr ⟨es, reports, hes, hall, rfl⟩, ?_, hresult⟩
      rw [hevents, Report.told_cons, List.append_assoc]

/-- The driver is one pass over the records of all bytes, however these are cut into pieces. At any
moment it has delivered what comes of the records complete so far, those said again left out, up to
the first that is not valid; with that one it ends, and else as the device does. Bytes that do not
complete a record come to nothing. -/
theorem run_eq_batch (pieces : List (List UInt8)) :
    let records := (parseAll (blocks pieces.flatten)).1
    let invalid := (parseAll (blocks pieces.flatten)).2
    ∃ chord reports, Chord.processAll {} (records.destutter (· ≠ ·)) = .ok (chord, reports) ∧
      (feedAll true pieces).events = Report.told reports ∧
      (feedAll true pieces).result = invalid.map .error ∧
      (∀ e, invalid = some e → ∃ field value, e = .invalidRecord field value) ∧
      (∀ ending, (run true pieces ending).events = Report.told reports) ∧
      (run true pieces .endOfFile).result = some (.error (invalid.getD .endOfFile)) ∧
      ∀ f, (run true pieces (.fault f)).result = some (.error (invalid.getD (.ofFault f))) := by
  intro records invalid
  obtain ⟨chord, reports, hall, hevents, hresult⟩ :=
    feed_eq_batch (d := {}) rfl rfl Chord.Follows.start pieces.flatten
  rw [fresh_none] at hall
  rw [← feedAll_eq_feed] at hevents hresult
  refine ⟨chord, reports, hall, hevents, hresult, fun e => Record.exists_field_of_parseAll,
    fun ending => (events_finishWith _ ending).trans hevents, ?_⟩
  cases hi : invalid with
  | none =>
    have hgoes : (feedAll true pieces).result = none :=
      hresult.trans (congrArg (Option.map Except.error) hi)
    simp [run, finishWith, hgoes, finish]
  | some e =>
    have hended : (feedAll true pieces).result = some (.error e) :=
      hresult.trans (congrArg (Option.map Except.error) hi)
    simp [run, finishWith, hended]

/-- A press is said twice and cut in two, and the last record is not complete. -/
example :
    (run true [[0, 0, 0, 0, 1], [0, 1, 0, 0, 0, 0, 0, 1, 0, 1], [0, 3, 0, 0, 0, 0, 0, 1, 0, 7, 7]]
      .endOfFile).events = [.pressed 0 0, .released 3 0, .typed 3 'a'] := by decide

end Driver

end VatTerminal.Keyset
