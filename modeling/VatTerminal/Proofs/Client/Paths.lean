import VatTerminal.Proofs.Client.Steps

/-! # Calls as paths

A call takes a path of steps. First it puts its wishes to the Telnet endpoint,
and then the bytes that it decodes, so that its inputs are read off the path.
The events that it hands out are of those that were kept or are made on the way.
-/

namespace VatTerminal.Client.Connection

open Telnet (Endpoint Side)

def collect {α : Type} (f : Connection → Step → List α) (c : Connection) : List Step → List α
  | [] => []
  | s :: ss => f c s ++ (c.step s).collect f ss

theorem collect_append {α : Type} (f : Connection → Step → List α) (c : Connection)
    (ss ts : List Step) :
    c.collect f (ss ++ ts) = c.collect f ss ++ (ss.foldl step c).collect f ts := by
  induction ss generalizing c with
  | nil => rfl
  | cons s ss ih => simp only [List.cons_append, collect, ih, List.append_assoc, List.foldl_cons]

theorem undecoded_steps (c : Connection) (steps : List Step) :
    c.undecoded = c.collect reads steps ++ (steps.foldl step c).undecoded := by
  induction steps generalizing c with
  | nil => rfl
  | cons s ss ih =>
    rw [c.undecoded_step s, ih (c.step s), collect, List.append_assoc]
    rfl

theorem decoded_steps (c : Connection) (steps : List Step) :
    decoded c (steps.foldl step c) = c.collect reads steps := by
  rw [decoded, c.undecoded_steps steps, List.length_append, Nat.add_sub_cancel, List.take_left]

theorem collect_puts_of_not_isRequest (c : Connection) {steps : List Step}
    (hs : ∀ s ∈ steps, ¬ s.IsRequest) :
    c.collect puts steps = (c.collect reads steps).map .byte := by
  induction steps generalizing c with
  | nil => rfl
  | cons s ss ih =>
    obtain ⟨hhead, htail⟩ := List.forall_mem_cons.mp hs
    rw [collect, collect, List.map_append, puts_of_not_isRequest c hhead, ih _ htail]

/-- The steps lead from `c` to `d` and hand out `es`. Of the events kept and made on the way, none
is handed out twice or ahead of another. -/
structure Path (c : Connection) (steps : List Step) (es : List TerminalEvent) (d : Connection) :
    Prop where
  leads : steps.foldl step c = d
  events : (es ++ d.pending).Sublist (c.pending ++ c.collect raises steps)

/-- Without a wish, steps lead from `c` to `d`. -/
def Reaches (c : Connection) (es : List TerminalEvent) (d : Connection) : Prop :=
  ∃ steps : List Step, (∀ s ∈ steps, ¬ s.IsRequest) ∧ c.Path steps es d

section Path

variable {c d e : Connection} {es fs : List TerminalEvent} {ss ts : List Step} {name : String}
  {side : Side} {deadline : Nat} {limit : Option Nat}

theorem Path.trans (h : c.Path ss es d) (k : d.Path ts fs e) :
    c.Path (ss ++ ts) (es ++ fs) e where
  leads := by rw [List.foldl_append, h.leads, k.leads]
  events := by
    -- What is handed out second was kept by the first part or is made by the second.
    have hfirst := h.events.append (.refl (d.collect raises ts))
    have hsecond := (List.Sublist.refl es).append k.events
    rw [← List.append_assoc es d.pending] at hsecond
    rw [collect_append, h.leads, List.append_assoc, ← List.append_assoc c.pending]
    exact hsecond.trans hfirst

theorem path_step {s : Step} (h : (es ++ (c.step s).pending).Sublist (c.pending ++ c.raises s)) :
    c.Path [s] es (c.step s) :=
  ⟨rfl, by rwa [collect, collect, List.append_nil]⟩

theorem reaches_step {s : Step} (hs : ¬ s.IsRequest)
    (h : (es ++ (c.step s).pending).Sublist (c.pending ++ c.raises s)) :
    c.Reaches es (c.step s) :=
  ⟨[s], by simpa using hs, path_step h⟩

theorem Reaches.refl (c : Connection) : c.Reaches [] c :=
  ⟨[], nofun, rfl, List.sublist_append_left ..⟩

theorem Reaches.trans (h : c.Reaches es d) (k : d.Reaches fs e) : c.Reaches (es ++ fs) e := by
  obtain ⟨ss, hss, hs⟩ := h
  obtain ⟨ts, hts, ht⟩ := k
  exact ⟨ss ++ ts, List.forall_mem_append.mpr ⟨hss, hts⟩, hs.trans ht⟩

theorem Reaches.lose (h : c.Reaches es d) : c.Reaches [] d := by
  obtain ⟨ss, hss, hs⟩ := h
  exact ⟨ss, hss, hs.leads, (List.sublist_append_right ..).trans hs.events⟩

theorem reaches_of_flush {r : Except Error Unit} (h : c.flushReplies = (r, d)) :
    c.Reaches [] d := by
  have hs : c.Reaches [] (c.step .flush) := reaches_step id (List.sublist_append_left ..)
  rw [step, h] at hs
  exact hs

theorem reaches_of_fill {r : Reading} (h : c.fill limit = (r, d)) : c.Reaches [] d := by
  have hp : (c.step (.fill limit)).pending = c.pending := (kept_of_fill rfl).1
  have hs : c.Reaches [] (c.step (.fill limit)) := by
    refine reaches_step id ?_
    rw [List.nil_append, hp]
    exact List.sublist_append_left ..
  rw [step, h] at hs
  exact hs

theorem reaches_decode (hp : c.pending = []) : c.Reaches c.decode.1.toList c.decode.2 := by
  refine reaches_step (s := .decode) id ?_
  rw [hp, show (c.step .decode).pending = [] from hp, List.append_nil]
  exact .refl _

theorem reaches_of_decodeBuffered {r : Except Error Unit} (h : c.decodeBuffered = (r, d)) :
    c.Reaches [] d := by
  have hkeep : c.Reaches [] (c.step .keep) := reaches_step id (.refl _)
  exact hkeep.trans (reaches_of_flush h)

theorem reaches_endOfStream (c : Connection) : c.Reaches [] c.endOfStream :=
  reaches_step (s := .finish) id (.refl _)

theorem Turn.reaches {r : Option Next} (h : Turn c limit r d) :
    c.Reaches (r.bind Next.event?).toList d := by
  cases h with
  | @kept event rest hp =>
    have hs : c.Reaches [event] (c.step .take) := by
      refine reaches_step id ?_
      rw [step, hp]
      exact List.sublist_append_left ..
    rw [step, hp] at hs
    exact hs
  | closed => exact .refl c
  | ended => exact reaches_step (s := .close) id (List.sublist_append_left ..)
  | unsent hp _ hd => exact ((reaches_decode hp).trans (reaches_of_flush hd)).lose
  | decoded hp _ hd he =>
    have h := (reaches_decode hp).trans (reaches_of_flush hd)
    rw [he] at h
    exact h
  | read hp _ hd _ hf | fault hp _ hd _ hf | waiting hp _ hd _ hf =>
    exact ((reaches_decode hp).trans (reaches_of_flush hd)).lose.trans (reaches_of_fill hf)
  | met hp _ hd _ hf =>
    have hread := ((reaches_decode hp).trans (reaches_of_flush hd)).lose.trans (reaches_of_fill hf)
    exact hread.trans (reaches_endOfStream _)

theorem reaches_next (c : Connection) (limit : Option Nat) :
    c.Reaches (c.next limit).1.event?.toList (c.next limit).2 :=
  c.next_induction (R := fun c x => c.Reaches x.1.event?.toList x.2) Turn.reaches
    fun ht ih => ht.reaches.trans ih

theorem SettleTurn.reaches {r : Option (Except Error Bool)}
    (h : SettleTurn c name side deadline r d) : c.Reaches [] d := by
  cases h with
  | unsent hd | enabled hd _ | disabled hd _ => exact reaches_of_decodeBuffered hd
  | read hd _ hf | fault hd _ hf | waiting hd _ hf =>
    exact (reaches_of_decodeBuffered hd).trans (reaches_of_fill hf)
  | met hd _ hf =>
    have hread := (reaches_of_decodeBuffered hd).trans (reaches_of_fill hf)
    exact hread.trans (reaches_endOfStream _)

theorem reaches_awaitSettled (c : Connection) (name : String) (side : Side) (deadline : Nat) :
    c.Reaches [] (c.awaitSettled name side deadline).2 :=
  c.awaitSettled_induction (R := fun c x => c.Reaches [] x.2) SettleTurn.reaches
    fun ht ih => ht.reaches.trans ih

end Path

section Wishes

variable {c d e : Connection} {es : List TerminalEvent} {vs ws : List Stream.Input}

def put? : Stream.Input → Option Endpoint.Input
  | .byte b => some (.byte b)
  | .wish name side => some (.request name side true)
  | .finish => none

/-- The wishes lead from `c` to `d`, and nothing is read meanwhile. -/
def Wishes (c : Connection) (ws : List Stream.Input) (d : Connection) : Prop :=
  ∃ steps : List Step, c.Path steps [] d ∧ c.collect puts steps = ws.filterMap put? ∧
    c.collect reads steps = []

theorem Wishes.refl (c : Connection) : c.Wishes [] c :=
  ⟨[], ⟨rfl, List.sublist_append_left ..⟩, rfl, rfl⟩

theorem Wishes.trans (h : c.Wishes vs d) (k : d.Wishes ws e) : c.Wishes (vs ++ ws) e := by
  obtain ⟨ss, hs, hput, hread⟩ := h
  obtain ⟨ts, ht, hput', hread'⟩ := k
  refine ⟨ss ++ ts, hs.trans ht, ?_, ?_⟩
  · rw [collect_append, hs.leads, hput, hput', List.filterMap_append]
  · rw [collect_append, hs.leads, hread, hread', List.append_nil]

theorem wishes_wish (c : Connection) (name : String) (side : Side) :
    c.Wishes [.wish name side] { c with stream := c.stream.wish name side } := by
  refine ⟨[.request name side true], ⟨?_, List.sublist_append_left ..⟩, rfl, rfl⟩
  rw [List.foldl_cons, List.foldl_nil, step, Endpoint.input]
  cases h : c.stream.telnet.request name side true with
  | error err =>
    rw [Stream.wish_of_error h]
    rfl
  | ok r =>
    rw [Stream.wish_of_ok h]
    rfl

theorem wishes_wishesFor (c : Connection) (os : List TelnetOption) :
    c.Wishes (wishesFor os) { c with stream := (c.stream.feed (wishesFor os)).1 } := by
  induction os generalizing c with
  | nil => exact .refl c
  | cons o os ih =>
    have hremote := c.wishes_wish o.name .remoteSide
    exact (hremote.trans (wishes_wish _ o.name .localSide)).trans (ih _)

theorem Wishes.reaches (h : c.Wishes ws d) (k : d.Reaches es e) :
    ∃ steps, c.Path steps es e ∧
      c.collect puts steps = ws.filterMap put? ++ (decoded c e).map .byte := by
  obtain ⟨ss, hs, hput, hread⟩ := h
  obtain ⟨ts, hts, ht⟩ := k
  have hpath := hs.trans ht
  refine ⟨ss ++ ts, hpath, ?_⟩
  rw [← hpath.leads, decoded_steps, collect_append, collect_append, hs.leads, hput, hread,
    collect_puts_of_not_isRequest d hts, List.nil_append]

theorem wishes_negotiate (c : Connection) (name : String) (side : Side) :
    ∃ d, c.Wishes (if c.phase = .open then [.wish name side] else []) d ∧
      d.Reaches [] (c.negotiate name side).2 := by
  by_cases hc : c.phase = .open
  · have hwish := c.wishes_wish name side
    rw [if_pos hc, negotiate, if_neg (not_not_intro hc)]
    split
    · next ht =>
      rw [Stream.wish_of_error ht] at hwish
      exact ⟨c, hwish, .refl c⟩
    · next ht =>
      rw [Stream.wish_of_ok ht] at hwish
      refine ⟨_, hwish, ?_⟩
      split
      · next hd => exact reaches_of_flush hd
      · next d hd => exact (reaches_of_flush hd).trans (reaches_awaitSettled d ..)
  · rw [if_neg hc, c.negotiate_of_not_open name side hc]
    exact ⟨c, .refl c, .refl c⟩

theorem wishes_negotiateOnConnect (c : Connection) :
    ∃ d, c.Wishes (wishesFor c.options.entries) d ∧ d.Reaches [] c.negotiateOnConnect.2 := by
  have hwish := c.wishes_wishesFor c.options.entries
  obtain ⟨telnet, hr, hf⟩ := c.requestAll_options
  rw [hf] at hwish
  refine ⟨_, hwish, ?_⟩
  rw [negotiateOnConnect, hr]
  exact reaches_of_flush rfl

def heeds (c : Connection) (k : Call) : List Endpoint.Input := (c.inputs k).filterMap put?

theorem heeds_eq (c : Connection) (k : Call) :
    c.heeds k =
      (c.wishes k).filterMap put? ++ (decoded c (c.perform k).2).map .byte := by
  have hend : (endMet c (c.perform k).2).filterMap put? = [] := by
    unfold endMet
    split <;> rfl
  have hbytes : put? ∘ Stream.Input.byte = some ∘ Endpoint.Input.byte := rfl
  rw [heeds, inputs, List.filterMap_append, List.filterMap_append, hend, List.append_nil,
    List.filterMap_map, hbytes, List.filterMap_eq_map]

theorem exists_path (c : Connection) (k : Call) :
    ∃ steps, c.Path steps (c.perform k).1.toList (c.perform k).2 ∧
      c.collect puts steps = c.heeds k := by
  rw [heeds_eq]
  cases k with
  | next limit => exact (Wishes.refl c).reaches (c.reaches_next limit)
  | offer name =>
    obtain ⟨d, hwish, hreach⟩ := c.wishes_negotiate name .localSide
    exact hwish.reaches hreach
  | ask name =>
    obtain ⟨d, hwish, hreach⟩ := c.wishes_negotiate name .remoteSide
    exact hwish.reaches hreach
  | negotiateOnConnect =>
    obtain ⟨d, hwish, hreach⟩ := c.wishes_negotiateOnConnect
    exact hwish.reaches hreach

def Leads (c d : Connection) : Prop := ∃ steps : List Step, steps.foldl step c = d

theorem leads_perform (c : Connection) (k : Call) : c.Leads (c.perform k).2 := by
  obtain ⟨steps, h, -⟩ := c.exists_path k
  exact ⟨steps, h.leads⟩

end Wishes

end VatTerminal.Client.Connection
