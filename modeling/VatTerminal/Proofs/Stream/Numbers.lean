import VatTerminal.Proofs.Coordinate.Range
import VatTerminal.Proofs.Instruction.Spelling
import VatTerminal.Proofs.Stream.Inputs

/-! # Numbers of instructions

Whatever is put to a stream, the numbers of an instruction it makes have been
read off the wire, or were missing and count as 0.
-/

namespace VatTerminal

namespace Instruction

def numbers : Instruction → List Int
  | position x y | setBug x y => [x, y]
  | setWindow top bottom => [top, bottom]
  | writeBlanks count | graphics count => [count]
  | scroll left right top bottom lines => [left, right, top, bottom, lines]
  | _ => []

/-- Each number of the instruction can be read off the wire. -/
def Readable (i : Instruction) : Prop := ∀ x ∈ i.numbers, Coordinate.Readable x

instance : DecidablePred Readable := fun i =>
  inferInstanceAs (Decidable (∀ x ∈ i.numbers, Coordinate.Readable x))

theorem numbers_ofOpcode (op : UInt8) (xs : List Int) :
    (ofOpcode op xs).numbers =
      (List.range ((layout op).count .number)).map fun i => xs.getD i 0 := by
  by_cases hop : op ∈ Opcode.assigned
  · simp only [Opcode.assigned, List.mem_cons, List.not_mem_nil, or_false] at hop
    rcases hop with rfl | rfl | rfl | rfl | rfl | rfl | rfl | rfl | rfl | rfl | rfl | rfl | rfl |
      rfl | rfl | rfl | rfl | rfl | rfl | rfl
    all_goals rfl
  · rw [ofOpcode_of_not_assigned hop, layout_of_not_assigned hop]
    rfl

theorem readable_ofOpcode {xs : List Int} (h : ∀ x ∈ xs, Coordinate.Readable x) (op : UInt8) :
    (ofOpcode op xs).Readable := by
  intro x hx
  rw [numbers_ofOpcode] at hx
  obtain ⟨i, -, rfl⟩ := List.mem_map.mp hx
  rw [List.getD_eq_getElem?_getD]
  cases hi : xs[i]? with
  | none => exact Coordinate.readable_zero
  | some x => exact h x (List.mem_of_getElem? hi)

end Instruction

namespace PendingCommand

def Readable (c : PendingCommand) : Prop := ∀ x ∈ c.numbers, Coordinate.Readable x

variable {c : PendingCommand}

theorem Readable.take (h : c.Readable) {x : Int} (hx : Coordinate.Readable x) :
    (c.take x).Readable := by
  show ∀ y ∈ c.store x, Coordinate.Readable y
  unfold store
  split
  · intro y hy
    rcases List.mem_append.mp hy with hy | hy
    · exact h y hy
    · exact List.mem_singleton.mp hy ▸ hx
  · exact h

theorem Readable.push (h : c.Readable) (b : UInt8) : (c.push b).Readable := by
  cases hn : (Instruction.layout c.opcode)[c.read]? with
  | none =>
    have hc : c.push b = c := by simp only [PendingCommand.push, hn]
    rwa [hc]
  | some a =>
    cases a with
    | skip =>
      rw [push_skip hn]
      exact h
    | number =>
      rcases hb : c.number.push b with ⟨r, _ | x⟩
      · rw [push_number hn hb]
        exact h
      · rw [push_number_some hn hb]
        exact h.take (Coordinate.readable_of_push hb)

end PendingCommand

namespace Parser

def Readable (p : Parser) : Prop := ∀ c, p = arguments c → c.Readable

variable {p : Parser}

theorem readable_ground : ground.Readable := by rintro c ⟨⟩

theorem readable_escape : escape.Readable := by rintro c ⟨⟩

theorem numbers_single? {b : UInt8} {i : Instruction} (h : single? b = some i) :
    i.numbers = [] := by
  unfold single? at h
  repeat' split at h
  all_goals cases h <;> rfl

theorem readable_resume {c : PendingCommand} (h : c.Readable) :
    (resume c).1.Readable ∧ ∀ i, (resume c).2 = some i → i.Readable := by
  unfold resume PendingCommand.finish?
  split
  · next i hi =>
    refine ⟨readable_ground, ?_⟩
    rintro j ⟨⟩
    split at hi
    · cases hi
      exact Instruction.readable_ofOpcode h c.opcode
    · cases hi
  · refine ⟨?_, by rintro i ⟨⟩⟩
    rintro d ⟨⟩
    exact h

theorem readable_push (h : p.Readable) (b : UInt8) :
    (p.push b).1.Readable ∧ ∀ i, (p.push b).2 = some i → i.Readable := by
  cases p with
  | ground =>
    rw [push]
    split
    · exact ⟨readable_escape, by rintro i ⟨⟩⟩
    · refine ⟨readable_ground, fun i hi x hx => ?_⟩
      rw [numbers_single? hi] at hx
      cases hx
  | escape =>
    rw [push]
    split
    · exact ⟨readable_escape, by rintro i ⟨⟩⟩
    · exact readable_resume (by rintro x ⟨⟩)
  | arguments c => exact readable_resume ((h c rfl).push b)

theorem keeps_readable : Keeps Readable Instruction.Readable where
  ground := readable_ground
  push _ b h := readable_push h b

end Parser

end VatTerminal
