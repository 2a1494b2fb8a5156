import Mathlib.Data.List.Forall2
import ToyCpu.Proofs.FreeAddresses

/-!
# Appended programs

A program is appended line by line, and each line is written where the search that follows the
writes before it finds a gap. The invariant is that what is written was free: so a line takes one
free address away and touches nothing else, the next least free address lies above it, and the
addresses of all lines are the least free ones in order, as many as there are lines.

* `Memory.IsFree`, `Memory.HasRoom` — the addresses for instructions, and that there are enough.
* `Memory.Appended` — lines that were written to the least free addresses.
* `Memory.Appended.cons` — one more line before the others.
* `Memory.appendLines_spec` — appended lines are written so, and the search never fails.
* `Memory.DataAdded`, `Memory.setData_spec` — the same for a single value of data.
* `Memory.appendLines_append` — lines appended in two parts.
* `append_loading` — programs and data loaded into a memory that appends.
-/

namespace ToyCpu

/-- A line break between texts separates their lines. -/
theorem Text.lines_append (first second : String) :
    lines (first ++ "\n" ++ second) = lines first ++ lines second := by
  have hsplit : (first ++ "\n" ++ second).toList.splitOn '\n'
      = first.toList.splitOn '\n' ++ second.toList.splitOn '\n' := by
    rw [String.toList_append, String.toList_append, List.append_assoc]
    exact List.splitOnP_append_cons _ _ (by decide)
  unfold lines
  rw [hsplit, List.map_append, List.filter_append, List.map_append]

namespace Memory

variable {mem final : Memory} {a : Address} {line : String} {rest : List String}
  {placed : List Address}

/-! ### Room for instructions -/

/-- An address is free for an instruction. -/
def IsFree (mem : Memory) (a : Address) : Prop :=
  mem.entry ≤ a ∧ mem.get? .instruction a = none

/-- At least `n` addresses are free for instructions. -/
def HasRoom (mem : Memory) (n : Nat) : Prop :=
  ∃ free : List Address, free.Nodup ∧ n ≤ free.length ∧ ∀ a ∈ free, mem.IsFree a

/-- A line takes its own address away and no other. -/
theorem isFree_set_iff (mem : Memory) (a b : Address) (line : String) :
    (mem.set a line .instruction).IsFree b ↔ mem.IsFree b ∧ b ≠ a := by
  unfold IsFree
  rw [entry_congr (architecture_set mem a line .instruction), get?_set]
  by_cases hab : a = b
  · simp [hab]
  · simp [hab, Ne.symm hab]

theorem HasRoom.exists_isFree {n : Nat} (h : mem.HasRoom (n + 1)) : ∃ x, mem.IsFree x := by
  obtain ⟨free, -, hlength, hfree⟩ := h
  obtain ⟨x, hx⟩ := List.exists_mem_of_length_pos (Nat.lt_of_lt_of_le n.succ_pos hlength)
  exact ⟨x, hfree x hx⟩

/-- It leaves room for all other lines. -/
theorem HasRoom.set {n : Nat} (h : mem.HasRoom (n + 1)) (a : Address) (line : String) :
    (mem.set a line .instruction).HasRoom n := by
  obtain ⟨free, hnodup, hlength, hfree⟩ := h
  refine ⟨free.erase a, hnodup.erase a, ?_, ?_⟩
  · have herase := List.le_length_erase (a := a) (l := free)
    omega
  · intro b hb
    obtain ⟨hne, hmem⟩ := hnodup.mem_erase_iff.mp hb
    exact (isFree_set_iff mem a b line).mpr ⟨hfree b hmem, hne⟩

/-! ### Lines at the least free addresses -/

/-- Lines were written to the least free addresses, in ascending order, and nothing else was
changed. -/
structure Appended (mem : Memory) (lines : List String) (final : Memory) (placed : List Address) :
    Prop where
  ascending : placed.Pairwise (· < ·)
  free : ∀ a ∈ placed, mem.IsFree a
  least : ∀ b, mem.IsFree b → b ∈ placed ∨ ∀ a ∈ placed, a < b
  written : List.Forall₂ (fun a line => final.get? .instruction a = some ⟨line, .instruction⟩)
    placed lines
  same : ∀ kind b, (b ∈ placed → mem.architecture = .split ∧ kind ≠ .instruction) →
    final.get? kind b = mem.get? kind b
  architecture : final.architecture = mem.architecture
  policy : final.policy = mem.policy

theorem Appended.nil (mem : Memory) : mem.Appended [] mem [] where
  ascending := .nil
  free := nofun
  least := fun _ _ => .inr nofun
  written := .nil
  same := fun _ _ _ => rfl
  architecture := rfl
  policy := rfl

/-- A line at the least free address comes before the lines that are appended after it. -/
theorem Appended.cons (hleast : (mem.space .instruction).IsLeastFree mem.entry a)
    (h : (mem.set a line .instruction).Appended rest final placed) :
    mem.Appended (line :: rest) final (a :: placed) := by
  have ha : mem.IsFree a := ⟨hleast.start_le, hleast.free⟩
  have hlater : ∀ b ∈ placed, mem.IsFree b ∧ b ≠ a :=
    fun b hb => (isFree_set_iff mem a b line).mp (h.free b hb)
  have hlt {b : Address} (hb : mem.IsFree b) (hne : b ≠ a) : a < b :=
    UInt32.lt_of_le_of_ne (hleast.le_of_free b hb.1 hb.2) (Ne.symm hne)
  constructor
  · exact List.pairwise_cons.mpr
      ⟨fun b hb => hlt (hlater b hb).1 (hlater b hb).2, h.ascending⟩
  · exact List.forall_mem_cons.mpr ⟨ha, fun b hb => (hlater b hb).1⟩
  · -- a free address is the first line's, or free for the others and above it
    intro b hb
    by_cases hne : b = a
    · exact .inl (hne ▸ List.mem_cons_self)
    · rcases h.least b ((isFree_set_iff mem a b line).mpr ⟨hb, hne⟩) with hmem | habove
      · exact .inl (List.mem_cons_of_mem a hmem)
      · exact .inr (List.forall_mem_cons.mpr ⟨hlt hb hne, habove⟩)
  · -- no later line is written over the first one
    refine .cons ?_ h.written
    have hkept : final.get? .instruction a = (mem.set a line .instruction).get? .instruction a :=
      h.same .instruction a fun hmem => absurd rfl (hlater a hmem).2
    rw [hkept, get?_set, if_pos ⟨.inr rfl, rfl⟩]
  · intro kind b hb
    have hrest : final.get? kind b = (mem.set a line .instruction).get? kind b := by
      refine h.same kind b fun hmem => ?_
      rw [architecture_set]
      exact hb (List.mem_cons_of_mem a hmem)
    refine hrest.trans (get?_set_of_apart ?_ line)
    rintro rfl
    exact hb List.mem_cons_self
  · rw [h.architecture, architecture_set]
  · rw [h.policy, policy_set]

/-- No cell that was there before has changed. -/
theorem Appended.get?_of_isSome {lines : List String} (h : mem.Appended lines final placed)
    {kind : CellKind} {b : Address} (hb : (mem.get? kind b).isSome) :
    final.get? kind b = mem.get? kind b := by
  refine h.same kind b fun hmem => ?_
  have hfree := (h.free b hmem).2
  -- a cell that was there is not at a free address, unless it is in the other space
  cases harch : mem.architecture with
  | unified =>
    rw [get?_of_unified harch kind .instruction, hfree] at hb
    cases hb
  | split =>
    refine ⟨rfl, ?_⟩
    rintro rfl
    rw [hfree] at hb
    cases hb

/-- Writes each line to the address that is then the least free one, counted with a check. -/
def appendLines? (mem : Memory) : List String → Option (Memory × List Address)
  | [] => some (mem, [])
  | line :: rest =>
    mem.nextFreeInstruction?.bind fun a =>
      ((mem.set a line .instruction).appendLines? rest).map fun (final, placed) =>
        (final, a :: placed)

/-- Where there is room, lines are appended at the least free addresses, and none of the searches
counts past the last address. -/
theorem appendLines_spec (lines : List String) (h : mem.HasRoom lines.length) :
    mem.appendLines? lines = some (mem.appendLines lines) ∧
      mem.Appended lines (mem.appendLines lines).1 (mem.appendLines lines).2 := by
  induction lines generalizing mem with
  | nil => exact ⟨rfl, .nil mem⟩
  | cons line rest ih =>
    obtain ⟨hcount, -, hleast⟩ := nextFreeInstruction_spec h.exists_isFree
    -- the line takes one address, so the others still have room
    have hroom : (mem.set mem.nextFreeInstruction line .instruction).HasRoom rest.length :=
      h.set mem.nextFreeInstruction line
    obtain ⟨hcheck, happended⟩ := ih hroom
    constructor
    · rw [appendLines?, hcount, Option.bind_some, hcheck]
      rfl
    · exact happended.cons hleast

/-- Appending does what it does to the first lines and then to the others. -/
theorem appendLines_append (mem : Memory) (first second : List String) :
    mem.appendLines (first ++ second) =
      (((mem.appendLines first).1.appendLines second).1,
        (mem.appendLines first).2 ++ ((mem.appendLines first).1.appendLines second).2) := by
  induction first generalizing mem with
  | nil => rfl
  | cons line rest ih =>
    rw [List.cons_append, appendLines, ih]
    rfl

theorem policy_appendLines (mem : Memory) (lines : List String) :
    (mem.appendLines lines).1.policy = mem.policy := by
  induction lines generalizing mem with
  | nil => rfl
  | cons line rest ih => exact (ih _).trans (policy_set _ _ _ _)

theorem loadProgram_of_append (h : mem.policy = .append) (text : String) :
    mem.loadProgram text = mem.appendLines (Text.lines text) := by
  unfold loadProgram
  rw [h]
  cases Text.lines text with
  | nil => rfl
  | cons line rest => rfl

/-! ### Data -/

/-- A text was written as data to the least free address of the data range, and nothing else was
changed. -/
structure DataAdded (mem : Memory) (text : String) (final : Memory) (a : Address) : Prop where
  least : (mem.space .data).IsLeastFree dataBase a
  written : final.get? .data a = some ⟨text, .data⟩
  same : ∀ kind b, (b = a → mem.architecture = .split ∧ kind ≠ .data) →
    final.get? kind b = mem.get? kind b
  architecture : final.architecture = mem.architecture
  policy : final.policy = mem.policy

/-- Where the data range has a free address, a value that is not blank is put at the least one,
and the search does not count past the last address. -/
theorem setData_spec {value : String} (hvalue : (Text.trim value).isEmpty = false)
    (h : ∃ x, dataBase ≤ x ∧ mem.get? .data x = none) :
    ∃ a, mem.nextFreeData? = some a ∧ (mem.setData value).2 = some a ∧
      mem.DataAdded (Text.trim value) (mem.setData value).1 a := by
  obtain ⟨hcount, hleast⟩ := nextFreeData_spec h
  have hset : mem.setData value
      = (mem.set mem.nextFreeData (Text.trim value) .data, some mem.nextFreeData) := by
    unfold setData
    simp only
    rw [hvalue, if_neg nofun]
  rw [hset]
  refine ⟨mem.nextFreeData, hcount, rfl, ?_⟩
  constructor
  · exact hleast
  · rw [get?_set, if_pos ⟨.inr rfl, rfl⟩]
  · exact fun kind b hb => get?_set_of_apart hb _
  · exact architecture_set _ _ _ _
  · exact policy_set _ _ _ _

end Memory

/-- A memory that appends puts the lines of a program at the least free addresses from its entry
on, as many as there are lines and in ascending order, gives those addresses, and changes nothing
else, so that no cell is overwritten. Its searches come to an end before the last address, and
where a unified memory searches two ranges it finds what one search finds. The same goes for a
single value of data and the data range. And two programs that are loaded one after the other are
loaded like one with a line break between them. -/
theorem append_loading (mem : Memory) :
    (mem.policy = .append → ∀ text, mem.HasRoom (Text.lines text).length →
      mem.appendLines? (Text.lines text) = some (mem.loadProgram text) ∧
      mem.Appended (Text.lines text) (mem.loadProgram text).1 (mem.loadProgram text).2 ∧
      ∀ kind b, (mem.get? kind b).isSome →
        (mem.loadProgram text).1.get? kind b = mem.get? kind b) ∧
    ((∃ x, mem.IsFree x) →
      mem.nextFreeInstruction = (mem.space .instruction).firstGap mem.entry) ∧
    (∀ value, (Text.trim value).isEmpty = false →
      (∃ x, dataBase ≤ x ∧ mem.get? .data x = none) →
      ∃ a, mem.nextFreeData? = some a ∧ (mem.setData value).2 = some a ∧
        mem.DataAdded (Text.trim value) (mem.setData value).1 a) ∧
    (mem.policy = .append → ∀ first second,
      mem.loadProgram (first ++ "\n" ++ second) =
        (((mem.loadProgram first).1.loadProgram second).1,
          (mem.loadProgram first).2 ++ ((mem.loadProgram first).1.loadProgram second).2)) := by
  refine ⟨?_, ?_, ?_, ?_⟩
  · intro hpolicy text hroom
    rw [Memory.loadProgram_of_append hpolicy]
    obtain ⟨hcheck, happended⟩ := Memory.appendLines_spec (Text.lines text) hroom
    exact ⟨hcheck, happended, fun kind b hb => happended.get?_of_isSome hb⟩
  · exact fun hfree => (Memory.nextFreeInstruction_spec hfree).2.1
  · exact fun value hvalue hfree => Memory.setData_spec hvalue hfree
  · intro hpolicy first second
    have hpolicy' : (mem.appendLines (Text.lines first)).1.policy = .append := by
      rw [Memory.policy_appendLines, hpolicy]
    rw [Memory.loadProgram_of_append hpolicy, Memory.loadProgram_of_append hpolicy,
      Memory.loadProgram_of_append hpolicy', Text.lines_append, Memory.appendLines_append]

/-- A gap in the seed program is filled before anything goes after the program. -/
theorem append_loading_fills_gap :
    ((Memory.seeded .unified).delete .instruction 3).HasRoom 2 ∧
      ((Memory.seeded .unified).delete .instruction 3).Appended ["MUL R1, R1, R1", "LOAD R2, 1001"]
        (((Memory.seeded .unified).delete .instruction 3).loadProgram
          "MUL R1, R1, R1\n\n  LOAD R2, 1001 \n").1 [3, 8] := by
  have hfree : ∀ a ∈ [3, 8], ((Memory.seeded .unified).delete .instruction 3).IsFree a :=
    List.forall_mem_cons.mpr ⟨⟨by decide, rfl⟩, List.forall_mem_singleton.mpr ⟨by decide, rfl⟩⟩
  have hroom : ((Memory.seeded .unified).delete .instruction 3).HasRoom 2 :=
    ⟨[3, 8], by decide, by decide, hfree⟩
  have hlines : Text.lines "MUL R1, R1, R1\n\n  LOAD R2, 1001 \n"
      = ["MUL R1, R1, R1", "LOAD R2, 1001"] := by decide
  have hload := (append_loading ((Memory.seeded .unified).delete .instruction 3)).1 rfl
    "MUL R1, R1, R1\n\n  LOAD R2, 1001 \n" (by rw [hlines]; exact hroom)
  have hplaced : (((Memory.seeded .unified).delete .instruction 3).loadProgram
      "MUL R1, R1, R1\n\n  LOAD R2, 1001 \n").2 = [3, 8] := by decide
  rw [hlines, hplaced] at hload
  exact ⟨hroom, hload.2.1⟩

end ToyCpu
