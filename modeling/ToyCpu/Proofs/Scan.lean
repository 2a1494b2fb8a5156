import ToyCpu.Memory.Lemmas

/-!
# Finding the next instruction

Cells are searched in the order of their addresses, so what is found is the first cell with a
letter from the program counter on.

* `Memory.HasLetter`, `Memory.IsNextAfter` — the same, said of addresses alone.
* `Memory.nextInstruction?_eq_some_iff` — what the search finds.
* `Memory.program` — all that a search can find, from an address on.
* `Memory.program_succ` — above the first cell of a program comes the rest of it.
-/

namespace ToyCpu

/-- The ASCII letters. -/
theorem isAlpha_iff (ch : Char) :
    ch.isAlpha = true ↔ ('A' ≤ ch ∧ ch ≤ 'Z') ∨ ('a' ≤ ch ∧ ch ≤ 'z') := by
  have hupper : ch.isUpper = true ↔ 'A' ≤ ch ∧ ch ≤ 'Z' := decide_eq_true_iff
  have hlower : ch.isLower = true ↔ 'a' ≤ ch ∧ ch ≤ 'z' := by
    show (decide ('a' ≤ ch) && decide (ch ≤ 'z')) = true ↔ _
    rw [Bool.and_eq_true, decide_eq_true_eq, decide_eq_true_eq]
  show (ch.isUpper || ch.isLower) = true ↔ _
  rw [Bool.or_eq_true, hupper, hlower]

/-- A cell looks like an instruction if its text has an ASCII letter in it. -/
theorem Cell.looksLikeInstruction_iff {cell : Cell} :
    cell.looksLikeInstruction = true ↔
      ∃ ch ∈ cell.text.toList, ('A' ≤ ch ∧ ch ≤ 'Z') ∨ ('a' ≤ ch ∧ ch ≤ 'z') := by
  simp only [looksLikeInstruction, List.any_eq_true, isAlpha_iff]

namespace Memory

/-- The address holds a cell, in the space of the instructions, with an ASCII letter in it. -/
def HasLetter (mem : Memory) (a : Address) : Prop :=
  ∃ cell, mem.get? .instruction a = some cell ∧
    ∃ ch ∈ cell.text.toList, ('A' ≤ ch ∧ ch ≤ 'Z') ∨ ('a' ≤ ch ∧ ch ≤ 'z')

/-- Of the addresses above `a` that have a letter `b` is the least. -/
def IsNextAfter (mem : Memory) (a b : Address) : Prop :=
  a < b ∧ mem.HasLetter b ∧ ∀ x, a < x → x < b → ¬ mem.HasLetter x

variable {mem : Memory} {start a b : Address}

theorem hasLetter_iff : mem.HasLetter a ↔
    ∃ cell, (a, cell) ∈ mem.cells .instruction ∧ cell.looksLikeInstruction = true := by
  unfold HasLetter
  refine exists_congr fun cell => ?_
  rw [Cell.looksLikeInstruction_iff, cells, AddressMap.mem_entries_iff]
  rfl

/-- The search finds the least address from `start` on that has a letter. -/
theorem nextInstruction?_least (h : mem.nextInstruction? start = some b) :
    start ≤ b ∧ mem.HasLetter b ∧ ∀ x, start ≤ x → x < b → ¬ mem.HasLetter x := by
  obtain ⟨⟨b, cell⟩, hfind, rfl⟩ := Option.map_eq_some_iff.mp h
  obtain ⟨hcell, before, after, hcells, hbefore⟩ := List.find?_eq_some_iff_append.mp hfind
  rw [Bool.and_eq_true, decide_eq_true_eq] at hcell
  have hmem : (b, cell) ∈ mem.cells .instruction := by
    rw [hcells]
    exact List.mem_append_right _ List.mem_cons_self
  refine ⟨hcell.1, hasLetter_iff.mpr ⟨cell, hmem, hcell.2⟩, fun x hstart hx hletter => ?_⟩
  obtain ⟨other, hother, hlooks⟩ := hasLetter_iff.mp hletter
  have hascending : Ascending (before ++ (b, cell) :: after) :=
    hcells ▸ (mem.space .instruction).ascending
  rw [hcells] at hother
  -- what stands before the cell found was passed over, and what comes after it is higher
  rcases List.mem_append.mp hother with hother | hother
  · have hpassed := hbefore _ hother
    simp [hstart, hlooks] at hpassed
  · obtain ⟨hhead, -⟩ := List.pairwise_cons.mp (List.pairwise_append.mp hascending).2.1
    rcases List.mem_cons.mp hother with heq | hother
    · cases heq
      exact UInt32.lt_irrefl _ hx
    · exact UInt32.lt_asymm hx (hhead _ hother)

/-- Nothing is found where no address from `start` on has a letter. -/
theorem nextInstruction?_eq_none_iff :
    mem.nextInstruction? start = none ↔ ∀ x, start ≤ x → ¬ mem.HasLetter x := by
  rw [nextInstruction?, Option.map_eq_none_iff, List.find?_eq_none]
  constructor
  · intro h x hstart hletter
    obtain ⟨cell, hcell, hlooks⟩ := hasLetter_iff.mp hletter
    exact h _ hcell (by simp [hstart, hlooks])
  · intro h e he hfound
    rw [Bool.and_eq_true, decide_eq_true_eq] at hfound
    exact h e.1 hfound.1 (hasLetter_iff.mpr ⟨e.2, he, hfound.2⟩)

/-- What is found is the least such address, and whatever is least is found. -/
theorem nextInstruction?_eq_some_iff : mem.nextInstruction? start = some b ↔
    start ≤ b ∧ mem.HasLetter b ∧ ∀ x, start ≤ x → x < b → ¬ mem.HasLetter x := by
  refine ⟨nextInstruction?_least, fun ⟨hstart, hletter, hleast⟩ => ?_⟩
  cases hfound : mem.nextInstruction? start with
  | none => exact absurd hletter (nextInstruction?_eq_none_iff.mp hfound b hstart)
  | some c =>
    obtain ⟨hstart', hletter', hleast'⟩ := nextInstruction?_least hfound
    -- both are least, so neither is below the other
    have hcb : ¬ c < b := fun h => hleast c hstart' h hletter'
    have hbc : ¬ b < c := fun h => hleast' b hstart h hletter
    rw [UInt32.le_antisymm (UInt32.not_lt.mp hbc) (UInt32.not_lt.mp hcb)]

/-- An instruction that is found can be fetched. -/
theorem fetch?_of_nextInstruction? (h : mem.nextInstruction? start = some a) :
    ∃ text, mem.fetch? a = some text := by
  obtain ⟨-, ⟨cell, hcell, -⟩, -⟩ := nextInstruction?_least h
  exact ⟨cell.text, by rw [fetch?, hcell]; rfl⟩

/-! ### Programs -/

/-- The cells from an address on that look like instructions, in the order of addresses. -/
def program (mem : Memory) (start : Address) : List (Address × Cell) :=
  (mem.cells .instruction).filter fun e => start ≤ e.1 && e.2.looksLikeInstruction

/-- Only the space of the instructions counts. -/
theorem program_congr {mem' : Memory} (h : mem'.space .instruction = mem.space .instruction)
    (start : Address) : mem'.program start = mem.program start := by
  rw [program, program, cells, cells, h]

theorem mem_program {a : Address} {cell : Cell} : (a, cell) ∈ mem.program start ↔
    start ≤ a ∧ mem.get? .instruction a = some cell ∧ cell.looksLikeInstruction = true := by
  rw [program, List.mem_filter, Bool.and_eq_true, decide_eq_true_eq, cells,
    AddressMap.mem_entries_iff]
  exact and_left_comm

theorem program_ascending (mem : Memory) (start : Address) : Ascending (mem.program start) :=
  (mem.space .instruction).ascending.filter _

/-- The search finds the first cell of the program. -/
theorem nextInstruction?_eq_head? (mem : Memory) (start : Address) :
    mem.nextInstruction? start = (mem.program start).head?.map (·.1) := by
  rw [program, List.head?_filter]
  rfl

variable {e : Address × Cell} {rest : List (Address × Cell)}

/-- The first cell of a program can be fetched. -/
theorem fetch?_of_program (h : mem.program start = e :: rest) : mem.fetch? e.1 = some e.2.text := by
  have hmem : (e.1, e.2) ∈ mem.program start := h ▸ List.mem_cons_self
  rw [fetch?, (mem_program.mp hmem).2.1]
  rfl

theorem lt_of_program (h : mem.program start = e :: rest) : ∀ x ∈ rest, e.1 < x.1 :=
  (List.pairwise_cons.mp (h ▸ mem.program_ascending start : Ascending (e :: rest))).1

/-- Above the first cell of a program comes the rest of it. -/
theorem program_succ (h : mem.program start = e :: rest) (hlast : e.1 + 1 ≠ 0) :
    mem.program (e.1 + 1) = rest := by
  have hmem : (e.1, e.2) ∈ mem.program start := h ▸ List.mem_cons_self
  have hstart : start ≤ e.1 := (mem_program.mp hmem).1
  -- to begin above the first cell is to leave out what is not above it
  have hfilter : mem.program (e.1 + 1) = (mem.program start).filter (e.1 < ·.1) := by
    rw [program, program, List.filter_filter]
    refine List.filter_congr fun x _ => ?_
    have habove : e.1 < x.1 → start ≤ x.1 := fun hx =>
      UInt32.le_trans hstart (UInt32.le_of_lt hx)
    rw [Bool.eq_iff_iff]
    simp only [Bool.and_eq_true, decide_eq_true_eq, succ_le_iff hlast]
    exact ⟨fun ⟨hx, hlooks⟩ => ⟨hx, habove hx, hlooks⟩, fun ⟨hx, _, hlooks⟩ => ⟨hx, hlooks⟩⟩
  rw [hfilter, h, List.filter_cons_of_neg (by simp)]
  exact List.filter_eq_self.mpr fun x hx => decide_eq_true (lt_of_program h x hx)

/-- Above the last address there is no more of a program. -/
theorem program_last (h : mem.program start = e :: rest) (hlast : e.1 + 1 = 0) : rest = [] :=
  List.eq_nil_iff_forall_not_mem.mpr fun x hx =>
    not_lt_of_succ_eq_zero hlast x.1 (lt_of_program h x hx)

end Memory

end ToyCpu
