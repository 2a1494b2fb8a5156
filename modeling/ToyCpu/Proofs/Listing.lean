import Mathlib.Data.List.Perm.Basic
import ToyCpu.CommandLine.Program
import ToyCpu.Proofs.Operations

/-!
# The listing of the cells

A cell of a split memory says twice what it is: by the space it is stored in and by its tag. The
listing of a machine's state goes through both spaces and picks by the tag, so a cell whose tag
does not name its space is left out. The listing is complete exactly if there is none, and no
operation on a memory makes one.

* `Memory.Tagged` — every cell is tagged with the kind of its space.
* `Memory.tagged_isInvariant` — every operation keeps it so.
* `Memory.IsListing` — each stored cell once, in the order of a listing.
* `Memory.isListing_iff_tagged` — the listing is one exactly if every tag is right.
* `cells_tagged_and_shown` — the tags and the listing of the machines that can be brought about.
-/

namespace ToyCpu

/-- Two tests of two lists lose nothing exactly if every element passes its own. -/
theorem filter_append_filter_perm_iff {α : Type} {p q : α → Bool} {l l' : List α} :
    (l.filter p ++ l'.filter q).Perm (l ++ l') ↔ (∀ x ∈ l, p x) ∧ ∀ x ∈ l', q x := by
  constructor
  · intro hperm
    -- neither list can make up for what the other loses
    have hlength := hperm.length_eq
    rw [List.length_append, List.length_append] at hlength
    have hle := List.length_filter_le p l
    have hle' := List.length_filter_le q l'
    exact ⟨List.length_filter_eq_length_iff.mp (by omega),
      List.length_filter_eq_length_iff.mp (by omega)⟩
  · rintro ⟨hp, hq⟩
    rw [List.filter_eq_self.mpr hp, List.filter_eq_self.mpr hq]

namespace Memory

variable {mem : Memory}

/-! ### Tags -/

/-- Where there is a space for each kind, every cell is tagged with the kind of its space. -/
def Tagged (mem : Memory) : Prop :=
  mem.architecture = .split → ∀ kind a cell, mem.get? kind a = some cell → cell.kind = kind

theorem tagged_empty (arch : Architecture) : (empty arch).Tagged := by
  intro _ kind a cell hcell
  cases arch <;> cases kind <;> cases hcell

/-- Where there is one space for both kinds, nothing is asked of the tags. -/
theorem tagged_of_unified (h : mem.architecture = .unified) : mem.Tagged := by
  intro hsplit
  rw [h] at hsplit
  cases hsplit

/-- A cell that is written gets the tag of the space it is written to. -/
theorem Tagged.set (h : mem.Tagged) (a : Address) (text : String) (kind : CellKind) :
    (mem.set a text kind).Tagged := by
  intro hsplit kind' b cell hcell
  rw [architecture_set] at hsplit
  rw [get?_set] at hcell
  split at hcell
  · next hwritten =>
    obtain rfl := Option.some.inj hcell
    rcases hwritten.1 with hunified | hkind
    · rw [hsplit] at hunified
      cases hunified
    · exact hkind
  · exact h hsplit kind' b cell hcell

/-- The cells that are left keep their tags. -/
theorem Tagged.delete (h : mem.Tagged) (kind : CellKind) (a : Address) :
    (mem.delete kind a).Tagged := by
  intro hsplit kind' b cell hcell
  rw [architecture_delete] at hsplit
  rw [get?_delete] at hcell
  split at hcell
  · cases hcell
  · exact h hsplit kind' b cell hcell

theorem tagged_clear (mem : Memory) : mem.clear.Tagged := by
  intro _ kind a cell hcell
  obtain ⟨spaces, policy⟩ := mem
  cases spaces <;> cases kind <;> cases hcell

/-- Clearing the instructions of a split memory leaves the data as it is. -/
theorem Tagged.clearInstructions (h : mem.Tagged) : mem.clearInstructions.Tagged := by
  intro hsplit kind a cell hcell
  rw [architecture_clearInstructions] at hsplit
  rw [get?_clearInstructions_of_split hsplit] at hcell
  split at hcell
  · cases hcell
  · exact h hsplit kind a cell hcell

/-- Every operation keeps the tags right. -/
theorem tagged_isInvariant : IsInvariant Tagged where
  set a text kind h := h.set a text kind
  delete kind a h := h.delete kind a
  clear _ := tagged_clear _
  clearInstructions h := h.clearInstructions
  setPolicy _ h := h

/-- No operation changes the layout. -/
theorem architecture_isInvariant (arch : Architecture) :
    IsInvariant fun mem => mem.architecture = arch where
  set _ _ _ h := (architecture_set _ _ _ _).trans h
  delete _ _ h := (architecture_delete _ _ _).trans h
  clear h := (architecture_clear _).trans h
  clearInstructions h := (architecture_clearInstructions _).trans h
  setPolicy _ h := h

/-! ### Listings -/

/-- The cells of all spaces. -/
def stored (mem : Memory) : List (Address × Cell) :=
  match mem.spaces with
  | .unified cells => cells.entries
  | .split instructions data => instructions.entries ++ data.entries

/-- The order of a listing: the instructions come before the data, and the cells of one kind by
their addresses. -/
def Precedes (e e' : Address × Cell) : Prop :=
  (e.2.kind = .instruction ∧ e'.2.kind = .data) ∨ (e.2.kind = e'.2.kind ∧ e.1 < e'.1)

/-- A list of each stored cell once, and of nothing else, in the order of a listing. -/
structure IsListing (mem : Memory) (l : List (Address × Cell)) : Prop where
  complete : l.Perm mem.stored
  once : l.Nodup
  ordered : l.Pairwise Precedes

/-- Lines that show the cells of a memory in a listing, after six lines of registers and before one
line with the count of instructions. -/
def ShownIn (mem : Memory) (lines : List String) : Prop :=
  ∃ (head : List String) (cells : List (Address × Cell)) (foot : String),
    head.length = 6 ∧ mem.IsListing cells ∧
      lines = head ++ cells.map (fun e => Program.cellLine e.1 e.2) ++ [foot]

theorem not_precedes_self (e : Address × Cell) : ¬ Precedes e e := by
  rintro (⟨hinstruction, hdata⟩ | ⟨-, hlt⟩)
  · rw [hinstruction] at hdata
    cases hdata
  · exact UInt32.lt_irrefl e.1 hlt

/-- The cells that one kind has in the listing are in order. -/
theorem ordered_filter (mem : Memory) (kind : CellKind) :
    ((mem.cells kind).filter (·.2.kind == kind)).Pairwise Precedes := by
  refine List.Pairwise.imp_of_mem ?_ ((mem.space kind).ascending.filter _)
  intro e e' he he' hlt
  have hkind : e.2.kind = kind := beq_iff_eq.mp (List.mem_filter.mp he).2
  have hkind' : e'.2.kind = kind := beq_iff_eq.mp (List.mem_filter.mp he').2
  exact .inr ⟨hkind.trans hkind'.symm, hlt⟩

/-- Whatever is in it, the listing is in order. -/
theorem listing_ordered (mem : Memory) : mem.listing.Pairwise Precedes := by
  refine List.pairwise_append.mpr ⟨mem.ordered_filter .instruction, mem.ordered_filter .data, ?_⟩
  intro e he e' he'
  exact .inl ⟨beq_iff_eq.mp (List.mem_filter.mp he).2, beq_iff_eq.mp (List.mem_filter.mp he').2⟩

/-- In a split memory the tags are right where each space holds its own kind only. -/
theorem tagged_split_iff {instructions data : AddressMap Cell} {policy : LoadPolicy} :
    Tagged ⟨.split instructions data, policy⟩ ↔
      (∀ e ∈ instructions.entries, e.2.kind = .instruction) ∧
        ∀ e ∈ data.entries, e.2.kind = .data := by
  constructor
  · intro h
    exact ⟨fun e he => h rfl .instruction e.1 e.2 (AddressMap.mem_entries_iff.mp he),
      fun e he => h rfl .data e.1 e.2 (AddressMap.mem_entries_iff.mp he)⟩
  · rintro ⟨hinstructions, hdata⟩ - kind a cell hcell
    cases kind with
    | instruction => exact hinstructions (a, cell) (AddressMap.mem_entries_iff.mpr hcell)
    | data => exact hdata (a, cell) (AddressMap.mem_entries_iff.mpr hcell)

/-- The listing holds every stored cell exactly if every tag is right. -/
theorem listing_perm_stored_iff (mem : Memory) : mem.listing.Perm mem.stored ↔ mem.Tagged := by
  obtain ⟨spaces, policy⟩ := mem
  cases spaces with
  | unified cells =>
    -- a cell of the one space passes just one of the two tests
    refine iff_of_true ?_ nofun
    have hdata : (fun e : Address × Cell => e.2.kind == .data) =
        fun e => !(e.2.kind == .instruction) := by
      funext e
      cases e.2.kind <;> rfl
    show (cells.entries.filter (·.2.kind == .instruction) ++
      cells.entries.filter (·.2.kind == .data)).Perm cells.entries
    rw [hdata]
    exact List.filter_append_perm _ _
  | split instructions data =>
    rw [tagged_split_iff]
    show (instructions.entries.filter (·.2.kind == .instruction) ++
      data.entries.filter (·.2.kind == .data)).Perm (instructions.entries ++ data.entries) ↔ _
    simp only [filter_append_filter_perm_iff, beq_iff_eq]

/-- So it lists the memory exactly then, since it is always in order. -/
theorem isListing_iff_tagged (mem : Memory) : mem.IsListing mem.listing ↔ mem.Tagged := by
  constructor
  · intro h
    exact mem.listing_perm_stored_iff.mp h.complete
  · intro h
    have hordered := mem.listing_ordered
    refine ⟨mem.listing_perm_stored_iff.mpr h, hordered.imp ?_, hordered⟩
    rintro e e' hprecedes rfl
    exact not_precedes_self e hprecedes

/-- A cell with a wrong tag is hidden. -/
example :
    Memory.listing ⟨.split (.ofList [(0, ⟨"MOV R1, #1", .data⟩)]) .empty, .overwrite⟩ = [] := by
  decide

end Memory

/-! ### Machines -/

/-- Where every tag is right, the state of a machine shows every cell. -/
theorem Program.stateLines_show {m : Machine} (h : m.memory.Tagged) :
    m.memory.ShownIn (stateLines m) :=
  ⟨_, m.memory.listing, _, rfl, m.memory.isListing_iff_tagged.mpr h, rfl⟩

namespace Machine

variable {arch : Architecture} {m : Machine}

theorem Built.architecture_eq (h : m.Built arch) : m.memory.architecture = arch :=
  (Memory.architecture_isInvariant arch).operated (Memory.architecture_empty arch) h.operated

theorem Built.tagged (h : m.Built arch) : m.memory.Tagged :=
  Memory.tagged_isInvariant.operated (Memory.tagged_empty arch) h.operated

end Machine

/-- In a split machine that is brought about from an empty memory every cell is tagged with the
kind of its space. So the state of such a machine, and of any unified one, shows each stored cell
once, the instructions before the data, and each kind in ascending address order. -/
theorem cells_tagged_and_shown (m : Machine) :
    (m.Built .split → ∀ kind a cell, m.memory.get? kind a = some cell → cell.kind = kind) ∧
    (m.memory.architecture = .unified ∨ m.Built .split →
      m.memory.ShownIn (Program.stateLines m)) := by
  constructor
  · intro hbuilt
    exact hbuilt.tagged hbuilt.architecture_eq
  · rintro (hunified | hbuilt)
    · exact Program.stateLines_show (Memory.tagged_of_unified hunified)
    · exact Program.stateLines_show hbuilt.tagged

/-- A program that stores to the data at the address of its own instruction, just after it has
done so. The program and a value were entered by a host that named no space. -/
def storedBeside : Session :=
  let entered := ((Machine.new (.empty .split)).apply (.setCell 5 " STORE R1, 5 " none)).1
  let machine := (entered.apply (.setCell 1000 "7" none)).1
  ((Session.new machine Architecture.split.defaultTimings).performAll [.step, .step, .step]).1

/-- Saved and loaded again, it shows both cells at the address, and the value. -/
theorem storedBeside_shown :
    let m := storedBeside.machine.reloaded
    m.Built .split ∧
      m.memory.get? .instruction 5 = some ⟨"STORE R1, 5", .instruction⟩ ∧
      m.memory.get? .data 5 = some ⟨"0", .data⟩ ∧
      (∀ kind a cell, m.memory.get? kind a = some cell → cell.kind = kind) ∧
      m.memory.ShownIn (Program.stateLines m) ∧
      (Program.stateLines m).drop 6 = ["[0005] Instruction STORE R1, 5", "[0005] Data        0",
        "[1000] Data        7", "1 instruction(s) executed"] := by
  intro m
  have hentered : Machine.Built .split _ :=
    (Machine.Built.new.apply (.setCell 5 " STORE R1, 5 " none)).apply (.setCell 1000 "7" none)
  have hstored := hentered.session
    (Session.performAll_reaches (Session.new _ Architecture.split.defaultTimings)
      [.step, .step, .step])
  have hbuilt : m.Built .split := hstored.reload (Snapshot.load?_save _)
  obtain ⟨htags, hshown⟩ := cells_tagged_and_shown m
  refine ⟨hbuilt, ?_, ?_, htags hbuilt, hshown (.inr hbuilt), ?_⟩
  · decide +kernel
  · decide +kernel
  · decide +kernel

end ToyCpu
