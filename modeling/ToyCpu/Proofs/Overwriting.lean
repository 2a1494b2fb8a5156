import Mathlib.Data.List.Forall2
import ToyCpu.Memory.Lemmas

/-!
# Overwritten programs

A program that overwrites another is written line by line from the entry address on, after the
instructions have been cleared. What a look-up gives afterwards can be read off at once: at an
address that is as far from the entry as a line is from the first one it is that line, whatever was
there before, and elsewhere it is what the clearing has left. Neither the lines nor the clearing
see what was loaded before, so to load a program again changes nothing.

* `Memory.lineAt` — the line that falls on an address.
* `Memory.get?_placeFrom`, `Memory.map_toNat_placeFrom` — lines written in a row.
* `Memory.Overwritten` — a memory whose program is a given one.
* `overwrite_loading` — programs loaded into a memory that overwrites.
-/

namespace ToyCpu

namespace Memory

variable {mem : Memory}

/-! ### Clearing -/

/-- There is nothing to clear where clearing has been done. -/
theorem get?_clearInstructions_again {mem' : Memory} {kind : CellKind} {a : Address}
    (harch : mem'.architecture = mem.architecture)
    (h : mem'.get? kind a = mem.clearInstructions.get? kind a) :
    mem'.clearInstructions.get? kind a = mem.clearInstructions.get? kind a := by
  cases hlayout : mem.architecture with
  | unified =>
    rw [get?_clearInstructions_of_unified (harch.trans hlayout), h,
      get?_clearInstructions_of_unified hlayout, Option.filter_filter]
    simp only [Bool.and_self]
  | split =>
    rw [get?_clearInstructions_of_split (harch.trans hlayout), h,
      get?_clearInstructions_of_split hlayout]
    by_cases hkind : kind = .instruction
    · rw [if_pos hkind, if_pos hkind]
    · rw [if_neg hkind, if_neg hkind]

/-! ### Lines in a row -/

/-- At the last address there is room for one line only. -/
theorem placeFrom_last (mem : Memory) {a : Address} (h : a + 1 = 0) (line : String)
    (rest : List String) :
    mem.placeFrom a (line :: rest) = (mem.set a line .instruction, [a]) := by
  rw [placeFrom, if_pos h]

theorem placeFrom_cons (mem : Memory) {a : Address} (h : a + 1 ≠ 0) (line : String)
    (rest : List String) :
    mem.placeFrom a (line :: rest) =
      (((mem.set a line .instruction).placeFrom (a + 1) rest).1,
        a :: ((mem.set a line .instruction).placeFrom (a + 1) rest).2) := by
  rw [placeFrom, if_neg h]

theorem placeFrom_keeps (mem : Memory) (a : Address) (lines : List String) :
    (mem.placeFrom a lines).1.architecture = mem.architecture ∧
      (mem.placeFrom a lines).1.policy = mem.policy := by
  induction lines generalizing mem a with
  | nil => exact ⟨rfl, rfl⟩
  | cons line rest ih =>
    by_cases hlast : a + 1 = 0
    · rw [placeFrom_last mem hlast]
      exact ⟨architecture_set _ _ _ _, policy_set _ _ _ _⟩
    · obtain ⟨harch, hpolicy⟩ := ih (mem.set a line .instruction) (a + 1)
      rw [placeFrom_cons mem hlast, harch, hpolicy]
      exact ⟨architecture_set _ _ _ _, policy_set _ _ _ _⟩

/-- Lines are written to consecutive addresses, as far as there are any. -/
theorem map_toNat_placeFrom (mem : Memory) (a : Address) (lines : List String) :
    (mem.placeFrom a lines).2.map UInt32.toNat =
      List.range' a.toNat (min lines.length (2 ^ 32 - a.toNat)) := by
  induction lines generalizing mem a with
  | nil =>
    rw [List.length_nil, Nat.zero_min]
    rfl
  | cons line rest ih =>
    have hlt := a.toNat_lt
    rw [List.length_cons]
    by_cases hlast : a + 1 = 0
    · have hone : min (rest.length + 1) (2 ^ 32 - a.toNat) = 1 := by
        rw [toNat_of_succ_eq_zero hlast]
        omega
      rw [placeFrom_last mem hlast, hone]
      rfl
    · have hsucc := toNat_succ_of_ne_zero hlast
      have hcount : min (rest.length + 1) (2 ^ 32 - a.toNat)
          = min rest.length (2 ^ 32 - (a + 1).toNat) + 1 := by omega
      rw [placeFrom_cons mem hlast, hcount, List.range'_succ, ← hsucc, List.map_cons, ih]

/-- The line that falls on an address when lines are written from `a` on. -/
def lineAt (a : Address) (lines : List String) (b : Address) : Option String :=
  if a ≤ b then lines[b.toNat - a.toNat]? else none

section

variable {a b : Address} {line : String} {rest : List String}

theorem lineAt_of_lt (h : b < a) (lines : List String) : lineAt a lines b = none :=
  if_neg (UInt32.not_le.mpr h)

theorem lineAt_nil (a b : Address) : lineAt a [] b = none := by
  unfold lineAt
  rw [List.getElem?_nil, ite_self]

theorem lineAt_cons_self (a : Address) (line : String) (rest : List String) :
    lineAt a (line :: rest) a = some line := by
  unfold lineAt
  rw [if_pos (UInt32.le_refl a), Nat.sub_self, List.getElem?_cons_zero]

theorem lineAt_cons_of_lt (h : a < b) : lineAt a (line :: rest) b = lineAt (a + 1) rest b := by
  have hnext : a + 1 ≠ 0 := fun hlast => not_lt_of_succ_eq_zero hlast b h
  have hsucc := toNat_succ_of_ne_zero hnext
  have hlt := UInt32.lt_iff_toNat_lt.mp h
  have hindex : b.toNat - a.toNat = b.toNat - (a + 1).toNat + 1 := by omega
  unfold lineAt
  rw [if_pos (UInt32.le_of_lt h), if_pos ((succ_le_iff hnext).mpr h), hindex,
    List.getElem?_cons_succ]

/-- Either the first line falls on an address or, if there is a next address, another one may. -/
theorem lineAt_cons (h : a ≠ b) :
    lineAt a (line :: rest) b = if a + 1 = 0 then none else lineAt (a + 1) rest b := by
  by_cases hlt : a < b
  · rw [if_neg fun hlast => not_lt_of_succ_eq_zero hlast b hlt, lineAt_cons_of_lt hlt]
  · have hbefore : b < a := UInt32.lt_of_le_of_ne (UInt32.not_lt.mp hlt) (Ne.symm h)
    rw [lineAt_of_lt hbefore]
    by_cases hlast : a + 1 = 0
    · rw [if_pos hlast]
    · rw [if_neg hlast, lineAt_of_lt (UInt32.lt_trans hbefore (lt_succ_of_ne_zero hlast))]

end

/-- What a look-up gives after lines were written from an address on. -/
theorem get?_placeFrom (mem : Memory) (a : Address) (lines : List String) (kind : CellKind)
    (b : Address) :
    (mem.placeFrom a lines).1.get? kind b =
      if mem.architecture = .unified ∨ .instruction = kind then
        (lineAt a lines b).elim (mem.get? kind b) fun line => some ⟨line, .instruction⟩
      else mem.get? kind b := by
  induction lines generalizing mem a with
  | nil => rw [lineAt_nil, Option.elim_none, ite_self, placeFrom]
  | cons line rest ih =>
    by_cases hab : a = b
    · subst hab
      have hset : (mem.set a line .instruction).get? kind a =
          if mem.architecture = .unified ∨ .instruction = kind then some ⟨line, .instruction⟩
          else mem.get? kind a := by
        rw [get?_set]
        simp only [and_true]
      rw [lineAt_cons_self, Option.elim_some, ← hset]
      by_cases hlast : a + 1 = 0
      · rw [placeFrom_last mem hlast]
      · -- the other lines are written above
        rw [placeFrom_cons mem hlast, ih, lineAt_of_lt (lt_succ_of_ne_zero hlast),
          Option.elim_none, ite_self]
    · have hset : (mem.set a line .instruction).get? kind b = mem.get? kind b :=
        get?_set_of_apart (fun h => absurd h.symm hab) line
      rw [lineAt_cons hab]
      by_cases hlast : a + 1 = 0
      · rw [if_pos hlast, Option.elim_none, ite_self, placeFrom_last mem hlast, hset]
      · rw [if_neg hlast, placeFrom_cons mem hlast, ih, architecture_set, hset]

/-- If there are enough addresses, each line falls on the address that is given for it. -/
theorem lineAt_placeFrom (mem : Memory) (a : Address) (lines : List String)
    (h : lines.length ≤ 2 ^ 32 - a.toNat) :
    List.Forall₂ (fun b line => lineAt a lines b = some line) (mem.placeFrom a lines).2 lines := by
  induction lines generalizing mem a with
  | nil => exact .nil
  | cons line rest ih =>
    rw [List.length_cons] at h
    by_cases hlast : a + 1 = 0
    · have hnone : rest = [] := by
        rw [toNat_of_succ_eq_zero hlast] at h
        exact List.eq_nil_of_length_eq_zero (by omega)
      rw [placeFrom_last mem hlast, hnone]
      exact .cons (lineAt_cons_self a line []) .nil
    · have hsucc := toNat_succ_of_ne_zero hlast
      rw [placeFrom_cons mem hlast]
      refine .cons (lineAt_cons_self a line rest) ((ih _ (a + 1) (by omega)).imp ?_)
      intro b line' hb
      have hlt : a < b := by
        refine (succ_le_iff hlast).mp (UInt32.not_lt.mp fun hbefore => ?_)
        rw [lineAt_of_lt hbefore] at hb
        cases hb
      rw [lineAt_cons_of_lt hlt, hb]

/-- No other address has a line on it. -/
theorem lineAt_of_not_mem (mem : Memory) {a b : Address} (lines : List String)
    (h : b ∉ (mem.placeFrom a lines).2) : lineAt a lines b = none := by
  induction lines generalizing mem a with
  | nil => exact lineAt_nil a b
  | cons line rest ih =>
    by_cases hlast : a + 1 = 0
    · rw [placeFrom_last mem hlast, List.mem_singleton] at h
      rw [lineAt_cons (Ne.symm h), if_pos hlast]
    · rw [placeFrom_cons mem hlast, List.mem_cons, not_or] at h
      rw [lineAt_cons (Ne.symm h.1), if_neg hlast, ih _ h.2]

/-! ### Overwriting -/

/-- The program of a memory is the given one, at consecutive addresses from the entry on, and
otherwise there is only the data that was there before. -/
structure Overwritten (mem : Memory) (lines : List String) (final : Memory)
    (placed : List Address) : Prop where
  consecutive : placed.map UInt32.toNat = List.range' mem.entry.toNat lines.length
  written : List.Forall₂ (fun a line => final.get? .instruction a = some ⟨line, .instruction⟩)
    placed lines
  unified : mem.architecture = .unified → ∀ kind b, b ∉ placed →
    final.get? kind b = (mem.get? kind b).filter fun cell => cell.kind == .data
  instructions : mem.architecture = .split → ∀ b, b ∉ placed → final.get? .instruction b = none
  data : mem.architecture = .split → final.space .data = mem.space .data
  architecture : final.architecture = mem.architecture
  policy : final.policy = mem.policy

theorem loadProgram_of_overwrite (h : mem.policy = .overwrite) {text : String}
    (hlines : Text.lines text ≠ []) :
    mem.loadProgram text = mem.clearInstructions.placeFrom mem.entry (Text.lines text) := by
  unfold loadProgram
  rw [h]
  cases hsplit : Text.lines text with
  | nil => exact absurd hsplit hlines
  | cons line rest => rfl

theorem loadProgram_of_no_lines (mem : Memory) {text : String} (h : Text.lines text = []) :
    mem.loadProgram text = (mem, []) := by
  unfold loadProgram
  rw [h]

/-- Lines that are placed after the clearing are all of the program, if there are enough
addresses. -/
theorem placeFrom_overwritten (mem : Memory) {lines : List String}
    (h : lines.length ≤ 2 ^ 32 - mem.entry.toNat) :
    mem.Overwritten lines (mem.clearInstructions.placeFrom mem.entry lines).1
      (mem.clearInstructions.placeFrom mem.entry lines).2 := by
  have hlook := get?_placeFrom mem.clearInstructions mem.entry lines
  obtain ⟨harch, hpolicy⟩ := placeFrom_keeps mem.clearInstructions mem.entry lines
  rw [architecture_clearInstructions] at hlook harch
  constructor
  · rw [map_toNat_placeFrom, Nat.min_eq_left h]
  · refine (lineAt_placeFrom mem.clearInstructions mem.entry lines h).imp ?_
    intro a line ha
    rw [hlook, if_pos (.inr rfl), ha, Option.elim_some]
  · intro hunified kind b hb
    rw [hlook, if_pos (.inl hunified), lineAt_of_not_mem _ lines hb, Option.elim_none,
      get?_clearInstructions_of_unified hunified]
  · intro hsplit b hb
    rw [hlook, if_pos (.inr rfl), lineAt_of_not_mem _ lines hb, Option.elim_none,
      get?_clearInstructions_of_split hsplit, if_pos rfl]
  · intro hsplit
    refine AddressMap.ext_get? fun b => (hlook .data b).trans ?_
    have hother : ¬ (mem.architecture = .unified ∨ CellKind.instruction = .data) := by
      rw [hsplit]
      decide
    rw [if_neg hother, get?_clearInstructions_of_split hsplit, if_neg nofun]
    rfl
  · exact harch
  · rw [hpolicy, policy_clearInstructions]

/-- To place the same lines once more after clearing gives the same memory and addresses. -/
theorem placeFrom_again {mem final : Memory} {a : Address} {lines : List String}
    (h : (mem.clearInstructions.placeFrom a lines).1 = final) :
    final.clearInstructions.placeFrom a lines = mem.clearInstructions.placeFrom a lines := by
  have hlook := get?_placeFrom mem.clearInstructions a lines
  obtain ⟨harch, hpolicy⟩ := placeFrom_keeps mem.clearInstructions a lines
  obtain ⟨harch', hpolicy'⟩ := placeFrom_keeps final.clearInstructions a lines
  rw [architecture_clearInstructions] at hlook harch harch'
  rw [policy_clearInstructions] at hpolicy hpolicy'
  rw [h] at hlook harch hpolicy
  refine Prod.ext ?_ ?_
  · refine ext_get? ?_ ?_ fun kind b => ?_
    · rw [harch', h]
    · rw [hpolicy', h]
    · -- where no line falls, both look-ups are what one clearing leaves
      rw [get?_placeFrom, architecture_clearInstructions, harch, h, hlook]
      have hagain := @get?_clearInstructions_again mem final kind b harch
      rw [hlook] at hagain
      by_cases hspace : mem.architecture = .unified ∨ .instruction = kind
      · rw [if_pos hspace] at hagain ⊢
        rw [if_pos hspace]
        cases hline : lineAt a lines b with
        | none =>
          rw [hline] at hagain
          exact hagain rfl
        | some line => rfl
      · rw [if_neg hspace] at hagain ⊢
        rw [if_neg hspace]
        exact hagain rfl
  · -- the addresses depend on the start and the number of lines only
    refine List.map_injective_iff.mpr (fun _ _ => UInt32.toNat_inj.mp) ?_
    rw [map_toNat_placeFrom, map_toNat_placeFrom]

end Memory

/-- A memory that overwrites has the lines of a program at the addresses from its entry on, and
gives those addresses. Elsewhere a unified memory keeps what was tagged as data and nothing else;
a split one has no other instruction, and all of its data. The load policy stays, a text without
lines changes nothing, and to load a text once more changes nothing either. -/
theorem overwrite_loading {mem : Memory} (hpolicy : mem.policy = .overwrite) :
    (∀ text, Text.lines text ≠ [] → (Text.lines text).length ≤ 2 ^ 32 - mem.entry.toNat →
      mem.Overwritten (Text.lines text) (mem.loadProgram text).1 (mem.loadProgram text).2) ∧
    (∀ text, Text.lines text = [] → mem.loadProgram text = (mem, [])) ∧
    (∀ text, (mem.loadProgram text).1.loadProgram text = mem.loadProgram text) := by
  refine ⟨?_, fun text => mem.loadProgram_of_no_lines, ?_⟩
  · intro text hlines hroom
    rw [Memory.loadProgram_of_overwrite hpolicy hlines]
    exact mem.placeFrom_overwritten hroom
  · intro text
    by_cases hlines : Text.lines text = []
    · rw [mem.loadProgram_of_no_lines hlines, mem.loadProgram_of_no_lines hlines]
    · have hload := Memory.loadProgram_of_overwrite hpolicy hlines
      obtain ⟨harch, hkept⟩ :=
        mem.clearInstructions.placeFrom_keeps mem.entry (Text.lines text)
      rw [← hload] at harch hkept
      rw [Memory.architecture_clearInstructions] at harch
      rw [Memory.policy_clearInstructions, hpolicy] at hkept
      rw [Memory.loadProgram_of_overwrite hkept hlines, Memory.entry_congr harch, hload]
      exact Memory.placeFrom_again rfl

/-- A cell of data where the program goes is overwritten. -/
theorem overwrite_loading_over_data :
    ({ (Memory.seeded .unified).set 2 "9" .data with policy := .overwrite } : Memory).Overwritten
      ["MOV R1, #1", "MOV R2, #2"]
      (({ (Memory.seeded .unified).set 2 "9" .data with policy := .overwrite } : Memory).loadProgram
        "MOV R1, #1\nMOV R2, #2").1 [1, 2] := by
  have hlines : Text.lines "MOV R1, #1\nMOV R2, #2" = ["MOV R1, #1", "MOV R2, #2"] := by decide
  have hload := (@overwrite_loading
    { (Memory.seeded .unified).set 2 "9" .data with policy := .overwrite } rfl).1
    "MOV R1, #1\nMOV R2, #2" (by rw [hlines]; exact List.cons_ne_nil _ _)
    (by rw [hlines]; decide)
  have hplaced : (({ (Memory.seeded .unified).set 2 "9" .data with policy := .overwrite } :
      Memory).loadProgram "MOV R1, #1\nMOV R2, #2").2 = [1, 2] := by decide
  rwa [hlines, hplaced] at hload

end ToyCpu
