import ToyCpu.Memory.Lemmas

/-!
# Free addresses

The search for a gap counts upwards past addresses that are taken. If there is a free address at
all where the search begins or above, it stops at the least one, and it never counts past the last
address. The two searches of a unified memory are then one search from its entry address.

* `AddressMap.IsLeastFree` — an address is the least free one from a start.
* `AddressMap.countGap?` — the search that fails where counting has no next address.
* `AddressMap.firstGap_spec` — the search does not fail, and finds the least free address.
* `Memory.nextFreeInstruction_spec`, `Memory.nextFreeData_spec` — free addresses of a memory.
-/

namespace ToyCpu

/-! ### Gaps in a map -/

namespace AddressMap

variable {α : Type} {m : AddressMap α} {start a : Address}

/-- An address is free, at or after a start, and no other such address is before it. -/
structure IsLeastFree (m : AddressMap α) (start a : Address) : Prop where
  start_le : start ≤ a
  free : m.get? a = none
  le_of_free : ∀ b, start ≤ b → m.get? b = none → a ≤ b

theorem IsLeastFree.unique {b : Address} (h : m.IsLeastFree start a) (h' : m.IsLeastFree start b) :
    a = b :=
  UInt32.le_antisymm (h.le_of_free b h'.start_le h'.free) (h'.le_of_free a h.start_le h.free)

/-- It is the least one also from a later start that is not after it. -/
theorem IsLeastFree.of_le {later : Address} (h : m.IsLeastFree start a) (hstart : start ≤ later)
    (hlater : later ≤ a) : m.IsLeastFree later a :=
  ⟨hlater, h.free, fun b hb hfree => h.le_of_free b (UInt32.le_trans hstart hb) hfree⟩

/-- The first gap at or after `a` among ascending entries, counted with a check: there is no next
address to the last one. -/
def countGap? (a : Address) : List (Address × α) → Option Address
  | [] => some a
  | (b, _) :: rest =>
    if b < a then countGap? a rest
    else if b = a then
      if a + 1 = 0 then none else countGap? (a + 1) rest
    else some a

theorem lookup_eq_none {l : List (Address × α)} (h : ∀ e ∈ l, a < e.1) : lookup a l = none := by
  cases hv : lookup a l with
  | none => rfl
  | some v => exact absurd (h _ (mem_of_lookup hv)) (UInt32.lt_irrefl a)

theorem lookup_cons_of_lt {b x : Address} {v : α} (h : b < x) (rest : List (Address × α)) :
    lookup x ((b, v) :: rest) = lookup x rest :=
  if_neg (UInt32.ne_of_lt h)

theorem lt_of_lookup_cons_eq_none {b x : Address} {v : α} {rest : List (Address × α)} (h : b ≤ x)
    (hfree : lookup x ((b, v) :: rest) = none) : b < x := by
  refine UInt32.lt_of_le_of_ne h ?_
  rintro rfl
  rw [lookup, if_pos rfl] at hfree
  cases hfree

/-- Where there is a free address, counting comes to the least one before it runs out. -/
theorem countGap?_spec {l : List (Address × α)} (hasc : Ascending l) (a x : Address)
    (hx : a ≤ x) (hfree : lookup x l = none) :
    ∃ g, countGap? a l = some g ∧ gapFrom a l = g ∧ a ≤ g ∧ lookup g l = none ∧
      ∀ b, a ≤ b → lookup b l = none → g ≤ b := by
  induction l generalizing a with
  | nil => exact ⟨a, rfl, rfl, UInt32.le_refl a, rfl, fun b hb _ => hb⟩
  | cons head rest ih =>
    obtain ⟨b, v⟩ := head
    obtain ⟨hhead, hrest⟩ := List.pairwise_cons.mp hasc
    by_cases hlt : b < a
    · -- an entry before the count changes nothing from there on
      have hskip (c : Address) (hc : a ≤ c) : lookup c ((b, v) :: rest) = lookup c rest :=
        lookup_cons_of_lt (UInt32.lt_of_lt_of_le hlt hc) rest
      rw [hskip x hx] at hfree
      obtain ⟨g, hcount, hgap, hle, hnone, hleast⟩ := ih hrest a hx hfree
      refine ⟨g, (if_pos hlt).trans hcount, (if_pos hlt).trans hgap, hle, ?_, ?_⟩
      · rwa [hskip g hle]
      · intro c hc hcfree
        rw [hskip c hc] at hcfree
        exact hleast c hc hcfree
    · by_cases heq : b = a
      · -- the count goes on, and it can because a free address lies above
        subst heq
        have hbx := lt_of_lookup_cons_eq_none hx hfree
        have hnext : b + 1 ≠ 0 := fun hlast => not_lt_of_succ_eq_zero hlast x hbx
        have hskip (c : Address) (hc : b + 1 ≤ c) : lookup c ((b, v) :: rest) = lookup c rest :=
          lookup_cons_of_lt ((succ_le_iff hnext).mp hc) rest
        have hx' := (succ_le_iff hnext).mpr hbx
        rw [hskip x hx'] at hfree
        obtain ⟨g, hcount, hgap, hle, hnone, hleast⟩ := ih hrest (b + 1) hx' hfree
        refine ⟨g, ?_, ?_, UInt32.le_of_lt ((succ_le_iff hnext).mp hle), ?_, ?_⟩
        · rw [countGap?, if_neg hlt, if_pos rfl, if_neg hnext, hcount]
        · rw [gapFrom, if_neg hlt, if_pos rfl, hgap]
        · rwa [hskip g hle]
        · intro c hc hcfree
          have hc' := (succ_le_iff hnext).mpr (lt_of_lookup_cons_eq_none hc hcfree)
          rw [hskip c hc'] at hcfree
          exact hleast c hc' hcfree
      · -- all entries are above the count, so it stops at a gap
        have hab : a < b := UInt32.lt_of_le_of_ne (UInt32.not_lt.mp hlt) (Ne.symm heq)
        refine ⟨a, ?_, ?_, UInt32.le_refl a, ?_, fun c hc _ => hc⟩
        · rw [countGap?, if_neg hlt, if_neg heq]
        · rw [gapFrom, if_neg hlt, if_neg heq]
        · refine lookup_eq_none (List.forall_mem_cons.mpr ⟨hab, ?_⟩)
          exact fun e he => UInt32.lt_trans hab (hhead e he)

/-- The first gap, counted with a check. -/
def firstGap? (m : AddressMap α) (start : Address) : Option Address := countGap? start m.entries

/-- Where there is a free address, the first gap is the least one, and counting finds it. -/
theorem firstGap_spec (h : ∃ x, start ≤ x ∧ m.get? x = none) :
    m.firstGap? start = some (m.firstGap start) ∧ m.IsLeastFree start (m.firstGap start) := by
  obtain ⟨x, hx, hfree⟩ := h
  obtain ⟨g, hcount, hgap, hle, hnone, hleast⟩ := countGap?_spec m.ascending start x hx hfree
  rw [← firstGap] at hgap
  rw [hgap]
  exact ⟨hcount, hle, hnone, hleast⟩

end AddressMap

/-! ### Free addresses of a memory -/

namespace Memory

variable {mem : Memory}

/-- The next free address for an instruction, counted with a check. -/
def nextFreeInstruction? (mem : Memory) : Option Address :=
  ((mem.space .instruction).firstGap? mem.entry).bind fun gap =>
    match mem.spaces with
    | .unified cells => if gap < dataBase then some gap else cells.firstGap? dataBase
    | .split _ _ => some gap

/-- The next free address for data, counted with a check. -/
def nextFreeData? (mem : Memory) : Option Address := (mem.space .data).firstGap? dataBase

/-- The address for the next instruction is that of one search from the entry address: where a
unified memory searches again from the data range, it has found no gap before it. -/
theorem nextFreeInstruction_spec (h : ∃ x, mem.entry ≤ x ∧ mem.get? .instruction x = none) :
    mem.nextFreeInstruction? = some mem.nextFreeInstruction ∧
      mem.nextFreeInstruction = (mem.space .instruction).firstGap mem.entry ∧
      (mem.space .instruction).IsLeastFree mem.entry mem.nextFreeInstruction := by
  obtain ⟨hcount, hleast⟩ := AddressMap.firstGap_spec h
  have hcheck : mem.nextFreeInstruction? = match mem.spaces with
      | .unified cells =>
        if (mem.space .instruction).firstGap mem.entry < dataBase then
          some ((mem.space .instruction).firstGap mem.entry)
        else cells.firstGap? dataBase
      | .split _ _ => some ((mem.space .instruction).firstGap mem.entry) := by
    unfold nextFreeInstruction?
    rw [hcount]
    rfl
  obtain ⟨spaces, policy⟩ := mem
  cases spaces with
  | split instructions data => exact ⟨hcheck, rfl, hleast⟩
  | unified cells =>
    change cells.IsLeastFree 1 (cells.firstGap 1) at hleast
    have hnext : nextFreeInstruction ⟨.unified cells, policy⟩ =
        if cells.firstGap 1 < dataBase then cells.firstGap 1 else cells.firstGap dataBase := rfl
    have hcheck' : nextFreeInstruction? ⟨.unified cells, policy⟩ =
        if cells.firstGap 1 < dataBase then some (cells.firstGap 1)
        else cells.firstGap? dataBase := hcheck
    by_cases hlow : cells.firstGap 1 < dataBase
    · rw [if_pos hlow] at hnext hcheck'
      rw [hnext, hcheck']
      exact ⟨rfl, rfl, hleast⟩
    · -- nothing is free below the data range, so the second search finds the same gap
      have hlater : cells.IsLeastFree dataBase (cells.firstGap 1) :=
        hleast.of_le (by decide) (UInt32.not_lt.mp hlow)
      obtain ⟨hcount', hleast'⟩ := AddressMap.firstGap_spec ⟨_, hlater.start_le, hlater.free⟩
      rw [if_neg hlow] at hnext hcheck'
      rw [hnext, hcheck', hcount', hleast'.unique hlater]
      exact ⟨rfl, rfl, hleast⟩

theorem nextFreeData_spec (h : ∃ x, dataBase ≤ x ∧ mem.get? .data x = none) :
    mem.nextFreeData? = some mem.nextFreeData ∧
      (mem.space .data).IsLeastFree dataBase mem.nextFreeData :=
  AddressMap.firstGap_spec h

end Memory

end ToyCpu
