import ToyCpu.Memory.Load

/-!
# Look-ups in a changed memory

* `space_modifySpace` — a change to the space of one kind, seen from the other kind.
* `get?_of_unified` — the one space of a unified memory.
* `get?_set`, `get?_delete`, `read?_store` — single cells after a change.
* `get?_clearInstructions_of_unified`, `get?_clearInstructions_of_split` — what the clearing of the
  instructions leaves.
* `ext_get?` — memories with the same look-ups, layout and policy are equal.
* `architecture_set`, `policy_set`, … — what no change of cells touches.
-/

namespace ToyCpu.Memory

/-! ### What stays -/

/-- A change to the cells of a space leaves the layout. -/
@[simp] theorem architecture_modifySpace (mem : Memory) (kind : CellKind)
    (f : AddressMap Cell → AddressMap Cell) :
    (mem.modifySpace kind f).architecture = mem.architecture := by
  obtain ⟨spaces, policy⟩ := mem
  cases spaces <;> cases kind <;> rfl

/-- And it leaves the policy. -/
@[simp] theorem policy_modifySpace (mem : Memory) (kind : CellKind)
    (f : AddressMap Cell → AddressMap Cell) :
    (mem.modifySpace kind f).policy = mem.policy := by
  obtain ⟨spaces, policy⟩ := mem
  cases spaces <;> cases kind <;> rfl

@[simp] theorem architecture_set (mem : Memory) (a : Address) (text : String) (kind : CellKind) :
    (mem.set a text kind).architecture = mem.architecture :=
  architecture_modifySpace _ _ _

@[simp] theorem policy_set (mem : Memory) (a : Address) (text : String) (kind : CellKind) :
    (mem.set a text kind).policy = mem.policy :=
  policy_modifySpace _ _ _

@[simp] theorem architecture_delete (mem : Memory) (kind : CellKind) (a : Address) :
    (mem.delete kind a).architecture = mem.architecture :=
  architecture_modifySpace _ _ _

/-- Clearing the cells leaves the layout, and so does clearing the instructions. -/
@[simp] theorem architecture_clear (mem : Memory) : mem.clear.architecture = mem.architecture := by
  obtain ⟨spaces, policy⟩ := mem
  cases spaces <;> rfl

@[simp] theorem architecture_clearInstructions (mem : Memory) :
    mem.clearInstructions.architecture = mem.architecture := by
  obtain ⟨spaces, policy⟩ := mem
  cases spaces <;> rfl

@[simp] theorem policy_clearInstructions (mem : Memory) :
    mem.clearInstructions.policy = mem.policy := by
  obtain ⟨spaces, policy⟩ := mem
  cases spaces <;> rfl

/-- An empty memory has the layout that it was made for. -/
@[simp] theorem architecture_empty (arch : Architecture) : (empty arch).architecture = arch := by
  cases arch <;> rfl

/-- The entry address is that of the layout. -/
theorem entry_congr {mem mem' : Memory} (h : mem.architecture = mem'.architecture) :
    mem.entry = mem'.entry := by
  obtain ⟨spaces, _⟩ := mem
  obtain ⟨spaces', _⟩ := mem'
  cases spaces with
  | unified _ =>
    cases spaces' with
    | unified _ => rfl
    | split _ _ => cases h
  | split _ _ =>
    cases spaces' with
    | unified _ => cases h
    | split _ _ => rfl

/-! ### Single cells -/

/-- In a unified memory both kinds are looked up in one space. -/
theorem get?_of_unified {mem : Memory} (h : mem.architecture = .unified) (kind kind' : CellKind)
    (a : Address) : mem.get? kind a = mem.get? kind' a := by
  obtain ⟨spaces, policy⟩ := mem
  cases spaces with
  | unified cells => rfl
  | split instructions data => cases h

/-- In a unified memory a change is seen by both kinds, in a split one by its own kind only. -/
theorem space_modifySpace (mem : Memory) (kind kind' : CellKind)
    (f : AddressMap Cell → AddressMap Cell) :
    (mem.modifySpace kind f).space kind' =
      if mem.architecture = .unified ∨ kind = kind' then f (mem.space kind')
      else mem.space kind' := by
  obtain ⟨spaces, policy⟩ := mem
  cases spaces <;> cases kind <;> cases kind' <;> rfl

/-- A write is looked up at its address, by its own kind and in a unified memory by either. -/
theorem get?_set (mem : Memory) (a b : Address) (text : String) (kind kind' : CellKind) :
    (mem.set a text kind).get? kind' b =
      if (mem.architecture = .unified ∨ kind = kind') ∧ a = b then some ⟨text, kind⟩
      else mem.get? kind' b := by
  unfold get? set
  rw [space_modifySpace]
  by_cases h : mem.architecture = .unified ∨ kind = kind'
  · by_cases hab : a = b <;> simp [h, hab]
  · simp [h]

/-- A write is not seen at other addresses, nor by the other kind in a split memory. -/
theorem get?_set_of_apart {mem : Memory} {a b : Address} {kind kind' : CellKind}
    (h : b = a → mem.architecture = .split ∧ kind' ≠ kind) (text : String) :
    (mem.set a text kind).get? kind' b = mem.get? kind' b := by
  rw [get?_set]
  refine if_neg ?_
  rintro ⟨hspace, rfl⟩
  obtain ⟨hsplit, hkind⟩ := h rfl
  rcases hspace with hunified | rfl
  · rw [hsplit] at hunified
    cases hunified
  · exact hkind rfl

/-- What is deleted is gone for the kinds that would have seen it written. -/
theorem get?_delete (mem : Memory) (a b : Address) (kind kind' : CellKind) :
    (mem.delete kind a).get? kind' b =
      if (mem.architecture = .unified ∨ kind = kind') ∧ a = b then none
      else mem.get? kind' b := by
  unfold get? delete
  rw [space_modifySpace]
  by_cases h : mem.architecture = .unified ∨ kind = kind'
  · by_cases hab : a = b <;> simp [h, hab]
  · simp [h]

/-- What is stored is read back, and nothing else is read differently. -/
@[simp] theorem read?_store (mem : Memory) (a b : Address) (text : String) :
    (mem.store a text).read? b = if a = b then some text else mem.read? b := by
  unfold read? store
  rw [get?_set]
  by_cases hab : a = b <;> simp [hab]

/-! ### Cleared instructions -/

/-- In a unified memory the clearing leaves what is tagged as data. -/
theorem get?_clearInstructions_of_unified {mem : Memory} (h : mem.architecture = .unified)
    (kind : CellKind) (a : Address) : mem.clearInstructions.get? kind a =
      (mem.get? kind a).filter fun cell => cell.kind == .data := by
  obtain ⟨spaces, policy⟩ := mem
  cases spaces with
  | unified cells =>
    have hkeeps : (fun cell : Cell => cell.kind != .instruction)
        = fun cell => cell.kind == .data := by
      funext cell
      cases cell.kind <;> rfl
    rw [← hkeeps]
    exact AddressMap.get?_filter cells (fun _ cell => cell.kind != .instruction) a
  | split instructions data => cases h

/-- In a split memory it leaves the data. -/
theorem get?_clearInstructions_of_split {mem : Memory} (h : mem.architecture = .split)
    (kind : CellKind) (a : Address) : mem.clearInstructions.get? kind a =
      if kind = .instruction then none else mem.get? kind a := by
  obtain ⟨spaces, policy⟩ := mem
  cases spaces with
  | unified cells => cases h
  | split instructions data => cases kind <;> rfl

/-! ### Equal memories -/

/-- Memories with the same look-ups, layout and policy are equal. -/
theorem ext_get? {mem mem' : Memory} (harch : mem.architecture = mem'.architecture)
    (hpolicy : mem.policy = mem'.policy) (h : ∀ kind a, mem.get? kind a = mem'.get? kind a) :
    mem = mem' := by
  obtain ⟨spaces, policy⟩ := mem
  obtain ⟨spaces', policy'⟩ := mem'
  obtain rfl : policy = policy' := hpolicy
  cases spaces with
  | unified cells =>
    cases spaces' with
    | unified cells' =>
      -- either kind would do, since both are looked up in the one space
      obtain rfl : cells = cells' := AddressMap.ext_get? (h .data)
      rfl
    | split instructions' data' => cases harch
  | split instructions data =>
    cases spaces' with
    | unified cells' => cases harch
    | split instructions' data' =>
      obtain rfl : instructions = instructions' := AddressMap.ext_get? (h .instruction)
      obtain rfl : data = data' := AddressMap.ext_get? (h .data)
      rfl

end ToyCpu.Memory
