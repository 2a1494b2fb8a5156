import ToyCpu.Register

/-!
# Maps from addresses

A finite map from addresses, kept as its entries in ascending address order, so
that two maps with the same look-ups are the same map.

* `AddressMap` — the entries and the proof that they ascend.
* `get?`, `insert`, `erase`, `filter` — look-up and updates.
* `firstGap` — the least address without an entry, from a start.
* `ext_get?` — maps with the same look-ups are equal.
-/

namespace ToyCpu

/-- Entries in strictly ascending address order. -/
def Ascending {α : Type} (entries : List (Address × α)) : Prop :=
  entries.Pairwise (fun a b => a.1 < b.1)

/-- A finite map from addresses. -/
structure AddressMap (α : Type) where
  /-- The entries, in ascending address order. -/
  entries : List (Address × α)
  ascending : Ascending entries

namespace AddressMap

variable {α : Type}

@[ext] theorem ext {m n : AddressMap α} (h : m.entries = n.entries) : m = n := by
  cases m; cases n; cases h; rfl

/-- The map without entries. -/
def empty : AddressMap α := ⟨[], List.Pairwise.nil⟩

/-! ### Entry lists -/

/-- The value at an address. -/
def lookup (a : Address) : List (Address × α) → Option α
  | [] => none
  | (b, v) :: rest => if b = a then some v else lookup a rest

/-- Puts an entry in its place, in the stead of an older one at the same address. -/
def place (a : Address) (v : α) : List (Address × α) → List (Address × α)
  | [] => [(a, v)]
  | (b, w) :: rest =>
    if a < b then (a, v) :: (b, w) :: rest
    else if a = b then (a, v) :: rest
    else (b, w) :: place a v rest

theorem mem_place {a : Address} {v : α} {e : Address × α} {l : List (Address × α)} :
    e ∈ place a v l → e = (a, v) ∨ e ∈ l := by
  induction l with
  | nil => simp [place]
  | cons head rest ih =>
    rw [place]
    split
    · simp
    · split
      · simp only [List.mem_cons]
        rintro (h | h)
        · exact .inl h
        · exact .inr (.inr h)
      · simp only [List.mem_cons]
        rintro (h | h)
        · exact .inr (.inl h)
        · exact (ih h).imp_right .inr

theorem place_ascending (a : Address) (v : α) {l : List (Address × α)} (h : Ascending l) :
    Ascending (place a v l) := by
  induction l with
  | nil => exact List.pairwise_singleton _ _
  | cons head rest ih =>
    obtain ⟨hhead, hrest⟩ := List.pairwise_cons.mp h
    rw [place]
    split
    · next hlt =>
      refine List.pairwise_cons.mpr ⟨fun e he => ?_, h⟩
      rcases List.mem_cons.mp he with rfl | he
      · exact hlt
      · exact UInt32.lt_trans hlt (hhead e he)
    · split
      · next heq =>
        exact List.pairwise_cons.mpr ⟨fun e he => heq ▸ hhead e he, hrest⟩
      · next hlt hne =>
        refine List.pairwise_cons.mpr ⟨fun e he => ?_, ih hrest⟩
        rcases mem_place he with rfl | he
        · exact UInt32.lt_of_le_of_ne (UInt32.not_lt.mp hlt) (fun h => hne h.symm)
        · exact hhead e he

/-! ### Operations -/

/-- The value at an address. -/
def get? (m : AddressMap α) (a : Address) : Option α := lookup a m.entries

/-- The map with a value at the address, whatever was there before. -/
def insert (m : AddressMap α) (a : Address) (v : α) : AddressMap α :=
  ⟨place a v m.entries, place_ascending a v m.ascending⟩

/-- The map without the entries that fail a test. -/
def filter (m : AddressMap α) (keeps : Address → α → Bool) : AddressMap α :=
  ⟨m.entries.filter fun e => keeps e.1 e.2, m.ascending.filter _⟩

/-- The map without an entry at the address. -/
def erase (m : AddressMap α) (a : Address) : AddressMap α :=
  m.filter fun b _ => b != a

/-- The map of a list of entries in any order; of two at one address the later counts. -/
def ofList (l : List (Address × α)) : AddressMap α :=
  l.foldl (fun m e => m.insert e.1 e.2) empty

/-- The first gap at or after `a` among ascending entries. -/
def gapFrom (a : Address) : List (Address × α) → Address
  | [] => a
  | (b, _) :: rest =>
    if b < a then gapFrom a rest
    else if b = a then gapFrom (a + 1) rest
    else a

/-- The least address at or after `start` without an entry. -/
def firstGap (m : AddressMap α) (start : Address) : Address := gapFrom start m.entries

/-! ### Look-ups after updates -/

@[simp] theorem get?_empty (a : Address) : (empty : AddressMap α).get? a = none := rfl

theorem lookup_place (a b : Address) (v : α) (l : List (Address × α)) :
    lookup b (place a v l) = if a = b then some v else lookup b l := by
  induction l with
  | nil => simp [place, lookup]
  | cons head rest ih =>
    obtain ⟨c, w⟩ := head
    rw [place]
    split
    · simp [lookup]
    · split
      · next h => subst h; by_cases hab : a = b <;> simp [lookup, hab]
      · next hne =>
        by_cases hcb : c = b
        · simp [lookup, hcb, show a ≠ b from fun h => hne (h.trans hcb.symm)]
        · simp [lookup, hcb, ih]

@[simp] theorem get?_insert (m : AddressMap α) (a b : Address) (v : α) :
    (m.insert a v).get? b = if a = b then some v else m.get? b :=
  lookup_place a b v m.entries

/-- Only entries can be looked up. -/
theorem mem_of_lookup {a : Address} {v : α} {l : List (Address × α)}
    (h : lookup a l = some v) : (a, v) ∈ l := by
  induction l with
  | nil => cases h
  | cons head rest ih =>
    obtain ⟨b, w⟩ := head
    rw [lookup] at h
    split at h
    · next hb => cases h; exact hb ▸ List.mem_cons_self
    · exact List.mem_cons_of_mem _ (ih h)

/-- Every entry of an ascending list is found. -/
theorem lookup_of_mem {a : Address} {v : α} {l : List (Address × α)} (hasc : Ascending l)
    (h : (a, v) ∈ l) : lookup a l = some v := by
  induction l with
  | nil => cases h
  | cons head rest ih =>
    obtain ⟨hhead, hrest⟩ := List.pairwise_cons.mp hasc
    rcases List.mem_cons.mp h with rfl | h
    · simp [lookup]
    · have hne : head.1 ≠ a := by
        rintro rfl
        exact UInt32.lt_irrefl _ (hhead (head.1, v) h)
      simp [lookup, hne, ih hrest h]

theorem mem_entries_iff {m : AddressMap α} {a : Address} {v : α} :
    (a, v) ∈ m.entries ↔ m.get? a = some v :=
  ⟨lookup_of_mem m.ascending, mem_of_lookup⟩

@[simp] theorem get?_filter (m : AddressMap α) (keeps : Address → α → Bool) (a : Address) :
    (m.filter keeps).get? a = (m.get? a).filter (keeps a) := by
  apply Option.ext
  intro v
  rw [← mem_entries_iff, Option.filter_eq_some_iff, ← mem_entries_iff]
  exact List.mem_filter

@[simp] theorem get?_erase (m : AddressMap α) (a b : Address) :
    (m.erase a).get? b = if a = b then none else m.get? b := by
  rw [erase, get?_filter]
  by_cases h : a = b
  · simp [h]
  · have hb : (b != a) = true := by simpa using fun h' => h h'.symm
    cases hm : m.get? b <;> simp [hb, h, Option.filter]

/-- Ascending lists with the same look-ups are the same list. -/
theorem eq_of_lookup_eq {l l' : List (Address × α)} (h : Ascending l) (h' : Ascending l')
    (heq : ∀ a, lookup a l = lookup a l') : l = l' := by
  induction l generalizing l' with
  | nil =>
    cases l' with
    | nil => rfl
    | cons head rest => have := heq head.1; simp [lookup] at this
  | cons head rest ih =>
    cases l' with
    | nil => have := heq head.1; simp [lookup] at this
    | cons head' rest' =>
      obtain ⟨hhead, hrest⟩ := List.pairwise_cons.mp h
      obtain ⟨hhead', hrest'⟩ := List.pairwise_cons.mp h'
      -- each head is found in the other list, so neither lies before the other
      have hmem : head ∈ head' :: rest' :=
        mem_of_lookup (heq head.1 ▸ lookup_of_mem h List.mem_cons_self)
      have hmem' : head' ∈ head :: rest :=
        mem_of_lookup ((heq head'.1).symm ▸ lookup_of_mem h' List.mem_cons_self)
      have hfirst : head = head' := by
        rcases List.mem_cons.mp hmem with hm | hm
        · exact hm
        · rcases List.mem_cons.mp hmem' with hm' | hm'
          · exact hm'.symm
          · exact (UInt32.lt_asymm (hhead' _ hm) (hhead _ hm')).elim
      subst hfirst
      congr 1
      refine ih hrest hrest' fun a => ?_
      by_cases ha : head.1 = a
      · subst ha
        have hnone : ∀ {l : List (Address × α)}, (∀ e ∈ l, head.1 < e.1) →
            lookup head.1 l = none := by
          intro l hl
          cases hv : lookup head.1 l with
          | none => rfl
          | some v => exact (UInt32.lt_irrefl _ (hl (head.1, v) (mem_of_lookup hv))).elim
        rw [hnone hhead, hnone hhead']
      · have := heq a
        rwa [lookup, if_neg ha, lookup, if_neg ha] at this

/-- Maps with the same look-ups are the same map. -/
theorem ext_get? {m n : AddressMap α} (h : ∀ a, m.get? a = n.get? a) : m = n :=
  ext (eq_of_lookup_eq m.ascending n.ascending h)

end AddressMap

end ToyCpu
