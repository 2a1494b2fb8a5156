import ToyCpu.Proofs.Faults
import ToyCpu.Proofs.NumberText

/-!
# Stored values

A store writes a register's text into a data cell, and whatever reads the cell parses the text. So
a value comes back from memory as the register itself reads, by whichever way it is read: loaded
through a number that the address is taken for, or resolved from the address in digits.

* `Operand.IsBare`, `Operand.resolve_of_isBare` — tokens of digits.
* `Operand.Spells`, `Operand.resolve_of_spells` — addresses in digits.
* `Operand.resolve_of_isNamedBy` — a register is read as its text would be.
* `Value.parse_display` — the value of a value's text.
* `store_of_ok`, `load_of_read` — what a store writes and a load reads.
* `stored_value_reads_back` — what was stored is read back, and nothing else is read differently.
-/

namespace ToyCpu

/-! ### Tokens -/

theorem Register.isNamedBy_trim {token : String} {r : Register} :
    r.IsNamedBy (Text.trim token) ↔ r.IsNamedBy token := by
  unfold IsNamedBy
  rw [Text.toList_trim, Text.trimChars_trimChars]

/-- A token is made of digits alone, with blanks around them or not. -/
structure Operand.IsBare (token : String) : Prop where
  nonempty : Text.trimChars token.toList ≠ []
  digits : ∀ c ∈ Text.trimChars token.toList, c.isDigit = true

/-- A token spells an address if it is the address in decimal digits. -/
structure Operand.Spells (token : String) (a : Address) : Prop where
  nonempty : Text.trimChars token.toList ≠ []
  digits : ∀ c ∈ Text.trimChars token.toList, c.isDigit = true
  natural : decimalNatural (Text.trimChars token.toList) = a.toNat

/-- A token of digits names no register. -/
theorem Register.not_isNamedBy_of_digits {token : String} {r : Register}
    (h : ∀ c ∈ Text.trimChars token.toList, c.isDigit = true) : ¬ r.IsNamedBy token := by
  intro hname
  have hread := ofToken?_eq_some_iff.mpr hname
  unfold ofToken? at hread
  split at hread
  · next c d heq =>
    have hdigit : c.isDigit = true := h c (heq ▸ List.mem_cons_self)
    split at hread
    · next hletter =>
      simp only [Bool.or_eq_true, beq_iff_eq] at hletter
      rcases hletter with rfl | rfl
      · cases hdigit
      · cases hdigit
    · cases hread
  · cases hread

variable {regs : Registers} {mem : Memory}

/-- What a register's name stands for reads as the register's text. -/
theorem Operand.resolve_of_isNamedBy {token : String} {r : Register} (h : r.IsNamedBy token) :
    resolve (some token) regs mem = .ok (regs.get r).reread := by
  have hread := Register.ofToken?_eq_some_iff.mpr (Register.isNamedBy_trim.mpr h)
  unfold resolve value
  simp only
  rw [hread]

/-- A token of digits stands for the value of the cell's text, or is empty if there is no cell. -/
theorem Operand.resolve_of_isBare {token : String} (h : IsBare token) :
    resolve (some token) regs mem
      = .ok (((bareAddress? (Text.trimChars token.toList)).bind mem.read?).elim .empty .parse) := by
  -- neither a register nor an immediate, so it is looked up as an address
  have hregister : Register.ofToken? (Text.trim token) = none := by
    cases hname : Register.ofToken? (Text.trim token) with
    | none => rfl
    | some r =>
      have hnamed := Register.isNamedBy_trim.mp (Register.ofToken?_eq_some_iff.mp hname)
      exact absurd hnamed (Register.not_isNamedBy_of_digits h.digits)
  obtain ⟨c, cs, hcs⟩ := List.exists_cons_of_ne_nil h.nonempty
  have hmark : ¬ ((Text.trimChars token.toList).head? == some '#') = true := by
    rw [hcs, List.head?_cons, beq_iff_eq, Option.some.injEq]
    rintro rfl
    have hdigit := h.digits '#' (hcs ▸ List.mem_cons_self)
    cases hdigit
  have htest : (!(Text.trimChars token.toList).isEmpty
      && (Text.trimChars token.toList).all Char.isDigit) = true := by
    rw [List.all_eq_true.mpr h.digits, List.isEmpty_eq_false_iff.mpr h.nonempty]
    rfl
  unfold resolve value
  simp only
  rw [hregister, Text.toList_trim]
  simp only
  rw [if_neg hmark, if_pos htest]
  cases (bareAddress? (Text.trimChars token.toList)).bind mem.read? with
  | none => rfl
  | some text => rfl

theorem Operand.bareAddress?_eq_some_iff {ds : List Char} {a : Address} :
    bareAddress? ds = some a ↔ decimalNatural ds = a.toNat := by
  unfold bareAddress?
  simp only [Option.ite_none_right_eq_some, Option.some.injEq]
  constructor
  · rintro ⟨hlt, rfl⟩
    rw [UInt32.toNat_ofNat_of_lt' hlt]
  · intro h
    rw [h]
    exact ⟨a.toNat_lt, UInt32.ofNat_toNat⟩

/-- What an address in digits stands for is the value of the cell's text. -/
theorem Operand.resolve_of_spells {token text : String} {a : Address} (h : Spells token a)
    (hread : mem.read? a = some text) : resolve (some token) regs mem = .ok (.parse text) := by
  rw [resolve_of_isBare ⟨h.nonempty, h.digits⟩, bareAddress?_eq_some_iff.mpr h.natural,
    Option.bind_some, hread]
  rfl

/-! ### Values -/

/-- A value that is written out and parsed again is the value as it is reread, but that negative
zero loses its sign. -/
theorem Value.parse_display {v : Value} (h : v ≠ .number (-0)) : parse v.display = v.reread := by
  cases v with
  | number x =>
    have hsign : x ≠ -0 := fun heq => h (congrArg number heq)
    show parse (numberText x) = .number x
    rw [parse_numberText, if_neg hsign]
  | text s => rfl
  | empty => rfl

/-! ### Stores -/

/-- A write of data is seen at its own address only. -/
theorem Memory.get?_store_of_ne {a b : Address} (h : b ≠ a) (text : String) (kind : CellKind) :
    (mem.store a text).get? kind b = mem.get? kind b := by
  rw [store, get?_set, if_neg fun hsame => h hsame.2.symm]

/-- In a split memory it is not seen among the instructions. -/
theorem Memory.get?_store_of_split (h : mem.architecture = .split) (a b : Address)
    (text : String) : (mem.store a text).get? .instruction b = mem.get? .instruction b := by
  rw [store, get?_set, h, if_neg fun hsame => by simp at hsame]

variable {source target : String} {rest : List String} {done : Executed}

/-- A store that is carried out has a register to read and an address to write to. -/
theorem store_of_ok (h : execute ⟨"STORE", source :: target :: rest⟩ regs mem = .ok done) :
    ∃ (r : Register) (a : Address), r.IsNamedBy source ∧ Operand.Names target a ∧
      done.memory = mem.store a (regs.get r).display := by
  cases changes_of_ok h with
  | mov hop => cases Mnemonic.text_injective (k := .store) hop
  | arithmetic hop => cases Mnemonic.text_injective (k := .store) hop
  | load hop => cases Mnemonic.text_injective (k := .store) hop
  | store hop hoperands hsource htarget =>
    obtain ⟨rfl, hrest⟩ := List.cons.inj hoperands
    obtain ⟨rfl, -⟩ := List.cons.inj hrest
    exact ⟨_, _, hsource, htarget, rfl⟩

theorem store_of_names {r : Register} {a : Address} (hsource : r.IsNamedBy source)
    (htarget : Operand.Names target a) :
    ∃ effect, execute ⟨"STORE", source :: target :: rest⟩ regs mem
      = .ok ⟨effect, regs, mem.store a (regs.get r).display⟩ := by
  obtain ⟨effect, -, hstore⟩ := @executeStore_of_some regs mem source target rest r a hsource htarget
  exact ⟨effect, hstore⟩

/-- A load from a cell puts the value of its text into the register and the accumulator. -/
theorem load_of_read {dest token text : String} {a : Address} {r : Register}
    (htoken : Operand.Names token a) (hdest : r.IsNamedBy dest) (hread : mem.read? a = some text) :
    ∃ loaded, execute ⟨"LOAD", dest :: token :: rest⟩ regs mem = .ok loaded ∧
      loaded.registers.get r = .parse text ∧ loaded.registers.acc = some (.parse text) := by
  obtain ⟨effect, -, hload⟩ := @executeLoad_of_cell regs mem dest token text rest a htoken hread
  rw [destination_of_isNamedBy hdest] at hload
  have hregister := Registers.get_set { regs with acc := some (.parse text) } r r (.parse text)
  rw [if_pos rfl] at hregister
  exact ⟨_, hload, hregister, Registers.acc_set _ _ _⟩

/-- After a store, a load from any token that names the address and any operand that spells the
address in digits give the stored value as it is parsed from its text. That is what the source
register gives as an operand, except that negative zero loses its sign: numbers come back bit for
bit, an empty value comes back as 0 and a text as it is parsed. No other cell has changed, and in
a split memory no instruction. -/
theorem stored_value_reads_back
    (h : execute ⟨"STORE", source :: target :: rest⟩ regs mem = .ok done) :
    ∃ (r : Register) (a : Address) (v : Value),
      r.IsNamedBy source ∧ Operand.Names target a ∧ regs.get r = v ∧
      (∀ dest token rest regs' (r' : Register), Operand.Names token a → r'.IsNamedBy dest →
        ∃ loaded, execute ⟨"LOAD", dest :: token :: rest⟩ regs' done.memory = .ok loaded ∧
          loaded.registers.get r' = .parse v.display ∧
          loaded.registers.acc = some (.parse v.display)) ∧
      (∀ token regs', Operand.Spells token a →
        Operand.resolve (some token) regs' done.memory = .ok (.parse v.display)) ∧
      Operand.resolve (some source) regs mem = .ok v.reread ∧
      (v ≠ .number (-0) → Value.parse v.display = v.reread) ∧
      (v = .number (-0) → Value.parse v.display = .number 0) ∧
      (∀ x, v = .number x → x ≠ -0 → Value.parse v.display = .number x) ∧
      (v = .empty → Value.parse v.display = .number 0) ∧
      (∀ s, v = .text s → Value.parse v.display = .parse s) ∧
      (∀ kind b, b ≠ a → done.memory.get? kind b = mem.get? kind b) ∧
      (mem.architecture = .split →
        ∀ b, done.memory.get? .instruction b = mem.get? .instruction b) := by
  obtain ⟨r, a, hsource, htarget, hmemory⟩ := store_of_ok h
  -- whatever reads the cell finds the text of the register
  have hread : done.memory.read? a = some (regs.get r).display := by
    rw [hmemory, Memory.read?_store, if_pos rfl]
  refine ⟨r, a, regs.get r, hsource, htarget, rfl, ?_, ?_, Operand.resolve_of_isNamedBy hsource,
    Value.parse_display, ?_, ?_, ?_, ?_, ?_, ?_⟩
  · intro dest token rest regs' r' htoken hdest
    exact load_of_read htoken hdest hread
  · intro token regs' htoken
    exact Operand.resolve_of_spells htoken hread
  · intro hv
    rw [hv]
    exact Value.parse_numberText (-0)
  · intro x hv hx
    rw [hv]
    exact Value.parse_display fun hzero => hx (Value.number.inj hzero)
  · intro hv
    rw [hv]
    rfl
  · intro s hv
    rw [hv]
    rfl
  · intro kind b hb
    rw [hmemory, Memory.get?_store_of_ne hb]
  · intro hsplit b
    rw [hmemory, Memory.get?_store_of_split hsplit]

/-- Negative zero, stored at an address written as a power of ten. -/
theorem stored_negative_zero :
    ∃ done, execute ⟨"STORE", ["r1", "1e3"]⟩ { r1 := .number (-0) } (.empty .split) = .ok done ∧
      Operand.resolve (some "1000") {} done.memory = .ok (.number 0) := by
  have hsource : Register.r1.IsNamedBy "r1" := rfl
  have haddress : Operand.address? "1e3" = some 1000 := by decide +kernel
  have htarget := Operand.address?_eq_some_iff.mp haddress
  obtain ⟨effect, hstore⟩ := @store_of_names { r1 := .number (-0) } (.empty .split) "r1" "1e3" []
    .r1 1000 hsource htarget
  refine ⟨_, hstore, ?_⟩
  obtain ⟨r, a, v, hr, ha, hv, -, hspelled, -, -, hzero, -⟩ := stored_value_reads_back hstore
  -- no other register and no other address is named
  obtain rfl : Register.r1 = r := hsource.unique hr
  obtain rfl : 1000 = a := htarget.unique ha
  have hspells : Operand.Spells "1000" 1000 := ⟨by decide, List.all_eq_true.mp rfl, rfl⟩
  rw [hspelled "1000" {} hspells, hzero hv.symm]

end ToyCpu
