import ToyCpu.Proofs.JsonText
import ToyCpu.Proofs.NumberText
import ToyCpu.Snapshot.Basic

/-!
# Snapshots that load

A machine that has been saved is loaded as it was, but for what its registers hold: a text is
read as if it had been entered, and an accumulator that holds nothing is one without a value.

* `Json.fields?_record` — the fields of a structure are found by their names.
* `Value.ofJson?_toJson`, `Machine.ofJson?_toJson` — values and machines as trees.
* `Snapshot.load?_save`, `Snapshot.load_of_saved` — the text of a snapshot is loaded.
-/

namespace ToyCpu

/-! ### Simple values -/

namespace Json

/-- A text is escaped in its tree, and unescaped when it is read. -/
theorem text?_ofText (text : String) : (ofText text).text? = some text := by
  rw [ofText, text?, unescape?_escape, Option.map_some, String.ofList_toList]

/-- Digits of a natural number begin with a zero only for zero itself, so they are read as the
number. -/
theorem canonicalNatural?_toDigits (n : Nat) : canonicalNatural? (Nat.toDigits 10 n) = some n := by
  have hall : (Nat.toDigits 10 n).all Char.isDigit = true :=
    List.all_eq_true.mpr fun c hc => isDigit_of_mem_digits hc
  have hnatural := decimalNatural_toDigits n
  -- a zero with digits after it would be refused, but only zero begins with one
  have hhead : ∀ c cs, Nat.toDigits 10 n ≠ '0' :: c :: cs := by
    intro c cs heq
    rcases Nat.eq_zero_or_pos n with rfl | hpos
    · cases heq
    · exact head?_toDigits hpos (by rw [heq]; rfl)
  obtain ⟨c, ds, hds⟩ := List.exists_cons_of_ne_nil (Nat.toDigits_ne_nil (n := n) (b := 10))
  rw [hds] at hall hnatural hhead ⊢
  unfold canonicalNatural?
  split
  · next heq => cases heq
  · next c' cs heq => exact absurd heq (hhead c' cs)
  · rw [if_pos hall, hnatural]

/-- A natural number is read back where the bound of its type lets it. -/
theorem natural?_ofNat {n bound : Nat} (h : n < bound) : (ofNat n).natural? bound = some n := by
  rw [ofNat, natural?, canonicalNatural?_toDigits]
  exact if_pos h

/-- A name in a tree is looked up among the options, whatever the tree is read from. -/
theorem choice?_ofText {α : Type} (options : List (String × α)) (source : Source) (name : String) :
    choice? options source (ofText name) = options.lookup name := by
  show ((ofText name).text?).bind _ = _
  rw [text?_ofText, Option.bind_some]

theorem isWritten_ofText (text : String) : (ofText text).IsWritten := .string text.toList

/-- The digits of a natural number are a numeral. -/
theorem spellable_toDigits (n : Nat) :
    Numeral.Spellable ⟨false, Nat.toDigits 10 n, [], 0⟩ false where
  whole _ hc := isDigit_of_mem_digits hc
  fraction := nofun
  nonempty := Nat.toDigits_ne_nil
  leading ds heq := by
    change Nat.toDigits 10 n = '0' :: ds at heq
    rcases Nat.eq_zero_or_pos n with rfl | hpos
    · exact (List.cons.inj heq).2.symm
    · exact absurd (by rw [heq]; rfl) (head?_toDigits hpos)
  exponent _ := rfl

/-- That numeral is spelled with no more than its digits. -/
theorem spell_toDigits (n : Nat) :
    Numeral.spell ⟨false, Nat.toDigits 10 n, [], 0⟩ false = Nat.toDigits 10 n := by
  simp [Numeral.spell]

theorem isWritten_ofNat (n : Nat) : (ofNat n).IsWritten := by
  rw [ofNat, ← spell_toDigits]
  exact .number (spellable_toDigits n)

/-! ### Structures -/

/-- Under escaped names the fields of a structure are found as they were. -/
theorem keyed?_map_escape (fields : List (String × Json)) :
    keyed? (fields.map fun (name, value) => (escape name.toList, value)) = some fields := by
  induction fields with
  | nil => rfl
  | cons field fields ih =>
    obtain ⟨name, value⟩ := field
    have hname : text? (.string (escape name.toList)) = some name := text?_ofText name
    unfold keyed? at ih ⊢
    rw [List.map_cons, List.mapM_cons, ih]
    simp only [hname]
    rfl

/-- The fields of a structure, by name. -/
def slots (fields : List (String × Json)) : Fields := fun name =>
  match fields.lookup name with
  | some value => .given value
  | none => .absent

/-- The fields of a structure are found by their names, which must differ. -/
theorem fields?_record {names : List String} {fields : List (String × Json)}
    (hnames : fields.map Prod.fst = names) (hnodup : names.Nodup) :
    fields? names (record fields) = some (slots fields) := by
  -- a name that stood there twice would be refused
  have honce : names.any (fun name => 1 < fields.countP (·.1 == name)) = false := by
    rw [List.any_eq_false]
    intro name _
    have hcount := List.nodup_iff_count_le_one.mp hnodup name
    rw [← hnames, List.count, List.countP_map] at hcount
    exact fun hmore => absurd (of_decide_eq_true hmore) (Nat.not_lt.mpr hcount)
  unfold fields? record
  simp only [keyed?_map_escape, Option.bind_eq_bind, Option.bind_some, honce]
  rfl

/-- A reader of a structure goes on with its fields, found by their names. -/
theorem bind_fields?_record {α : Type} (names : List String) {fields : List (String × Json)}
    (hnames : fields.map Prod.fst = names) (hnodup : names.Nodup) (f : Fields → Option α) :
    (fields? names (record fields) >>= f) = f (slots fields) := by
  rw [fields?_record hnames hnodup]
  rfl

/-- A structure can be written if its fields can, whatever their names. -/
theorem isWritten_record {fields : List (String × Json)} (h : ∀ f ∈ fields, f.2.IsWritten) :
    (record fields).IsWritten := by
  refine .object ?_ ?_
  · intro m hm
    obtain ⟨f, -, rfl⟩ := List.mem_map.mp hm
    exact ⟨f.1.toList, rfl⟩
  · intro m hm
    obtain ⟨f, hf, rfl⟩ := List.mem_map.mp hm
    exact h f hf

end Json

open Json (Source nullable? bind_fields?_record isWritten_record isWritten_ofText isWritten_ofNat)

/-! ### Addresses and counts -/

/-- No address reaches the bound that it is read under. -/
theorem addressOfJson?_ofNat (a : Address) : addressOfJson? (.ofNat a.toNat) = some a := by
  rw [addressOfJson?, Json.natural?_ofNat a.toNat_lt, Option.map_some, UInt32.ofNat_toNat]

theorem countOfJson?_ofNat (n : UInt64) : countOfJson? (.ofNat n.toNat) = some n := by
  rw [countOfJson?, Json.natural?_ofNat n.toNat_lt, Option.map_some, UInt64.ofNat_toNat]

/-! ### Cells -/

/-- The names of the kinds are told apart. -/
theorem CellKind.lookup_name (kind : CellKind) : CellKind.names.lookup kind.name = some kind := by
  cases kind <;> rfl

theorem LoadPolicy.lookup_name (policy : LoadPolicy) :
    LoadPolicy.names.lookup policy.name = some policy := by
  cases policy <;> rfl

theorem Architecture.lookup_name (arch : Architecture) :
    Architecture.names.lookup arch.name = some arch := by
  cases arch <;> rfl

/-- A cell is read back with its text and its tag. -/
theorem Cell.ofJson?_toJson (source : Source) (cell : Cell) :
    Cell.ofJson? source cell.toJson = some cell := by
  refine (bind_fields?_record ["text", "kind"] rfl (by decide) _).trans ?_
  -- what the reader does once the two fields are found
  show (Json.text? (.ofText cell.text)).bind (fun text =>
    (Json.choice? CellKind.names source (.ofText cell.kind.name)).bind fun kind =>
      some (⟨text, kind⟩ : Cell)) = _
  rw [Json.text?_ofText, Json.choice?_ofText, CellKind.lookup_name]
  rfl

theorem Cell.isWritten_toJson (cell : Cell) : cell.toJson.IsWritten := by
  refine isWritten_record ?_
  simp only [List.mem_cons, List.not_mem_nil, or_false]
  rintro f (rfl | rfl)
  · exact isWritten_ofText _
  · exact isWritten_ofText _

/-! ### Maps of cells -/

namespace AddressMap

variable {α : Type}

/-- Of entries in ascending order no later one overwrites an earlier one, so a map that they go into
looks each of them up, and what it held before only at other addresses. -/
theorem get?_foldl_insert (m : AddressMap α) {l : List (Address × α)} (h : Ascending l)
    (a : Address) :
    (l.foldl (fun m e => m.insert e.1 e.2) m).get? a = (lookup a l).or (m.get? a) := by
  induction l generalizing m with
  | nil => rfl
  | cons e rest ih =>
    obtain ⟨hfirst, hrest⟩ := List.pairwise_cons.mp h
    rw [List.foldl_cons, ih _ hrest, get?_insert, lookup]
    -- what comes later is at larger addresses, so nothing else is at this one
    by_cases hea : e.1 = a
    · have hnone : lookup a rest = none := by
        cases hv : lookup a rest with
        | none => rfl
        | some v =>
          exact absurd (hfirst (a, v) (mem_of_lookup hv)) (hea ▸ UInt32.lt_irrefl e.1)
      rw [if_pos hea, if_pos hea, hnone]
      rfl
    · rw [if_neg hea, if_neg hea]

/-- A map is the one of its entries. -/
theorem ofList_entries (m : AddressMap α) : ofList m.entries = m := by
  refine ext_get? fun a => ?_
  rw [ofList, get?_foldl_insert empty m.ascending, get?_empty, Option.or_none]
  rfl

/-- The cells of a space are read back under the digits of their addresses. -/
theorem ofJson?_toJson (cells : AddressMap Cell) :
    AddressMap.ofJson? .direct cells.toJson = some cells := by
  have hentries : (cells.entries.map fun e => (Nat.toDigits 10 e.1.toNat, e.2.toJson)).mapM
      (fun f => do
        let a ← keyAddress? .direct f.1
        let cell ← Cell.ofJson? .direct f.2
        return (a, cell)) = some cells.entries := by
    -- entry by entry: the key is the number of the address, and the value under it the cell
    induction cells.entries with
    | nil => rfl
    | cons e rest ih =>
      have hkey : keyAddress? .direct (Nat.toDigits 10 e.1.toNat) = some e.1 :=
        addressOfJson?_ofNat e.1
      rw [List.map_cons, List.mapM_cons, ih]
      simp only [hkey, Cell.ofJson?_toJson]
      rfl
  have hread : AddressMap.ofJson? .direct cells.toJson = some (AddressMap.ofList cells.entries) :=
    congrArg (·.bind fun entries => some (AddressMap.ofList entries)) hentries
  rw [hread, ofList_entries]

end AddressMap

/-! ### Memories -/

/-- A memory is read back by a reader that has been told its layout. -/
theorem Memory.ofJson?_toJson (mem : Memory) :
    Memory.ofJson? mem.architecture .direct mem.toJson = some mem := by
  obtain ⟨spaces, policy⟩ := mem
  cases spaces with
  | unified cells =>
    refine (bind_fields?_record ["cells", "load_policy"] rfl (by decide) _).trans ?_
    show (AddressMap.ofJson? .direct cells.toJson).bind (fun cells =>
      (Json.choice? LoadPolicy.names .direct (.ofText policy.name)).bind fun policy =>
        some (⟨.unified cells, policy⟩ : Memory)) = _
    rw [AddressMap.ofJson?_toJson, Json.choice?_ofText, LoadPolicy.lookup_name]
    rfl
  | split instructions data =>
    refine (bind_fields?_record ["instructions", "data", "load_policy"] rfl (by decide) _).trans ?_
    show (AddressMap.ofJson? .direct instructions.toJson).bind (fun instructions =>
      (AddressMap.ofJson? .direct data.toJson).bind fun data =>
        (Json.choice? LoadPolicy.names .direct (.ofText policy.name)).bind fun policy =>
          some (⟨.split instructions data, policy⟩ : Memory)) = _
    rw [AddressMap.ofJson?_toJson, AddressMap.ofJson?_toJson, Json.choice?_ofText,
      LoadPolicy.lookup_name]
    rfl

/-! ### Values -/

/-- A number written in JSON is a numeral that is read as the number. -/
theorem Json.float?_write {x : Float} (h : x.isFinite = true) :
    Json.float? (.number (jsonStyle.write x).toList) = some x ∧
      (Json.number (jsonStyle.write x).toList).IsWritten := by
  obtain ⟨numeral, powered, hspellable, hspell, hfloat⟩ :=
    Decimal.Style.write_spells jsonStyle h fun _ _ => rfl
  rw [hspell]
  refine ⟨?_, .number hspellable⟩
  rw [Json.float?, Numeral.ofChars?_spell hspellable]
  simp only [hfloat]
  exact if_pos ((Binary64.isFinite_iff x).mp h)

namespace Value

/-- The value as it comes back after being saved: a text as it is read. -/
def reloaded : Value → Value
  | .text s => parse s
  | v => v

/-- A finite number is saved as a number of JSON. -/
theorem toJson_of_isFinite {x : Float} (h : x.isFinite = true) :
    (number x).toJson = .number (jsonStyle.write x).toList := if_pos h

/-- JSON has no number for the others, which are saved as the texts that are written for them. -/
theorem toJson_of_not_isFinite {x : Float} (h : x.isFinite = false) :
    (number x).toJson = .ofText (numberText x) := if_neg (by rw [h]; decide)

/-- A text that was saved is parsed. -/
theorem ofJson?_ofText (s : String) : Value.ofJson? (.ofText s) = some (parse s) := by
  show (Json.text? (.ofText s)).map parse = _
  rw [Json.text?_ofText, Option.map_some]

/-- A number is read back from either form, and a text as it comes back. -/
theorem ofJson?_toJson (v : Value) : Value.ofJson? v.toJson = some v.reloaded := by
  cases v with
  | number x =>
    cases hfinite : x.isFinite with
    | true =>
      rw [toJson_of_isFinite hfinite]
      show (Json.float? _).map number = _
      rw [(Json.float?_write hfinite).1]
      rfl
    | false =>
      -- what is not finite is no zero
      have hsign : x ≠ -0 := by
        rintro rfl
        cases hfinite
      rw [toJson_of_not_isFinite hfinite, ofJson?_ofText, parse_numberText, if_neg hsign]
      rfl
  | text s => exact ofJson?_ofText s
  | empty => rfl

theorem isWritten_toJson (v : Value) : v.toJson.IsWritten := by
  cases v with
  | number x =>
    cases hfinite : x.isFinite with
    | true =>
      rw [toJson_of_isFinite hfinite]
      exact (Json.float?_write hfinite).2
    | false =>
      rw [toJson_of_not_isFinite hfinite]
      exact isWritten_ofText _
  | text s => exact isWritten_ofText s
  | empty => exact .null

end Value

/-! ### Registers and machines -/

/-- The accumulator as it comes back after being saved: one that holds nothing is one without a
value. -/
def reloadedAcc : Option Value → Option Value
  | some .empty => none
  | acc => acc.map Value.reloaded

/-- The registers as they come back after being saved. -/
def Registers.reloaded (regs : Registers) : Registers :=
  { regs with
    r1 := regs.r1.reloaded
    r2 := regs.r2.reloaded
    r3 := regs.r3.reloaded
    acc := reloadedAcc regs.acc }

/-- Every general register comes back by itself. -/
theorem Registers.get_reloaded (regs : Registers) (r : Register) :
    regs.reloaded.get r = (regs.get r).reloaded := by
  cases r <;> rfl

/-- The machine as it comes back after being saved. -/
def Machine.reloaded (m : Machine) : Machine := { m with registers := m.registers.reloaded }

/-- Only null is read as no value. -/
theorem Json.nullable?_of_ne_null {α : Type} (read : Json → Option α) {j : Json} (h : j ≠ .null) :
    nullable? read j = (read j).map some := by
  cases j
  case null => exact absurd rfl h
  all_goals rfl

/-- No number is saved as null. -/
theorem Value.toJson_number_ne_null (x : Float) : (number x).toJson ≠ .null := by
  cases hfinite : x.isFinite with
  | true =>
    rw [toJson_of_isFinite hfinite]
    exact nofun
  | false =>
    rw [toJson_of_not_isFinite hfinite]
    exact nofun

theorem nullable?_mar (mar : Option Address) :
    nullable? addressOfJson? (match mar with | none => .null | some a => .ofNat a.toNat)
      = some mar := by
  cases mar with
  | none => rfl
  | some a =>
    show (addressOfJson? (.ofNat a.toNat)).map some = _
    rw [addressOfJson?_ofNat, Option.map_some]

/-- No value in the accumulator and a value that is empty are both saved as null, which is read as
no value. -/
theorem nullable?_acc (acc : Option Value) :
    nullable? Value.ofJson? (match acc with | none => .null | some v => v.toJson)
      = some (reloadedAcc acc) := by
  cases acc with
  | none => rfl
  | some v =>
    cases v with
    | number x =>
      show nullable? Value.ofJson? (Value.number x).toJson = _
      rw [Json.nullable?_of_ne_null _ (Value.toJson_number_ne_null x), Value.ofJson?_toJson]
      rfl
    | text s =>
      show (Value.ofJson? (.ofText s)).map some = _
      rw [Value.ofJson?_ofText]
      rfl
    | empty => rfl

/-- The registers are read back as they come back, the fetch registers as they were. -/
theorem Registers.ofJson?_toJson (regs : Registers) :
    Registers.ofJson? regs.toJson = some regs.reloaded := by
  -- the general registers are one field, and the others a field each
  have hgeneral : generalOfJson? (.array [regs.r1.toJson, regs.r2.toJson, regs.r3.toJson])
      = some (regs.r1.reloaded, regs.r2.reloaded, regs.r3.reloaded) := by
    rw [generalOfJson?, Value.ofJson?_toJson, Value.ofJson?_toJson, Value.ofJson?_toJson]
    rfl
  refine (bind_fields?_record ["general", "ir", "mar", "mdr", "acc"] rfl (by decide) _).trans ?_
  show (generalOfJson? (.array [regs.r1.toJson, regs.r2.toJson, regs.r3.toJson])).bind
    (fun general => (Json.text? (.ofText regs.ir)).bind fun ir =>
      (nullable? addressOfJson?
        (match regs.mar with | none => .null | some a => .ofNat a.toNat)).bind fun mar =>
      (Json.text? (.ofText regs.mdr)).bind fun mdr =>
      (nullable? Value.ofJson? (match regs.acc with | none => .null | some v => v.toJson)).bind
        fun acc => some (⟨general.1, general.2.1, general.2.2, ir, mar, mdr, acc⟩ : Registers)) = _
  rw [hgeneral, Json.text?_ofText, nullable?_mar, Json.text?_ofText, nullable?_acc]
  rfl

/-- A machine is read back from its tree as it comes back. -/
theorem Machine.ofJson?_toJson (m : Machine) :
    Machine.ofJson? m.memory.architecture .direct m.toJson = some m.reloaded := by
  refine (bind_fields?_record ["registers", "pc", "memory", "instructions_started"] rfl (by decide)
    _).trans ?_
  show (Registers.ofJson? m.registers.toJson).bind (fun registers =>
    (addressOfJson? (.ofNat m.pc.toNat)).bind fun pc =>
      (Memory.ofJson? m.memory.architecture .direct m.memory.toJson).bind fun memory =>
        (countOfJson? (.ofNat m.started.toNat)).bind fun started =>
          some (⟨registers, pc, memory, started⟩ : Machine)) = _
  rw [Registers.ofJson?_toJson, addressOfJson?_ofNat, Memory.ofJson?_toJson, countOfJson?_ofNat]
  rfl

/-! ### What is written -/

/-- There is nothing to escape in the keys of a space, which are digits. -/
theorem AddressMap.isWritten_toJson (cells : AddressMap Cell) : cells.toJson.IsWritten := by
  refine .object ?_ ?_
  · intro m hm
    obtain ⟨e, -, rfl⟩ := List.mem_map.mp hm
    exact ⟨_, (Json.escape_digits fun c hc => isDigit_of_mem_digits hc).symm⟩
  · intro m hm
    obtain ⟨e, -, rfl⟩ := List.mem_map.mp hm
    exact e.2.isWritten_toJson

theorem Memory.isWritten_toJson (mem : Memory) : mem.toJson.IsWritten := by
  obtain ⟨spaces, policy⟩ := mem
  cases spaces with
  | unified cells =>
    refine isWritten_record ?_
    simp only [List.mem_cons, List.not_mem_nil, or_false]
    rintro f (rfl | rfl)
    · exact cells.isWritten_toJson
    · exact isWritten_ofText _
  | split instructions data =>
    refine isWritten_record ?_
    simp only [List.mem_cons, List.not_mem_nil, or_false]
    rintro f (rfl | rfl | rfl)
    · exact instructions.isWritten_toJson
    · exact data.isWritten_toJson
    · exact isWritten_ofText _

theorem Registers.isWritten_toJson (regs : Registers) : regs.toJson.IsWritten := by
  refine isWritten_record ?_
  simp only [List.mem_cons, List.not_mem_nil, or_false]
  rintro f (rfl | rfl | rfl | rfl | rfl)
  · refine .array ?_
    simp only [List.mem_cons, List.not_mem_nil, or_false]
    rintro j (rfl | rfl | rfl)
    · exact regs.r1.isWritten_toJson
    · exact regs.r2.isWritten_toJson
    · exact regs.r3.isWritten_toJson
  · exact isWritten_ofText _
  · cases regs.mar with
    | none => exact .null
    | some a => exact isWritten_ofNat _
  · exact isWritten_ofText _
  · cases regs.acc with
    | none => exact .null
    | some v => exact v.isWritten_toJson

theorem Machine.isWritten_toJson (m : Machine) : m.toJson.IsWritten := by
  refine isWritten_record ?_
  simp only [List.mem_cons, List.not_mem_nil, or_false]
  rintro f (rfl | rfl | rfl | rfl)
  · exact m.registers.isWritten_toJson
  · exact isWritten_ofNat _
  · exact m.memory.isWritten_toJson
  · exact isWritten_ofNat _

/-! ### Snapshots -/

namespace Snapshot

/-- The tree of a snapshot holds escaped texts and numerals only, so its text reads back. -/
theorem isWritten_toJson (m : Machine) : (toJson m).IsWritten := by
  refine isWritten_record ?_
  simp only [List.mem_cons, List.not_mem_nil, or_false]
  rintro f (rfl | rfl)
  · exact isWritten_ofText _
  · exact m.isWritten_toJson

/-- The layout comes before the machine in a snapshot, so the machine is read straight for it. -/
theorem ofJson?_toJson (m : Machine) : ofJson? (toJson m) = some m.reloaded := by
  -- both keys are known, so none is passed over
  have hfilter : ([("architecture", Json.ofText m.memory.architecture.name), ("machine", m.toJson)] :
      List (String × Json)).filter (fun (key, _) => key == "architecture" || key == "machine")
      = [("architecture", Json.ofText m.memory.architecture.name), ("machine", m.toJson)] := rfl
  unfold ofJson? toJson Json.record
  simp only [Json.keyed?_map_escape, Option.bind_eq_bind, Option.bind_some, hfilter,
    Json.choice?_ofText, Architecture.lookup_name, Machine.ofJson?_toJson]

/-- A saved machine is loaded as it comes back. -/
theorem load?_save (m : Machine) : load? (save m) = some m.reloaded := by
  rw [load?, save, Json.parse?_pretty (isWritten_toJson m), Option.bind_some, ofJson?_toJson]

/-- Every saved machine is loaded, with its memory, program counter, count and fetch registers as
they were. Of the values in the other registers a number is the same float, whether JSON has a
number for it or not, and a text is read as if it had been entered. Nothing in a general register
stays nothing; an accumulator that holds nothing is one without a value. -/
theorem load_of_saved (m : Machine) :
    ∃ m', load? (save m) = some m' ∧
      m'.memory = m.memory ∧ m'.memory.architecture = m.memory.architecture ∧
      m'.pc = m.pc ∧ m'.started = m.started ∧
      m'.registers.ir = m.registers.ir ∧ m'.registers.mar = m.registers.mar ∧
      m'.registers.mdr = m.registers.mdr ∧
      (∀ r, m'.registers.get r =
        match m.registers.get r with
        | .number x => .number x
        | .text s => Value.parse s
        | .empty => .empty) ∧
      m'.registers.acc =
        match m.registers.acc with
        | none => none
        | some (.number x) => some (.number x)
        | some (.text s) => some (Value.parse s)
        | some .empty => none := by
  refine ⟨m.reloaded, load?_save m, rfl, rfl, rfl, rfl, rfl, rfl, rfl, fun r => ?_, ?_⟩
  · have hget : m.reloaded.registers.get r = (m.registers.get r).reloaded :=
      m.registers.get_reloaded r
    rw [hget]
    cases m.registers.get r <;> rfl
  · show reloadedAcc m.registers.acc = _
    cases m.registers.acc with
    | none => rfl
    | some v => cases v <;> rfl

end Snapshot

end ToyCpu
