import ToyCpu.Proofs.Decoding
import ToyCpu.Proofs.Replay
import ToyCpu.Proofs.SnapshotCodec

/-!
# What registers can hold

Values come into a register by arithmetic, by reading a text, or as an operand that is neither a
register nor a number. So a text in a register is one that reads as itself, but for `NaN`, which
an operand may be and which reads as a number. This is kept by everything that can happen to a
machine, and it is why a machine that is saved, loaded and saved again gives the same text.

* `Value.Canonical`, `Registers.Canonical` — what registers can hold.
* `execute_canonical`, `canonical_replay`, `Snapshot.canonical_of_load?` — and keep holding.
* `Machine.Reachable` — the machines that a program, a host and a file can bring about.
* `Machine.Reachable.resaved` — such a machine is saved, loaded and saved again.
-/

namespace ToyCpu

/-! ### The values -/

namespace Value

/-- A text that is read as itself. -/
def ReadsAsText (s : String) : Prop := parse s = .text s

/-- What a general register can hold. -/
inductive Canonical : Value → Prop
  | number (x : Float) : Canonical (.number x)
  | text {s : String} (h : ReadsAsText s) : Canonical (.text s)
  | nan : Canonical (.text "NaN")
  | empty : Canonical .empty

/-- What the accumulator can hold. -/
inductive CanonicalAcc : Option Value → Prop
  | none : CanonicalAcc none
  | number (x : Float) : CanonicalAcc (some (.number x))
  | text {s : String} (h : ReadsAsText s) : CanonicalAcc (some (.text s))

/-- A text is read as a number or as itself. -/
theorem parse_cases (s : String) : (∃ x, parse s = .number x) ∨ parse s = .text s := by
  unfold parse
  cases coerce? s with
  | some x => exact .inl ⟨x, rfl⟩
  | none =>
    by_cases hnan : Text.trim s == "NaN"
    · exact .inl ⟨Binary64.nan, if_pos hnan⟩
    · exact .inr (if_neg hnan)

/-- What is read from a text is canonical, and so it is in the accumulator. -/
theorem canonical_parse (s : String) : (parse s).Canonical := by
  rcases parse_cases s with ⟨x, h⟩ | h
  · rw [h]
    exact .number x
  · rw [h]
    exact .text h

theorem canonicalAcc_parse (s : String) : CanonicalAcc (some (parse s)) := by
  rcases parse_cases s with ⟨x, h⟩ | h
  · rw [h]
    exact .number x
  · rw [h]
    exact .text h

/-- A value that is read out of a register is canonical whatever the register holds. -/
theorem canonical_reread (v : Value) : v.reread.Canonical := by
  cases v with
  | number x => exact .number x
  | text s => exact canonical_parse s
  | empty => exact canonical_parse ""

end Value

/-- Canonical values in all registers. -/
structure Registers.Canonical (regs : Registers) : Prop where
  general : ∀ r, (regs.get r).Canonical
  acc : Value.CanonicalAcc regs.acc

namespace Registers

/-- At first there are numbers in the registers and no value in the accumulator. -/
theorem canonical_default : Registers.Canonical {} where
  general r := by cases r <;> exact .number 0
  acc := .none

theorem Canonical.set {regs : Registers} (h : regs.Canonical) (r : Register) {v : Value}
    (hv : v.Canonical) : (regs.set r v).Canonical where
  general r' := by
    rw [get_set]
    split
    · exact hv
    · exact h.general r'
  acc := by
    rw [acc_set]
    exact h.acc

theorem Canonical.setAcc {regs : Registers} (h : regs.Canonical) {acc : Option Value}
    (hacc : Value.CanonicalAcc acc) : ({ regs with acc } : Registers).Canonical where
  general r := by cases r <;> first | exact h.general .r1 | exact h.general .r2 | exact h.general .r3
  acc := hacc

/-- The fetch registers do not count. -/
theorem Canonical.fetched {regs : Registers} (h : regs.Canonical) (mar : Option Address)
    (ir mdr : String) : ({ regs with mar, ir, mdr } : Registers).Canonical where
  general r := by cases r <;> first | exact h.general .r1 | exact h.general .r2 | exact h.general .r3
  acc := h.acc

end Registers

/-! ### Tokens -/

/-- A word of an instruction: some characters, none of them a blank. -/
structure IsWord (token : String) : Prop where
  nonempty : token.toList ≠ []
  unblank : ∀ c ∈ token.toList, Text.isBlank c = false

/-- The operands of a decoded instruction are words. -/
theorem Instruction.isWord_of_mem_decode {text token : String}
    (h : token ∈ (Instruction.decode text).operands) : IsWord token := by
  have htoken := (Instruction.spelled_decode text).isToken_of_mem h
  constructor
  · exact htoken.nonempty
  · intro c hc
    exact (Bool.or_eq_false_iff.mp (htoken.unseparated c hc)).1

/-- There is nothing to trim from a word. -/
theorem IsWord.trim_eq {token : String} (h : IsWord token) : Text.trim token = token := by
  rw [Text.trim, Text.trimChars_eq_self h.unblank, String.ofList_toList]

/-- The value of a word is canonical. A word that is no register, no address and no number is
kept as it is, and of those only `NaN` is read otherwise. -/
theorem Operand.canonical_value {token : String} (h : IsWord token) (regs : Registers)
    (mem : Memory) : (Operand.value token regs mem).Canonical := by
  have hnonempty : token.toList.isEmpty = false := List.isEmpty_eq_false_iff.mpr h.nonempty
  -- in the order in which a word is looked at: a register, an immediate, an address, and then the
  -- word itself
  unfold Operand.value
  dsimp only
  split
  · exact Value.canonical_reread _
  · split
    · exact Value.canonical_parse _
    · split
      · split
        · exact Value.canonical_parse _
        · exact .empty
      · rw [if_neg (by rw [hnonempty]; decide)]
        split
        · exact .number _
        · next hnumber =>
          by_cases hnan : token = "NaN"
          · rw [hnan]
            exact .nan
          · refine .text ?_
            unfold Value.ReadsAsText Value.parse
            rw [hnumber, h.trim_eq]
            exact if_neg (by rw [beq_iff_eq]; exact hnan)

/-! ### Instructions -/

/-- A move writes the value of a word. -/
theorem executeMov_canonical {operands : List String} {regs : Registers} {mem : Memory}
    {done : Executed} (hwords : ∀ t ∈ operands, IsWord t) (hregs : regs.Canonical)
    (h : executeMov operands regs mem = .ok done) : done.registers.Canonical := by
  unfold executeMov at h
  split at h
  · next dest source rest =>
    obtain ⟨v, hv, h⟩ := ok_of_bind h
    obtain ⟨r, -, h⟩ := ok_of_bind h
    have hword := hwords source (List.mem_cons_of_mem dest List.mem_cons_self)
    have hvalue : Operand.value (Text.trim source) regs mem = v := Except.ok.inj hv
    rw [hword.trim_eq] at hvalue
    rw [← Except.ok.inj h, ← hvalue]
    exact hregs.set r (Operand.canonical_value hword regs mem)
  · cases h

/-- Arithmetic writes numbers. -/
theorem executeArithmetic_canonical {op : Arithmetic} {operands : List String} {regs : Registers}
    {mem : Memory} {done : Executed} (hregs : regs.Canonical)
    (h : executeArithmetic op operands regs mem = .ok done) : done.registers.Canonical := by
  unfold executeArithmetic at h
  split at h
  · obtain ⟨a, -, h⟩ := ok_of_bind h
    obtain ⟨b, -, h⟩ := ok_of_bind h
    obtain ⟨r, -, h⟩ := ok_of_bind h
    rw [← Except.ok.inj h]
    exact (hregs.setAcc (.number _)).set r (.number _)
  · cases h

/-- A load writes what it has read from a text. -/
theorem executeLoad_canonical {operands : List String} {regs : Registers} {mem : Memory}
    {done : Executed} (hregs : regs.Canonical) (h : executeLoad operands regs mem = .ok done) :
    done.registers.Canonical := by
  unfold executeLoad at h
  split at h
  · split at h
    · cases h
    · split at h
      · cases h
      · next text _ =>
        obtain ⟨r, -, h⟩ := ok_of_bind h
        rw [← Except.ok.inj h]
        exact (hregs.setAcc (Value.canonicalAcc_parse text)).set r (Value.canonical_parse text)
  · cases h

theorem executeStore_canonical {operands : List String} {regs : Registers} {mem : Memory}
    {done : Executed} (hregs : regs.Canonical) (h : executeStore operands regs mem = .ok done) :
    done.registers.Canonical := by
  unfold executeStore at h
  split at h
  · split at h
    · rw [← Except.ok.inj h]
      exact hregs
    · cases h
  · cases h

/-- An instruction whose operands are words keeps the registers canonical. -/
theorem execute_canonical {inst : Instruction} {regs : Registers} {mem : Memory} {done : Executed}
    (hwords : ∀ t ∈ inst.operands, IsWord t) (hregs : regs.Canonical)
    (h : execute inst regs mem = .ok done) : done.registers.Canonical := by
  unfold execute at h
  split at h
  · exact executeMov_canonical hwords hregs h
  · exact executeArithmetic_canonical hregs h
  · exact executeLoad_canonical hregs h
  · exact executeStore_canonical hregs h
  · cases h

/-! ### Requests and phases -/

/-- An edit that a host makes with what its user has entered: a register is set to a value that
was read from a text. -/
def Edit.IsEntered : Edit → Prop
  | .setRegister _ v => ∃ text, v = Value.parse text
  | _ => True

/-- Every edit carried out is one that was entered. -/
def Journal.EditsEntered (j : Journal) : Prop := ∀ e, .handled (.edit e) ∈ j → e.IsEntered

namespace Machine

/-- Of the edits only one writes to a register, and what was entered has been read from a text. -/
theorem apply_canonical {m : Machine} {e : Edit} (he : e.IsEntered)
    (h : m.registers.Canonical) : (m.apply e).1.registers.Canonical := by
  cases e with
  | setRegister r v =>
    obtain ⟨text, rfl⟩ := he
    exact h.set r (Value.canonical_parse text)
  | loadProgram text =>
    have hkept : (m.apply (.loadProgram text)).1.registers = m.registers := by dsimp only [apply]
    rw [hkept]
    exact h
  | setData value =>
    have hkept : (m.apply (.setData value)).1.registers = m.registers := by dsimp only [apply]
    rw [hkept]
    exact h
  | setCell | deleteCell | resetMemory => exact h

/-- Of the phases only an execution writes to the registers that count. -/
theorem afterPhase_canonical {m : Machine} (p : Phase) (h : m.registers.Canonical) :
    (m.afterPhase p).registers.Canonical := by
  unfold afterPhase
  split
  · split
    · exact h
    · exact h.fetched _ _ _
  · exact h
  · split
    · next done hdone =>
      exact execute_canonical (fun t ht => Instruction.isWord_of_mem_decode ht) h hdone
    · exact h
  · split
    · exact h
    · exact h

/-- What a journal stands for keeps the registers canonical. -/
theorem canonical_replay {m : Machine} {j : Journal} (hj : j.EditsEntered)
    (h : m.registers.Canonical) : (m.replay j).registers.Canonical := by
  -- only a request and a phase reach the registers
  induction j generalizing m with
  | nil => exact h
  | cons e j ih =>
    refine ih (fun edit hedit => hj edit (List.mem_cons_of_mem e hedit)) ?_
    cases e with
    | handled r =>
      cases r with
      | wake => exact h
      | stop => exact Registers.canonical_default
      | edit edit => exact apply_canonical (hj edit List.mem_cons_self) h
    | event event =>
      cases event with
      | phase number p a content duration => exact afterPhase_canonical p h
      | notice message => exact h
    | operated | issued | fault | slept | ended | blocked | said => exact h

end Machine

/-! ### Snapshots -/

/-- What is read for a value is a number, a text that has been read, or nothing. -/
theorem Value.canonical_of_ofJson? {j : Json} {v : Value} (h : Value.ofJson? j = some v) :
    v.Canonical := by
  unfold Value.ofJson? at h
  split at h
  · rw [← Option.some.inj h]
    exact .empty
  · obtain ⟨x, -, rfl⟩ := Option.map_eq_some_iff.mp h
    exact .number x
  · obtain ⟨text, -, rfl⟩ := Option.map_eq_some_iff.mp h
    exact canonical_parse text
  · cases h

/-- Nothing is not read for an accumulator: it is one without a value. -/
theorem Value.canonicalAcc_of_nullable? {j : Json} {acc : Option Value}
    (h : Json.nullable? Value.ofJson? j = some acc) : CanonicalAcc acc := by
  cases j with
  | null =>
    rw [← Option.some.inj h]
    exact .none
  | number literal =>
    obtain ⟨v, hv, rfl⟩ := Option.map_eq_some_iff.mp h
    obtain ⟨x, -, rfl⟩ := Option.map_eq_some_iff.mp hv
    exact .number x
  | string raw =>
    obtain ⟨v, hv, rfl⟩ := Option.map_eq_some_iff.mp h
    obtain ⟨text, -, rfl⟩ := Option.map_eq_some_iff.mp hv
    exact canonicalAcc_parse text
  | bool | array | object => cases h

theorem Registers.canonical_of_ofJson? {j : Json} {regs : Registers}
    (h : Registers.ofJson? j = some regs) : regs.Canonical := by
  -- the general registers are required, and the accumulator may be left out
  have hgeneral : ∀ {slot : Json.Slot} {a b c : Value},
      slot.required generalOfJson? = some (a, b, c) → a.Canonical ∧ b.Canonical ∧ c.Canonical := by
    intro slot a b c hslot
    cases slot with
    | absent | cut => cases hslot
    | given j =>
      change generalOfJson? j = _ at hslot
      unfold generalOfJson? at hslot
      split at hslot
      · simp only [Option.bind_eq_bind, Option.bind_eq_some_iff] at hslot
        obtain ⟨a', ha, b', hb, c', hc, heq⟩ := hslot
        cases heq
        exact ⟨Value.canonical_of_ofJson? ha, Value.canonical_of_ofJson? hb,
          Value.canonical_of_ofJson? hc⟩
      · cases hslot
  have hoptional : ∀ {slot : Json.Slot} {acc : Option Value},
      slot.optional Value.ofJson? = some acc → Value.CanonicalAcc acc := by
    intro slot acc hslot
    cases slot with
    | given j => exact Value.canonicalAcc_of_nullable? hslot
    | absent =>
      rw [← Option.some.inj hslot]
      exact .none
    | cut => cases hslot
  unfold Registers.ofJson? at h
  simp only [Option.bind_eq_bind, Option.bind_eq_some_iff] at h
  obtain ⟨fields, -, ⟨r1, r2, r3⟩, hvalues, ir, -, mar, -, mdr, -, acc, hacc, heq⟩ := h
  obtain ⟨h1, h2, h3⟩ := hgeneral hvalues
  cases heq
  refine ⟨fun r => ?_, hoptional hacc⟩
  cases r
  · exact h1
  · exact h2
  · exact h3

theorem Machine.canonical_of_ofJson? {arch : Architecture} {source : Json.Source} {j : Json}
    {m : Machine} (h : Machine.ofJson? arch source j = some m) : m.registers.Canonical := by
  unfold Machine.ofJson? at h
  simp only [Option.bind_eq_bind, Option.bind_eq_some_iff] at h
  obtain ⟨fields, -, registers, hregisters, pc, -, memory, -, started, -, heq⟩ := h
  cases heq
  cases hslot : fields "registers" with
  | given j =>
    rw [hslot] at hregisters
    exact Registers.canonical_of_ofJson? hregisters
  | absent | cut =>
    rw [hslot] at hregisters
    cases hregisters

/-- Whatever a text is that loads, the registers of the machine are canonical. -/
theorem Snapshot.canonical_of_load? {text : String} {m : Machine}
    (h : Snapshot.load? text = some m) : m.registers.Canonical := by
  obtain ⟨j, -, h⟩ := Option.bind_eq_some_iff.mp h
  -- layout and machine are found in an array, or in an object in either order
  unfold Snapshot.ofJson? at h
  split at h
  · obtain ⟨arch, -, h⟩ := Option.bind_eq_some_iff.mp h
    exact Machine.canonical_of_ofJson? h
  · obtain ⟨entries, -, h⟩ := Option.bind_eq_some_iff.mp h
    dsimp only at h
    split at h
    · obtain ⟨arch, -, h⟩ := Option.bind_eq_some_iff.mp h
      exact Machine.canonical_of_ofJson? h
    · split at h
      · obtain ⟨arch, -, h⟩ := Option.bind_eq_some_iff.mp h
        exact Machine.canonical_of_ofJson? h
      · cases h
    · cases h
  · cases h

/-! ### Reachable machines -/

/-- The machines that can be brought about: a new one or one that was loaded, after instructions
that were decoded, stops and edits that were entered, and at every moment of a session whose
edits were entered. -/
inductive Machine.Reachable : Machine → Prop
  | new (mem : Memory) : Reachable (.new mem)
  | load {text : String} {m : Machine} (h : Snapshot.load? text = some m) : Reachable m
  | execute {m : Machine} (hm : Reachable m) {text : String} {done : Executed}
      (h : execute (Instruction.decode text) m.registers m.memory = .ok done) :
      Reachable { m with registers := done.registers, memory := done.memory }
  | reset {m : Machine} (hm : Reachable m) : Reachable m.reset
  | apply {m : Machine} (hm : Reachable m) {e : Edit} (he : e.IsEntered) : Reachable (m.apply e).1
  | session {m : Machine} (hm : Reachable m) {timings : Timings} {j : Journal} {s : Session}
      (h : (Session.new m timings).Reaches j s) (hj : j.EditsEntered) : Reachable s.machine

namespace Machine

/-- The registers of every reachable machine are canonical. -/
theorem Reachable.canonical {m : Machine} (h : m.Reachable) : m.registers.Canonical := by
  induction h with
  | new => exact Registers.canonical_default
  | load h => exact Snapshot.canonical_of_load? h
  | execute _ h ih => exact execute_canonical (fun t ht => Instruction.isWord_of_mem_decode ht) ih h
  | reset => exact Registers.canonical_default
  | apply _ he ih => exact apply_canonical he ih
  | session _ h hj ih =>
    -- the machine is what the journal makes of the one that the session began with
    rw [Session.machine_eq_replay (Session.coherent_new _ _) h]
    exact canonical_replay hj ih

end Machine

/-! ### Saved, loaded and saved again -/

/-- A canonical value comes back as it was, but for the text `NaN`. -/
theorem Value.Canonical.reloaded_cases {v : Value} (h : v.Canonical) :
    v.reloaded = v ∨ v = .text "NaN" ∧ v.reloaded = .number Binary64.nan := by
  cases h with
  | number | empty => exact .inl rfl
  | text h => exact .inl h
  | nan => exact .inr ⟨rfl, rfl⟩

/-- A text that has become a number is saved as the same text. -/
theorem Value.Canonical.toJson_reloaded {v : Value} (h : v.Canonical) :
    v.reloaded.toJson = v.toJson := by
  rcases h.reloaded_cases with hsame | ⟨rfl, hnan⟩
  · rw [hsame]
  · rw [hnan]
    rfl

theorem Value.CanonicalAcc.reloadedAcc_eq {acc : Option Value} (h : CanonicalAcc acc) :
    reloadedAcc acc = acc := by
  cases h with
  | none | number => rfl
  | text h => exact congrArg some h

theorem Registers.Canonical.toJson_reloaded {regs : Registers} (h : regs.Canonical) :
    regs.reloaded.toJson = regs.toJson := by
  have h1 : regs.r1.reloaded.toJson = regs.r1.toJson := (h.general .r1).toJson_reloaded
  have h2 : regs.r2.reloaded.toJson = regs.r2.toJson := (h.general .r2).toJson_reloaded
  have h3 : regs.r3.reloaded.toJson = regs.r3.toJson := (h.general .r3).toJson_reloaded
  unfold Registers.toJson Registers.reloaded
  dsimp only
  rw [h1, h2, h3, h.acc.reloadedAcc_eq]

/-- A machine with canonical registers is saved again as it was saved before. -/
theorem Snapshot.save_reloaded {m : Machine} (h : m.registers.Canonical) :
    Snapshot.save m.reloaded = Snapshot.save m := by
  unfold Snapshot.save Snapshot.toJson Machine.toJson Machine.reloaded
  dsimp only
  rw [h.toJson_reloaded]

/-- The registers of a reachable machine are canonical. So the machine is saved and loaded
without a change, but that a general register with the text `NaN` holds the number then; and
when it is saved again, the text is the same. -/
theorem Machine.Reachable.resaved {m : Machine} (h : m.Reachable) :
    m.registers.Canonical ∧
    ∃ m', Snapshot.load? (Snapshot.save m) = some m' ∧
      (∃ r1 r2 r3, m' = { m with registers := { m.registers with r1, r2, r3 } }) ∧
      (∀ r, (m.registers.get r = .text "NaN" → m'.registers.get r = .number Binary64.nan) ∧
        (m.registers.get r ≠ .text "NaN" → m'.registers.get r = m.registers.get r)) ∧
      Snapshot.save m' = Snapshot.save m := by
  have hcanonical := h.canonical
  refine ⟨hcanonical, m.reloaded, Snapshot.load?_save m, ⟨m.registers.r1.reloaded,
    m.registers.r2.reloaded, m.registers.r3.reloaded, ?_⟩, fun r => ?_,
    Snapshot.save_reloaded hcanonical⟩
  · unfold Machine.reloaded Registers.reloaded
    rw [hcanonical.acc.reloadedAcc_eq]
  · have hget : m.reloaded.registers.get r = (m.registers.get r).reloaded :=
      m.registers.get_reloaded r
    rw [hget]
    refine ⟨fun hnan => ?_, fun hother => ?_⟩
    · rw [hnan]
      rfl
    · -- of all canonical values only the one text comes back otherwise
      rcases (hcanonical.general r).reloaded_cases with hsame | ⟨hnan, -⟩
      · exact hsame
      · exact absurd hnan hother

/-- After `MOV R1, NaN` the first register holds a text, and once saved and loaded the number. -/
theorem Machine.resaved_nan :
    ∃ m m' : Machine, m.Reachable ∧ m.registers.get .r1 = .text "NaN" ∧
      Snapshot.load? (Snapshot.save m) = some m' ∧
      m'.registers.get .r1 = .number Binary64.nan ∧ Snapshot.save m' = Snapshot.save m := by
  obtain ⟨done, hdone, hnan⟩ : ∃ done,
      execute (Instruction.decode "MOV R1, NaN") (Machine.new (.empty .split)).registers
        (Machine.new (.empty .split)).memory = .ok done ∧
      done.registers.get .r1 = .text "NaN" := ⟨_, rfl, rfl⟩
  have hreachable := (Machine.Reachable.new (.empty .split)).execute hdone
  obtain ⟨-, m', hload, -, hget, hsave⟩ := Machine.Reachable.resaved hreachable
  exact ⟨_, m', hreachable, hnan, hload, (hget .r1).1 hnan, hsave⟩

end ToyCpu
