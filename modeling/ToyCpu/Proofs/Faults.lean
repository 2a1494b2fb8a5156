import ToyCpu.Proofs.Frame
import ToyCpu.Proofs.Worth
import ToyCpu.Session.Basic

/-!
# Faults

When an instruction is refused, with which fault, and what it changes if it is not. The checks
have an order, which is not the same for all mnemonics: the operands are counted before any is
looked at, and a load looks for its cell before its destination. Nothing is changed before the
last check, so a refused instruction leaves the machine as it is.

* `Mnemonic.text`, `Mnemonic.arity` — the mnemonics there are and the operands they take.
* `Register.IsNamedBy`, `Operand.Names` — what tokens name, said without the readers.
* `Instruction.Refused` — the faults, each with its condition.
* `Instruction.Changes` — what an instruction that is carried out changes.
* `execute_settled` — one or the other comes of every instruction.
* `execute_warning` — a division by zero is a warning and no fault.
* `execute_faults` — the outcome of every instruction.
-/

namespace ToyCpu

/-! ### Mnemonics -/

namespace Mnemonic

/-- How a mnemonic is spelled. -/
def text : Mnemonic → String
  | mov => "MOV"
  | arithmetic .add => "ADD"
  | arithmetic .sub => "SUB"
  | arithmetic .mul => "MUL"
  | arithmetic .div => "DIV"
  | load => "LOAD"
  | store => "STORE"

/-- How many operands a mnemonic takes. -/
def arity : Mnemonic → Nat
  | arithmetic _ => 3
  | mov | load | store => 2

/-- A mnemonic is read from its own spelling and no other. -/
theorem ofText?_eq_some_iff {op : String} {k : Mnemonic} : ofText? op = some k ↔ op = k.text := by
  constructor
  · intro h
    unfold ofText? at h
    split at h <;> cases h <;> rfl
  · rintro rfl
    obtain _ | op | _ | _ := k
    · rfl
    · cases op <;> rfl
    · rfl
    · rfl

theorem text_injective {k k' : Mnemonic} (h : k.text = k'.text) : k = k' := by
  have hread := ofText?_eq_some_iff.mpr h
  rw [ofText?_eq_some_iff.mpr rfl] at hread
  exact Option.some.inj hread

end Mnemonic

/-! ### What tokens name -/

/-- Capitals are 32 places before their small letters. -/
theorem toNat_toUpper (c : Char) :
    c.toUpper.toNat = if 97 ≤ c.toNat ∧ c.toNat ≤ 122 then c.toNat - 32 else c.toNat := by
  have hlower : ('a'.val ≤ c.val ∧ c.val ≤ 'z'.val) ↔ 97 ≤ c.toNat ∧ c.toNat ≤ 122 := Iff.rfl
  unfold Char.toUpper
  split
  · next h =>
    rw [if_pos (hlower.mp h)]
    show (c.val + ('A'.val - 'a'.val)).toNat = _
    rw [UInt32.toNat_add]
    have hle : 97 ≤ c.toNat ∧ c.toNat ≤ 122 := hlower.mp h
    show (c.toNat + 4294967264) % 2 ^ 32 = _
    omega
  · next h => rw [if_neg fun hle => h (hlower.mpr hle)]

/-- A name in capitals is spelled with a letter of either case. -/
theorem map_toUpper_eq_iff {cs : List Char} {d : Char} (hd : d.isDigit = true) :
    cs.map Char.toUpper = ['R', d] ↔ cs = ['R', d] ∨ cs = ['r', d] := by
  have hletter : ∀ c : Char, c.toUpper = 'R' ↔ c = 'R' ∨ c = 'r' := by
    intro c
    rw [← Char.toNat_inj, ← Char.toNat_inj, ← Char.toNat_inj, toNat_toUpper]
    show _ = 82 ↔ _ = 82 ∨ _ = 114
    split <;> omega
  have hdigit : ∀ c : Char, c.toUpper = d ↔ c = d := by
    intro c
    -- digits have no capitals, and no letter has a digit for its own
    obtain ⟨hle, hge⟩ := Char.isDigit_iff_toNat.mp hd
    change 48 ≤ d.toNat at hle
    change d.toNat ≤ 57 at hge
    rw [← Char.toNat_inj, ← Char.toNat_inj, toNat_toUpper]
    split <;> omega
  -- a text of any other length is no name, in either case
  rcases cs with _ | ⟨c, _ | ⟨e, _ | _⟩⟩
  · simp
  · simp
  · simp [hletter, hdigit, or_and_right]
  · simp

/-- A token is a register's name, in either case. -/
def Register.IsNamedBy (r : Register) (token : String) : Prop :=
  (Text.trimChars token.toList).map Char.toUpper = r.name.toList

/-- The reader of tokens finds a register exactly under its name. -/
theorem Register.ofToken?_eq_some_iff {token : String} {r : Register} :
    ofToken? token = some r ↔ r.IsNamedBy token := by
  unfold IsNamedBy ofToken?
  generalize Text.trimChars token.toList = cs
  cases r with
  | r1 =>
    refine Iff.trans ?_ (map_toUpper_eq_iff (d := '1') rfl).symm
    grind
  | r2 =>
    refine Iff.trans ?_ (map_toUpper_eq_iff (d := '2') rfl).symm
    grind
  | r3 =>
    refine Iff.trans ?_ (map_toUpper_eq_iff (d := '3') rfl).symm
    grind

/-- A token names one register at most. -/
theorem Register.IsNamedBy.unique {token : String} {r r' : Register} (h : r.IsNamedBy token)
    (h' : r'.IsNamedBy token) : r = r' :=
  Option.some.inj ((ofToken?_eq_some_iff.mpr h).symm.trans (ofToken?_eq_some_iff.mpr h'))

/-- A token names an address if the number that it is taken for is worth the address. -/
def Operand.Names (token : String) (a : Address) : Prop :=
  ∃ x, coerce? token = some x ∧ Binary64.IsWorth x a.toNat

/-- The reader of addresses finds one exactly where the token names it. -/
theorem Operand.address?_eq_some_iff {token : String} {a : Address} :
    address? token = some a ↔ Names token a := by
  unfold address? Names
  cases hread : coerce? token with
  | none => simp
  | some x =>
    -- what a number is worth is what the reader finds, if it finds a natural number at all
    simp only [Option.some.injEq, exists_eq_left', ← Binary64.natural?_eq_some_iff]
    cases hnatural : Binary64.natural? x with
    | none => simp
    | some n =>
      simp only [Option.some.injEq]
      have hlt := a.toNat_lt
      constructor
      · intro h
        split at h
        · next hn =>
          rw [← Option.some.inj h, UInt32.toNat_ofNat_of_lt' hn]
        · cases h
      · rintro rfl
        rw [if_pos hlt, UInt32.ofNat_toNat]

/-- A token names one address at most. -/
theorem Operand.Names.unique {token : String} {a a' : Address} (h : Names token a)
    (h' : Names token a') : a = a' :=
  Option.some.inj ((address?_eq_some_iff.mpr h).symm.trans (address?_eq_some_iff.mpr h'))

theorem destination_of_isNamedBy {token : String} {r : Register} (h : r.IsNamedBy token) :
    destination token = .ok r := by
  unfold destination
  rw [Register.ofToken?_eq_some_iff.mpr h]

theorem destination_of_not_isNamedBy {token : String} (h : ∀ r : Register, ¬ r.IsNamedBy token) :
    destination token = .error (.invalidDestination (Text.upperCase token)) := by
  unfold destination
  cases hread : Register.ofToken? token with
  | none => rfl
  | some r => exact absurd (Register.ofToken?_eq_some_iff.mp hread) (h r)

/-- An operation warns of nothing but a divisor that is worth nothing. -/
theorem Arithmetic.warning_iff (op : Arithmetic) (x y : Float) (f : Fault) :
    (op.apply x y).2 = some f ↔ f = .divisionByZero ∧ op = .div ∧ Binary64.IsWorth y 0 := by
  cases op with
  | add | sub | mul => simp [apply]
  | div =>
    simp only [apply, Binary64.isWorth_zero_iff, ← Binary64.beq_zero_iff, true_and]
    by_cases hzero : (y == 0) = true
    · simp [hzero, eq_comm]
    · simp [hzero]

/-! ### Refused instructions -/

namespace Instruction

/-- The faults of an instruction, in the order in which they are looked for. Of a load the
address comes before the destination. -/
inductive Refused (inst : Instruction) (mem : Memory) : Fault → Prop
  /-- The mnemonic is none that there is. -/
  | unknown (hop : ∀ k : Mnemonic, inst.op ≠ k.text) :
      Refused inst mem (.unknownInstruction inst.display)
  /-- There are fewer operands than the mnemonic takes, whatever they are. -/
  | missing {k : Mnemonic} (hop : inst.op = k.text) (hfew : inst.operands.length < k.arity) :
      Refused inst mem .missingOperand
  /-- What a load is to read is no address of a cell. -/
  | address {dest source : String} {rest : List String} (hop : inst.op = Mnemonic.load.text)
      (hoperands : inst.operands = dest :: source :: rest)
      (hcell : ∀ a, Operand.Names source a → mem.read? a = none) :
      Refused inst mem (.addressNotFound source)
  /-- The result is to go where there is no register. -/
  | destination {k : Mnemonic} {dest : String} {rest : List String} (hop : inst.op = k.text)
      (hk : k ≠ .store) (hoperands : inst.operands = dest :: rest)
      (henough : k.arity ≤ inst.operands.length)
      (hcell : k = .load → ∃ source a text, rest.head? = some source ∧ Operand.Names source a ∧
        mem.read? a = some text)
      (hdest : ∀ r : Register, ¬ r.IsNamedBy dest) :
      Refused inst mem (.invalidDestination (Text.upperCase dest))
  /-- What is stored is no register, or where it is stored is no address. -/
  | store {source target : String} {rest : List String} (hop : inst.op = Mnemonic.store.text)
      (hoperands : inst.operands = source :: target :: rest)
      (hnone : (∀ r : Register, ¬ r.IsNamedBy source) ∨ ∀ a, ¬ Operand.Names target a) :
      Refused inst mem (.invalidStore (Text.upperCase source) target)

/-- What an instruction that is carried out changes: a register, and the accumulator with it
unless it is moved to, or one data cell. Only a division has anything to warn of. -/
inductive Changes (inst : Instruction) (regs : Registers) (mem : Memory) : Executed → Prop
  | mov {dest source : String} {rest : List String} {r : Register} {v : Value} {effect : Effect}
      (hop : inst.op = Mnemonic.mov.text) (hoperands : inst.operands = dest :: source :: rest)
      (hdest : r.IsNamedBy dest) (hsource : Operand.resolve (some source) regs mem = .ok v)
      (hwarning : effect.warning = none) : Changes inst regs mem ⟨effect, regs.set r v, mem⟩
  | arithmetic {op : Arithmetic} {dest first second : String} {rest : List String} {r : Register}
      {x y v : Value} {effect : Effect} (hop : inst.op = (Mnemonic.arithmetic op).text)
      (hoperands : inst.operands = dest :: first :: second :: rest) (hdest : r.IsNamedBy dest)
      (hfirst : Operand.resolve (some first) regs mem = .ok x)
      (hsecond : Operand.resolve (some second) regs mem = .ok y)
      (hresult : v = .number (op.apply x.toNumber y.toNumber).1)
      (hwarning : ∀ f, effect.warning = some f ↔
        f = .divisionByZero ∧ op = .div ∧ Binary64.IsWorth y.toNumber 0) :
      Changes inst regs mem ⟨effect, { regs with acc := some v }.set r v, mem⟩
  | load {dest source text : String} {rest : List String} {r : Register} {a : Address} {v : Value}
      {effect : Effect} (hop : inst.op = Mnemonic.load.text)
      (hoperands : inst.operands = dest :: source :: rest) (hdest : r.IsNamedBy dest)
      (hsource : Operand.Names source a) (hread : mem.read? a = some text)
      (hresult : v = .parse text) (hwarning : effect.warning = none) :
      Changes inst regs mem ⟨effect, { regs with acc := some v }.set r v, mem⟩
  | store {source target : String} {rest : List String} {r : Register} {a : Address}
      {effect : Effect} (hop : inst.op = Mnemonic.store.text)
      (hoperands : inst.operands = source :: target :: rest) (hsource : r.IsNamedBy source)
      (htarget : Operand.Names target a) (hwarning : effect.warning = none) :
      Changes inst regs mem ⟨effect, regs, mem.store a (regs.get r).display⟩

/-- What the execution of an instruction comes to. -/
inductive Settled (inst : Instruction) (regs : Registers) (mem : Memory) :
    Except Fault Executed → Prop
  | refused {f : Fault} (h : inst.Refused mem f) : Settled inst regs mem (.error f)
  | done {done : Executed} (h : inst.Changes regs mem done) : Settled inst regs mem (.ok done)

end Instruction

open Instruction

variable {inst : Instruction} {regs : Registers} {mem : Memory}

/-- A mnemonic that there is has its own way of being carried out. -/
theorem execute_of_op {k : Mnemonic} (hop : inst.op = k.text) :
    execute inst regs mem = match k with
      | .mov => executeMov inst.operands regs mem
      | .arithmetic op => executeArithmetic op inst.operands regs mem
      | .load => executeLoad inst.operands regs mem
      | .store => executeStore inst.operands regs mem := by
  unfold execute
  rw [Mnemonic.ofText?_eq_some_iff.mpr hop]
  cases k <;> rfl

theorem execute_of_unknown (hop : ∀ k : Mnemonic, inst.op ≠ k.text) :
    execute inst regs mem = .error (.unknownInstruction inst.display) := by
  unfold execute
  cases hread : Mnemonic.ofText? inst.op with
  | none => rfl
  | some k => exact absurd (Mnemonic.ofText?_eq_some_iff.mp hread) (hop k)

/-- Without enough operands nothing else is looked at. -/
theorem execute_of_few {k : Mnemonic} (hop : inst.op = k.text)
    (hfew : inst.operands.length < k.arity) : execute inst regs mem = .error .missingOperand := by
  rw [execute_of_op hop]
  generalize inst.operands = operands at hfew ⊢
  cases k with
  | mov =>
    match operands, hfew with
    | [], _ => rfl
    | [_], _ => rfl
  | arithmetic op =>
    match operands, hfew with
    | [], _ => rfl
    | [_], _ => rfl
    | [_, _], _ => rfl
  | load =>
    match operands, hfew with
    | [], _ => rfl
    | [_], _ => rfl
  | store =>
    match operands, hfew with
    | [], _ => rfl
    | [_], _ => rfl

/-- A load whose address names no cell is refused before its destination is looked at. -/
theorem executeLoad_of_no_cell {dest source : String} {rest : List String}
    (h : ∀ a, Operand.Names source a → mem.read? a = none) :
    executeLoad (dest :: source :: rest) regs mem = .error (.addressNotFound source) := by
  unfold executeLoad
  simp only
  cases haddress : Operand.address? source with
  | none => rfl
  | some a =>
    simp only
    rw [h a (Operand.address?_eq_some_iff.mp haddress)]

/-- A load from a cell is refused for its destination only. -/
theorem executeLoad_of_cell {dest source text : String} {rest : List String} {a : Address}
    (hsource : Operand.Names source a) (hread : mem.read? a = some text) :
    ∃ effect : Register → Effect, (∀ r, (effect r).warning = none) ∧
      executeLoad (dest :: source :: rest) regs mem = (destination dest).map fun r =>
        ⟨effect r, { regs with acc := some (.parse text) }.set r (.parse text), mem⟩ := by
  unfold executeLoad
  simp only
  rw [Operand.address?_eq_some_iff.mpr hsource]
  simp only
  rw [hread]
  exact ⟨_, fun _ => rfl, rfl⟩

/-- A store from a register to an address is carried out. -/
theorem executeStore_of_some {source target : String} {rest : List String} {r : Register}
    {a : Address} (hsource : r.IsNamedBy source) (htarget : Operand.Names target a) :
    ∃ effect : Effect, effect.warning = none ∧ executeStore (source :: target :: rest) regs mem
      = .ok ⟨effect, regs, mem.store a (regs.get r).display⟩ := by
  unfold executeStore
  simp only
  rw [Register.ofToken?_eq_some_iff.mpr hsource, Operand.address?_eq_some_iff.mpr htarget]
  exact ⟨_, rfl, rfl⟩

/-- An instruction whose result goes to a register is refused for the register last. -/
theorem execute_to_register {k : Mnemonic} {dest : String} {rest : List String}
    (hop : inst.op = k.text) (hk : k ≠ .store) (hoperands : inst.operands = dest :: rest)
    (henough : k.arity ≤ inst.operands.length)
    (hcell : k = .load → ∃ source a text, rest.head? = some source ∧ Operand.Names source a ∧
      mem.read? a = some text) :
    ∃ next : Register → Executed,
      (∀ r : Register, r.IsNamedBy dest → inst.Changes regs mem (next r)) ∧
      execute inst regs mem = (destination dest).map next := by
  rw [execute_of_op hop]
  -- the operands are counted, so those that the mnemonic needs are there
  rw [hoperands] at henough ⊢
  cases k with
  | mov =>
    match rest, henough with
    | source :: rest, _ => exact ⟨_, fun r hdest => .mov hop hoperands hdest rfl rfl, rfl⟩
  | arithmetic op =>
    match rest, henough with
    | first :: second :: rest, _ =>
      exact ⟨_, fun r hdest =>
        .arithmetic hop hoperands hdest rfl rfl rfl (op.warning_iff _ _), rfl⟩
  | load =>
    obtain ⟨source, a, text, hsource, haddress, hread⟩ := hcell rfl
    obtain ⟨rest, rfl⟩ := List.head?_eq_some_iff.mp hsource
    obtain ⟨effect, hwarning, hexecute⟩ :=
      @executeLoad_of_cell regs mem dest source text rest a haddress hread
    exact ⟨_, fun r hdest => .load hop hoperands hdest haddress hread rfl (hwarning r), hexecute⟩
  | store => exact absurd rfl hk

/-- A store is refused if it has no register to read or no address to write to, and both are
reported. -/
theorem executeStore_of_none {source target : String} {rest : List String}
    (h : (∀ r : Register, ¬ r.IsNamedBy source) ∨ ∀ a, ¬ Operand.Names target a) :
    executeStore (source :: target :: rest) regs mem
      = .error (.invalidStore (Text.upperCase source) target) := by
  unfold executeStore
  simp only
  split
  · next r a hsource htarget =>
    rcases h with h | h
    · exact absurd (Register.ofToken?_eq_some_iff.mp hsource) (h r)
    · exact absurd (Operand.address?_eq_some_iff.mp htarget) (h a)
  · rfl

/-- Whatever is refused is refused with the first fault that is found. -/
theorem Instruction.Refused.execute_eq {f : Fault} (h : inst.Refused mem f) :
    execute inst regs mem = .error f := by
  cases h with
  | unknown hop => exact execute_of_unknown hop
  | missing hop hfew => exact execute_of_few hop hfew
  | address hop hoperands hcell =>
    rw [execute_of_op hop, hoperands]
    exact executeLoad_of_no_cell hcell
  | destination hop hk hoperands henough hcell hdest =>
    obtain ⟨next, -, hexecute⟩ := execute_to_register hop hk hoperands henough hcell
    rw [hexecute, destination_of_not_isNamedBy hdest]
    rfl
  | store hop hoperands hnone =>
    rw [execute_of_op hop, hoperands]
    exact executeStore_of_none hnone

/-! ### One or the other -/

theorem Instruction.Settled.of_refused {f : Fault} (h : inst.Refused mem f) :
    inst.Settled regs mem (execute inst regs mem) := by
  rw [h.execute_eq]
  exact .refused h

/-- An instruction whose result goes to a register is refused for the register or carried out, once
its cell is found if it needs one. -/
theorem settled_to_register {k : Mnemonic} {dest : String} {rest : List String}
    (hop : inst.op = k.text) (hk : k ≠ .store) (hoperands : inst.operands = dest :: rest)
    (henough : k.arity ≤ inst.operands.length)
    (hcell : k = .load → ∃ source a text, rest.head? = some source ∧ Operand.Names source a ∧
      mem.read? a = some text) : inst.Settled regs mem (execute inst regs mem) := by
  by_cases hdest : ∃ r : Register, r.IsNamedBy dest
  · obtain ⟨r, hdest⟩ := hdest
    obtain ⟨next, hnext, hexecute⟩ := execute_to_register hop hk hoperands henough hcell
    rw [hexecute, destination_of_isNamedBy hdest]
    exact .done (hnext r hdest)
  · exact .of_refused (.destination hop hk hoperands henough hcell (not_exists.mp hdest))

/-- A load finds a cell, and then goes on to its register, or it does not. -/
theorem settled_load {dest source : String} {rest : List String}
    (hop : inst.op = Mnemonic.load.text) (hoperands : inst.operands = dest :: source :: rest)
    (henough : Mnemonic.load.arity ≤ inst.operands.length) :
    inst.Settled regs mem (execute inst regs mem) := by
  -- the cell is looked for before the destination, so it is decided first here too
  by_cases hcell : ∃ a text, Operand.Names source a ∧ mem.read? a = some text
  · obtain ⟨a, text, haddress, hread⟩ := hcell
    exact settled_to_register hop nofun hoperands henough fun _ =>
      ⟨source, a, text, rfl, haddress, hread⟩
  · refine .of_refused (.address hop hoperands fun a haddress => ?_)
    cases hread : mem.read? a with
    | none => rfl
    | some text => exact absurd ⟨a, text, haddress, hread⟩ hcell

theorem settled_store {source target : String} {rest : List String}
    (hop : inst.op = Mnemonic.store.text) (hoperands : inst.operands = source :: target :: rest) :
    inst.Settled regs mem (execute inst regs mem) := by
  by_cases hboth : (∃ r : Register, r.IsNamedBy source) ∧ ∃ a, Operand.Names target a
  · obtain ⟨⟨r, hsource⟩, a, htarget⟩ := hboth
    obtain ⟨effect, hwarning, hexecute⟩ := executeStore_of_some hsource htarget
    rw [execute_of_op hop, hoperands]
    exact hexecute ▸ .done (.store hop hoperands hsource htarget hwarning)
  · refine .of_refused (.store hop hoperands ?_)
    simpa only [not_and_or, not_exists] using hboth

/-- Every instruction is either refused or carried out. -/
theorem execute_settled (inst : Instruction) (regs : Registers) (mem : Memory) :
    inst.Settled regs mem (execute inst regs mem) := by
  -- in the order of the checks: the mnemonic, the count of operands, and then what each mnemonic
  -- looks at
  by_cases hknown : ∃ k : Mnemonic, inst.op = k.text
  · obtain ⟨k, hop⟩ := hknown
    rcases Nat.lt_or_ge inst.operands.length k.arity with hfew | henough
    · exact .of_refused (.missing hop hfew)
    · -- every mnemonic takes two operands at least
      obtain ⟨first, second, rest, hoperands⟩ :
          ∃ first second rest, inst.operands = first :: second :: rest := by
        have htwo : 2 ≤ k.arity := by
          cases k with
          | mov | load | store => exact Nat.le_refl 2
          | arithmetic op => exact Nat.le_succ 2
        match inst.operands, htwo.trans henough with
        | first :: second :: rest, _ => exact ⟨first, second, rest, rfl⟩
      cases k with
      | mov => exact settled_to_register hop nofun hoperands henough nofun
      | arithmetic op => exact settled_to_register hop nofun hoperands henough nofun
      | load => exact settled_load hop hoperands henough
      | store => exact settled_store hop hoperands
  · exact .of_refused (.unknown (not_exists.mp hknown))

/-! ### Division by zero -/

theorem Mnemonic.text_eq_div_iff {k : Mnemonic} : k.text = "DIV" ↔ k = .arithmetic .div :=
  ⟨fun h => text_injective h, fun h => h ▸ rfl⟩

/-- The one warning there is comes from a division whose divisor is worth nothing. -/
theorem Instruction.Changes.warning_iff {done : Executed} (h : inst.Changes regs mem done)
    (f : Fault) : done.effect.warning = some f ↔ f = .divisionByZero ∧ inst.op = "DIV" ∧
      ∃ y, Operand.resolve inst.operands[2]? regs mem = .ok y ∧ Binary64.IsWorth y.toNumber 0 := by
  -- the mnemonics that are no division are settled alike: neither side can hold
  have hnone : ∀ {k : Mnemonic} {effect : Effect}, inst.op = k.text → k ≠ .arithmetic .div →
      effect.warning = none → ¬ effect.warning = some f ∧ ¬ inst.op = "DIV" := by
    intro k effect hop hk hwarning
    rw [hwarning, hop, Mnemonic.text_eq_div_iff]
    exact ⟨nofun, hk⟩
  cases h with
  | mov hop _ _ _ hwarning => simp [hnone hop nofun hwarning]
  | load hop _ _ _ _ _ hwarning => simp [hnone hop nofun hwarning]
  | store hop _ _ _ hwarning => simp [hnone hop nofun hwarning]
  | arithmetic hop hoperands _ _ hsecond _ hwarning =>
    rw [hwarning, hop, Mnemonic.text_eq_div_iff, Mnemonic.arithmetic.injEq, hoperands]
    simp only [List.getElem?_cons_succ, List.getElem?_cons_zero, hsecond, Except.ok.injEq,
      exists_eq_left']

/-- What ends in a fault was refused with it, for an instruction is settled in one way only. -/
theorem refused_of_error {f : Fault} (h : execute inst regs mem = .error f) :
    inst.Refused mem f := by
  have hsettled := execute_settled inst regs mem
  rw [h] at hsettled
  cases hsettled with
  | refused hrefused => exact hrefused

theorem changes_of_ok {done : Executed} (h : execute inst regs mem = .ok done) :
    inst.Changes regs mem done := by
  have hsettled := execute_settled inst regs mem
  rw [h] at hsettled
  cases hsettled with
  | done hchanges => exact hchanges

/-- What comes of any instruction. -/
theorem execute_faults (inst : Instruction) (regs : Registers) (mem : Memory) :
    (∀ f, execute inst regs mem = .error f ↔ inst.Refused mem f) ∧
    ((∃ done, execute inst regs mem = .ok done) ↔ ∀ f, ¬ inst.Refused mem f) ∧
    ¬ inst.Refused mem .divisionByZero ∧
    (∀ done, execute inst regs mem = .ok done →
      inst.Changes regs mem done ∧
      ∀ f, done.effect.warning = some f ↔ f = .divisionByZero ∧ inst.op = "DIV" ∧
        ∃ y, Operand.resolve inst.operands[2]? regs mem = .ok y ∧
          Binary64.IsWorth y.toNumber 0) ∧
    (∀ (m : Machine) (c : Cycle) f, m.memory = mem → c.decoded = some inst →
      inst.Refused mem f → (Session.executePhase m c).machine = m ∧
        (Session.executePhase m c).journal = [.issued inst, .fault c.address f c.text]) := by
  refine ⟨fun f => ⟨refused_of_error, Refused.execute_eq⟩, ⟨?_, ?_⟩, nofun, ?_, ?_⟩
  · rintro ⟨done, hdone⟩ f h
    rw [h.execute_eq] at hdone
    cases hdone
  · intro h
    cases hexecute : execute inst regs mem with
    | error f => exact absurd (refused_of_error hexecute) (h f)
    | ok done => exact ⟨done, rfl⟩
  · intro done hdone
    exact ⟨changes_of_ok hdone, (changes_of_ok hdone).warning_iff⟩
  · rintro m c f rfl hdecoded h
    have hexecute : execute inst m.registers m.memory = .error f := h.execute_eq
    unfold Session.executePhase
    simp only
    rw [hdecoded, Option.getD_some, hexecute]
    exact ⟨rfl, rfl⟩

end ToyCpu
