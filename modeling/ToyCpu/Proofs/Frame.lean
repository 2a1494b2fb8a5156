import ToyCpu.Execute
import ToyCpu.Machine
import ToyCpu.Memory.Lemmas

/-!
# What execution and edits leave alone

An instruction reaches the machine through a register, the accumulator and one data cell; an
edit through the memory or a general register. Neither touches what a fetch has filled in.

* `Registers.fetched` — the registers that only a fetch and a stop change.
* `execute_frames` — an instruction that is carried out changes at most one data cell.
* `Machine.apply_eq` — an edit changes the memory and the general registers.
-/

namespace ToyCpu

namespace Registers

/-- The registers that a fetch fills. -/
def fetched (regs : Registers) : Option Address × String × String := (regs.mar, regs.ir, regs.mdr)

/-- General registers are apart from those that a fetch fills. -/
@[simp] theorem fetched_set (regs : Registers) (r : Register) (v : Value) :
    (regs.set r v).fetched = regs.fetched := by
  cases r <;> rfl

end Registers

/-! ### Execution -/

/-- A memory after at most one write of data. -/
def Memory.StoredFrom (mem mem' : Memory) : Prop :=
  mem' = mem ∨ ∃ a text, mem' = mem.store a text

/-- What every instruction leaves alone: the fetch registers, and all cells but one of data. -/
structure Executed.Frames (done : Executed) (regs : Registers) (mem : Memory) : Prop where
  fetched : done.registers.fetched = regs.fetched
  memory : mem.StoredFrom done.memory

/-- What comes of two steps, of which both were carried out. -/
theorem ok_of_bind {ε α β : Type} {x : Except ε α} {f : α → Except ε β} {b : β}
    (h : x >>= f = .ok b) : ∃ a, x = .ok a ∧ f a = .ok b := by
  cases x with
  | error fault => cases h
  | ok a => exact ⟨a, rfl, h⟩

/-- A move changes a general register. -/
theorem executeMov_frames {operands : List String} {regs : Registers} {mem : Memory}
    {done : Executed} (h : executeMov operands regs mem = .ok done) : done.Frames regs mem := by
  unfold executeMov at h
  split at h
  · obtain ⟨v, -, h⟩ := ok_of_bind h
    obtain ⟨r, -, h⟩ := ok_of_bind h
    rw [← Except.ok.inj h]
    exact ⟨Registers.fetched_set _ _ _, .inl rfl⟩
  · cases h

/-- Arithmetic changes a general register and the accumulator. -/
theorem executeArithmetic_frames {op : Arithmetic} {operands : List String} {regs : Registers}
    {mem : Memory} {done : Executed} (h : executeArithmetic op operands regs mem = .ok done) :
    done.Frames regs mem := by
  unfold executeArithmetic at h
  split at h
  · obtain ⟨a, -, h⟩ := ok_of_bind h
    obtain ⟨b, -, h⟩ := ok_of_bind h
    obtain ⟨r, -, h⟩ := ok_of_bind h
    rw [← Except.ok.inj h]
    exact ⟨Registers.fetched_set _ _ _, .inl rfl⟩
  · cases h

/-- So does a load, which only reads the memory. -/
theorem executeLoad_frames {operands : List String} {regs : Registers} {mem : Memory}
    {done : Executed} (h : executeLoad operands regs mem = .ok done) : done.Frames regs mem := by
  unfold executeLoad at h
  split at h
  · split at h
    · cases h
    · split at h
      · cases h
      · obtain ⟨r, -, h⟩ := ok_of_bind h
        rw [← Except.ok.inj h]
        exact ⟨Registers.fetched_set _ _ _, .inl rfl⟩
  · cases h

/-- A store is the one instruction that writes, to one data cell. -/
theorem executeStore_frames {operands : List String} {regs : Registers} {mem : Memory}
    {done : Executed} (h : executeStore operands regs mem = .ok done) : done.Frames regs mem := by
  unfold executeStore at h
  split at h
  · split at h
    · rw [← Except.ok.inj h]
      exact ⟨rfl, .inr ⟨_, _, rfl⟩⟩
    · cases h
  · cases h

/-- An instruction that is carried out leaves the fetch registers alone and writes at most one
cell, as data. -/
theorem execute_frames {inst : Instruction} {regs : Registers} {mem : Memory} {done : Executed}
    (h : execute inst regs mem = .ok done) : done.Frames regs mem := by
  unfold execute at h
  split at h
  · exact executeMov_frames h
  · exact executeArithmetic_frames h
  · exact executeLoad_frames h
  · exact executeStore_frames h
  · cases h

/-- In a split memory a write of data leaves the instructions alone. -/
theorem Memory.StoredFrom.split {mem mem' : Memory} (h : mem.StoredFrom mem')
    (hsplit : mem.architecture = .split) :
    mem'.architecture = .split ∧ mem'.space .instruction = mem.space .instruction := by
  rcases h with rfl | ⟨a, text, rfl⟩
  · exact ⟨hsplit, rfl⟩
  · refine ⟨by rw [Memory.store, Memory.architecture_set, hsplit], ?_⟩
    rw [Memory.store, Memory.set, Memory.space_modifySpace, hsplit]
    rfl

/-! ### Edits -/

namespace Machine

/-- An edit changes the memory and the general registers only. -/
theorem apply_eq (m : Machine) (e : Edit) :
    ∃ (registers : Registers) (memory : Memory),
      (m.apply e).1 = { m with registers, memory } ∧ registers.fetched = m.registers.fetched := by
  cases e with
  | setRegister r v => exact ⟨_, m.memory, rfl, Registers.fetched_set m.registers r v⟩
  -- by `rfl` alone these two would compute what is loaded, and where
  | loadProgram text =>
    exact ⟨m.registers, (m.memory.loadProgram text).1, by dsimp only [apply], rfl⟩
  | setData value => exact ⟨m.registers, (m.memory.setData value).1, by dsimp only [apply], rfl⟩
  | setCell | deleteCell | resetMemory => exact ⟨m.registers, _, rfl, rfl⟩

@[simp] theorem apply_pc (m : Machine) (e : Edit) : (m.apply e).1.pc = m.pc := by
  obtain ⟨registers, memory, heq, -⟩ := m.apply_eq e
  rw [heq]

@[simp] theorem apply_started (m : Machine) (e : Edit) : (m.apply e).1.started = m.started := by
  obtain ⟨registers, memory, heq, -⟩ := m.apply_eq e
  rw [heq]

/-- No edit touches the registers that a fetch fills. -/
@[simp] theorem apply_fetched (m : Machine) (e : Edit) :
    (m.apply e).1.registers.fetched = m.registers.fetched := by
  obtain ⟨registers, memory, heq, hfetched⟩ := m.apply_eq e
  rw [heq]
  exact hfetched

end Machine

end ToyCpu
