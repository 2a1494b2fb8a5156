import ToyCpu.Proofs.Replay
import ToyCpu.Proofs.SnapshotCodec

/-!
# What can happen to a memory

A memory changes by a few operations, and whatever happens to a machine comes down to them: an
edit is one operation at most, an instruction stores one cell at most, and phases, stops and
snapshots leave the memory alone. The operations themselves come down to fewer. Programs and
values are written cell by cell, so what holds of every memory that can be brought about is shown
for the change of a single cell, for clearing and for the policy.

* `Memory.Operation`, `Memory.operate` — the operations.
* `Memory.IsInvariant` — what the simplest of them keep; `Memory.IsInvariant.operate` — so do all.
* `Memory.Operated` — any number of operations, one after the other.
* `execute_operated`, `Machine.apply_operated`, `Machine.replay_operated` — instructions, edits and
  sessions are made of operations.
* `Machine.Built` — the machines that can be brought about from an empty memory.
* `Machine.Built.operated` — operations on the empty memory bring about theirs.
-/

namespace ToyCpu

namespace Memory

/-- An operation that changes a memory. -/
inductive Operation where
  | set (a : Address) (text : String) (kind : CellKind)
  | delete (kind : CellKind) (a : Address)
  | store (a : Address) (text : String)
  | clear
  | clearInstructions
  | setPolicy (policy : LoadPolicy)
  | loadProgram (text : String)
  | setData (value : String)
  | resetDefaults

/-- Carries out an operation. -/
def operate (mem : Memory) : Operation → Memory
  | .set a text kind => mem.set a text kind
  | .delete kind a => mem.delete kind a
  | .store a text => mem.store a text
  | .clear => mem.clear
  | .clearInstructions => mem.clearInstructions
  | .setPolicy policy => { mem with policy }
  | .loadProgram text => (mem.loadProgram text).1
  | .setData value => (mem.setData value).1
  | .resetDefaults => mem.resetDefaults

/-! ### What every operation keeps -/

/-- A property that is kept when a cell is written or removed, when cells are cleared and when the
policy is chosen. -/
structure IsInvariant (P : Memory → Prop) : Prop where
  set : ∀ {mem : Memory} (a : Address) (text : String) (kind : CellKind),
    P mem → P (mem.set a text kind)
  delete : ∀ {mem : Memory} (kind : CellKind) (a : Address), P mem → P (mem.delete kind a)
  clear : ∀ {mem : Memory}, P mem → P mem.clear
  clearInstructions : ∀ {mem : Memory}, P mem → P mem.clearInstructions
  setPolicy : ∀ {mem : Memory} (policy : LoadPolicy), P mem → P { mem with policy }

namespace IsInvariant

variable {P : Memory → Prop} (h : IsInvariant P) {mem : Memory} (hmem : P mem)

include h hmem

-- Programs and values are written one cell after the other, with nothing in between.

/-- A program that is placed line by line from an address on keeps it. -/
theorem placeFrom (a : Address) (lines : List String) : P (mem.placeFrom a lines).1 := by
  induction lines generalizing mem a with
  | nil => exact hmem
  | cons line rest ih =>
    have hwritten := h.set a line .instruction hmem
    rw [Memory.placeFrom]
    split
    · exact hwritten
    · exact ih hwritten (a + 1)

theorem appendLines (lines : List String) : P (mem.appendLines lines).1 := by
  induction lines generalizing mem with
  | nil => exact hmem
  | cons line rest ih => exact ih (h.set mem.nextFreeInstruction line .instruction hmem)

theorem setAll (a : Address) (kind : CellKind) (texts : List String) :
    P (mem.setAll a kind texts) := by
  induction texts generalizing mem a with
  | nil => exact hmem
  | cons text rest ih => exact ih (h.set a text kind hmem) (a + 1)

/-- To load a program is to clear the instructions, or not, and to write its lines. -/
theorem loadProgram (text : String) : P (mem.loadProgram text).1 := by
  unfold Memory.loadProgram
  split
  · exact hmem
  · exact h.placeFrom (h.clearInstructions hmem) _ _
  · exact h.appendLines hmem _

theorem setData (value : String) : P (mem.setData value).1 := by
  unfold Memory.setData
  dsimp only
  split
  · exact hmem
  · exact h.set _ _ .data hmem

/-- The defaults are written into a cleared memory. -/
theorem resetDefaults : P mem.resetDefaults :=
  h.setAll (h.setAll (h.clear hmem) _ .instruction _) _ .data _

/-- Every operation keeps what the simplest keep. -/
theorem operate (op : Operation) : P (mem.operate op) := by
  cases op with
  | set a text kind => exact h.set a text kind hmem
  | delete kind a => exact h.delete kind a hmem
  | store a text => exact h.set a text .data hmem
  | clear => exact h.clear hmem
  | clearInstructions => exact h.clearInstructions hmem
  | setPolicy policy => exact h.setPolicy policy hmem
  | loadProgram text => exact h.loadProgram hmem text
  | setData value => exact h.setData hmem value
  | resetDefaults => exact h.resetDefaults hmem

end IsInvariant

/-! ### Any number of operations -/

/-- What any number of operations make of a memory. -/
inductive Operated (start : Memory) : Memory → Prop
  | refl : Operated start start
  | tail {mem : Memory} (h : Operated start mem) (op : Operation) : Operated start (mem.operate op)

variable {mem mem' mem'' : Memory}

theorem Operated.single (mem : Memory) (op : Operation) : mem.Operated (mem.operate op) :=
  .tail .refl op

/-- Operations may follow one another. -/
theorem Operated.trans (h : mem.Operated mem') (h' : mem'.Operated mem'') : mem.Operated mem'' := by
  induction h' with
  | refl => exact h
  | tail _ op ih => exact ih.tail op

/-- What every operation keeps is kept by any number of them. -/
theorem IsInvariant.operated {P : Memory → Prop} (h : IsInvariant P) (hmem : P mem)
    (hops : mem.Operated mem') : P mem' := by
  induction hops with
  | refl => exact hmem
  | tail _ op ih => exact h.operate ih op

/-- At most one write of data is at most one operation. -/
theorem StoredFrom.operated (h : mem.StoredFrom mem') : mem.Operated mem' := by
  rcases h with rfl | ⟨a, text, rfl⟩
  · exact .refl
  · exact .single mem (.store a text)

end Memory

/-! ### Instructions, edits and sessions -/

/-- An instruction is one operation at most, and then a store. -/
theorem execute_operated {inst : Instruction} {regs : Registers} {mem : Memory} {done : Executed}
    (h : execute inst regs mem = .ok done) : mem.Operated done.memory :=
  (execute_frames h).memory.operated

namespace Machine

/-- An edit is one operation at most. -/
theorem apply_operated (m : Machine) (e : Edit) : m.memory.Operated (m.apply e).1.memory := by
  cases e with
  | setCell a text kind => exact .single _ (.set a (Text.trim text) (kind.getD (Memory.kindAt a)))
  | deleteCell a space => exact .single _ (.delete (space.getD (Memory.kindAt a)) a)
  | resetMemory => exact .single _ .resetDefaults
  | setRegister r v => exact .refl
  -- as for what edits leave alone, `rfl` would compute what is loaded, and where
  | loadProgram text =>
    have hloaded : (m.apply (.loadProgram text)).1.memory =
        m.memory.operate (.loadProgram text) := by
      dsimp only [apply, Memory.operate]
    rw [hloaded]
    exact .single _ _
  | setData value =>
    have hset : (m.apply (.setData value)).1.memory = m.memory.operate (.setData value) := by
      dsimp only [apply, Memory.operate]
    rw [hset]
    exact .single _ _

/-- Of the phases only an execution reaches the memory. -/
theorem afterPhase_operated (m : Machine) (p : Phase) :
    m.memory.Operated (m.afterPhase p).memory := by
  unfold afterPhase
  split
  · split <;> exact .refl
  · exact .refl
  · split
    · next hdone => exact execute_operated hdone
    · exact .refl
  · split <;> exact .refl

/-- Of all entries only requests and phases reach the memory. -/
theorem afterEntry_operated (m : Machine) (e : Entry) :
    m.memory.Operated (m.afterEntry e).memory := by
  cases e with
  | handled r =>
    cases r with
    | wake | stop => exact .refl
    | edit edit => exact m.apply_operated edit
  | event event =>
    cases event with
    | phase number p a content duration => exact m.afterPhase_operated p
    | notice message => exact .refl
  | operated | issued | fault | slept | ended | blocked | said => exact .refl

/-- What a journal stands for is any number of operations. -/
theorem replay_operated (m : Machine) (j : Journal) : m.memory.Operated (m.replay j).memory := by
  induction j generalizing m with
  | nil => exact .refl
  | cons e rest ih => exact (m.afterEntry_operated e).trans (ih (m.afterEntry e))

/-! ### Machines that can be brought about -/

/-- The machines that can be brought about from an empty memory of a layout: by operations on the
memory, by instructions, edits and stops, at every moment of a session, and by loading what was
saved of such a machine. What is not memory may be set to anything in between. -/
inductive Built (arch : Architecture) : Machine → Prop
  | new : Built arch (.new (.empty arch))
  | operate {m : Machine} (hm : Built arch m) (op : Memory.Operation) :
      Built arch { m with memory := m.memory.operate op }
  | setRest {m : Machine} (hm : Built arch m) (registers : Registers) (pc : Address)
      (started : UInt64) : Built arch { m with registers, pc, started }
  | execute {m : Machine} (hm : Built arch m) {inst : Instruction} {done : Executed}
      (h : execute inst m.registers m.memory = .ok done) :
      Built arch { m with registers := done.registers, memory := done.memory }
  | apply {m : Machine} (hm : Built arch m) (e : Edit) : Built arch (m.apply e).1
  | reset {m : Machine} (hm : Built arch m) : Built arch m.reset
  | session {m : Machine} (hm : Built arch m) {timings : Timings} {j : Journal} {s : Session}
      (h : (Session.new m timings).Reaches j s) : Built arch s.machine
  | reload {m m' : Machine} (hm : Built arch m) (h : Snapshot.load? (Snapshot.save m) = some m') :
      Built arch m'

/-- Operations on the empty memory bring about the memory of every such machine. -/
theorem Built.operated {arch : Architecture} {m : Machine} (h : m.Built arch) :
    (Memory.empty arch).Operated m.memory := by
  induction h with
  | new => exact .refl
  | operate _ op ih => exact ih.tail op
  | setRest _ _ _ _ ih => exact ih
  | execute _ h ih => exact ih.trans (execute_operated h)
  | apply _ e ih => exact ih.trans (apply_operated _ e)
  | reset _ ih => exact ih
  | session _ h ih =>
    rw [Session.machine_eq_replay (Session.coherent_new _ _) h]
    exact ih.trans (replay_operated _ _)
  | reload _ h ih =>
    -- only registers come back otherwise than they were saved
    rw [Snapshot.load?_save] at h
    obtain rfl := Option.some.inj h
    exact ih

end Machine

end ToyCpu
