import ToyCpu.Execute
import ToyCpu.Memory.Lemmas
import Mathlib.Data.List.Basic

/-!
# What an instruction cannot tell apart

An instruction sees of the registers what they read as and how they are written, and of the
memory what is read at each address. Two states that agree in that much may differ in all else,
the layout of their memories included: every instruction does the same in both, and what it
leaves agrees as much again.

* `Indistinct` — relations of registers and of memories that no instruction gets behind.
* `CarriedOn` — refused for the same reason, or carried out into related states.
* `Indistinct.execute` — one instruction on related states.
* `Memory.ReadsAs` — memories of any layouts that read the same everywhere.
* `executeAll` — instructions one after the other, with what each of them comes to.
* `layouts_execute_alike` — such memories run the same program the same way.
-/

namespace ToyCpu

/-- A relation of registers and one of memories that an instruction does not get behind: what
it reads is the same on both sides, and what it writes keeps the sides related. -/
structure Indistinct (Q : Registers → Registers → Prop) (R : Memory → Memory → Prop) : Prop where
  reread {regs regs' : Registers} (h : Q regs regs') (r : Register) :
    (regs.get r).reread = (regs'.get r).reread
  display {regs regs' : Registers} (h : Q regs regs') (r : Register) :
    (regs.get r).display = (regs'.get r).display
  set {regs regs' : Registers} (h : Q regs regs') (r : Register) (v : Value) :
    Q (regs.set r v) (regs'.set r v)
  setAcc {regs regs' : Registers} (h : Q regs regs') (acc : Option Value) :
    Q { regs with acc } { regs' with acc }
  read {mem mem' : Memory} (h : R mem mem') (a : Address) : mem.read? a = mem'.read? a
  store {mem mem' : Memory} (h : R mem mem') (a : Address) (text : String) :
    R (mem.store a text) (mem'.store a text)

/-- Refused for the same reason, or carried out with the same account into related states. -/
inductive CarriedOn (Q : Registers → Registers → Prop) (R : Memory → Memory → Prop) :
    Except Fault Executed → Except Fault Executed → Prop
  | refused (f : Fault) : CarriedOn Q R (.error f) (.error f)
  | done {effect : Effect} {regs regs' : Registers} {mem mem' : Memory} (hregs : Q regs regs')
      (hmem : R mem mem') : CarriedOn Q R (.ok ⟨effect, regs, mem⟩) (.ok ⟨effect, regs', mem'⟩)

namespace Indistinct

variable {Q : Registers → Registers → Prop} {R : Memory → Memory → Prop} (h : Indistinct Q R)
  {regs regs' : Registers} {mem mem' : Memory} (hregs : Q regs regs') (hmem : R mem mem')

include h hregs hmem

/-- An operand has the same value. -/
theorem resolve (token : Option String) :
    Operand.resolve token regs mem = Operand.resolve token regs' mem' := by
  cases token with
  | none => rfl
  | some t =>
    -- an operand reads the memory by addresses, and a register by what it reads as
    have hread : mem.read? = mem'.read? := funext (h.read hmem)
    unfold Operand.resolve Operand.value
    dsimp only
    rw [hread]
    cases Register.ofToken? (Text.trim t) with
    | none => rfl
    | some r => exact congrArg Except.ok (h.reread hregs r)

theorem executeMov (operands : List String) :
    CarriedOn Q R (executeMov operands regs mem) (executeMov operands regs' mem') := by
  rcases operands with _ | ⟨dest, _ | ⟨source, rest⟩⟩
  · exact .refused _
  · exact .refused _
  · unfold ToyCpu.executeMov
    dsimp only
    rw [h.resolve hregs hmem]
    cases Operand.resolve (some source) regs' mem' with
    | error f => exact .refused f
    | ok v =>
      cases destination dest with
      | error f => exact .refused f
      | ok r => exact .done (h.set hregs r v) hmem

/-- Arithmetic reads two operands, and writes its result twice. -/
theorem executeArithmetic (op : Arithmetic) (operands : List String) :
    CarriedOn Q R (executeArithmetic op operands regs mem)
      (executeArithmetic op operands regs' mem') := by
  rcases operands with _ | ⟨dest, _ | ⟨first, _ | ⟨second, rest⟩⟩⟩
  · exact .refused _
  · exact .refused _
  · exact .refused _
  · unfold ToyCpu.executeArithmetic
    dsimp only
    -- both operands are the same, so the checks go the same way on either side
    rw [h.resolve hregs hmem, h.resolve hregs hmem (some second)]
    cases Operand.resolve (some first) regs' mem' with
    | error f => exact .refused f
    | ok a =>
      cases Operand.resolve (some second) regs' mem' with
      | error f => exact .refused f
      | ok b =>
        cases destination dest with
        | error f => exact .refused f
        | ok r => exact .done (h.set (h.setAcc hregs _) r _) hmem

/-- A load reads the memory at an address that only its token decides. -/
theorem executeLoad (operands : List String) :
    CarriedOn Q R (executeLoad operands regs mem) (executeLoad operands regs' mem') := by
  rcases operands with _ | ⟨dest, _ | ⟨source, rest⟩⟩
  · exact .refused _
  · exact .refused _
  · unfold ToyCpu.executeLoad
    dsimp only
    cases Operand.address? source with
    | none => exact .refused _
    | some a =>
      dsimp only
      rw [h.read hmem a]
      cases mem'.read? a with
      | none => exact .refused _
      | some text =>
        cases destination dest with
        | error f => exact .refused f
        | ok r => exact .done (h.set (h.setAcc hregs _) r _) hmem

theorem executeStore (operands : List String) :
    CarriedOn Q R (executeStore operands regs mem) (executeStore operands regs' mem') := by
  rcases operands with _ | ⟨source, _ | ⟨target, rest⟩⟩
  · exact .refused _
  · exact .refused _
  · unfold ToyCpu.executeStore
    dsimp only
    cases Register.ofToken? source with
    | none => exact .refused _
    | some r =>
      cases Operand.address? target with
      | none => exact .refused _
      | some a =>
        dsimp only
        -- what is written is what the register shows, not what it reads as
        rw [h.display hregs r]
        exact .done hregs (h.store hmem a _)

/-- An instruction does the same in states that it cannot tell apart. -/
theorem execute (inst : Instruction) :
    CarriedOn Q R (execute inst regs mem) (execute inst regs' mem') := by
  unfold ToyCpu.execute
  split
  · exact h.executeMov hregs hmem _
  · exact h.executeArithmetic hregs hmem _ _
  · exact h.executeLoad hregs hmem _
  · exact h.executeStore hregs hmem _
  · exact .refused _

end Indistinct

/-! ### Memories of different layouts -/

/-- At every address the same text is read, or none. -/
def Memory.ReadsAs (mem mem' : Memory) : Prop := ∀ a, mem.read? a = mem'.read? a

/-- With the same registers an instruction does not see which layout a memory has. -/
theorem indistinct_readsAs : Indistinct (· = ·) Memory.ReadsAs where
  reread h r := by rw [h]
  display h r := by rw [h]
  set h r v := by rw [h]
  setAcc h acc := by rw [h]
  read h a := h a
  store h a text b := by
    rw [Memory.read?_store, Memory.read?_store, h b]

/-- What an instruction comes to: its account or the fault for which it is refused, and the
state after it. -/
structure Stage where
  report : Except Fault Effect
  registers : Registers
  memory : Memory

/-- Carries out instructions one after the other. One that is refused leaves the state as it
is. -/
def executeAll (regs : Registers) (mem : Memory) : List Instruction → List Stage
  | [] => []
  | inst :: rest =>
    match execute inst regs mem with
    | .ok done => ⟨.ok done.effect, done.registers, done.memory⟩ ::
        executeAll done.registers done.memory rest
    | .error f => ⟨.error f, regs, mem⟩ :: executeAll regs mem rest

/-- The same report and the same registers, with memories that read the same. -/
structure Stage.Alike (x x' : Stage) : Prop where
  report : x.report = x'.report
  registers : x.registers = x'.registers
  memory : x.memory.ReadsAs x'.memory

/-- On memories that read the same, of whichever layouts, and with the same registers, a program
runs the same way: each of its instructions has the same account or is refused for the same
reason, and leaves the same registers and memories that read the same. -/
theorem layouts_execute_alike {mem mem' : Memory} (h : mem.ReadsAs mem') (regs : Registers)
    (program : List Instruction) :
    List.Forall₂ Stage.Alike (executeAll regs mem program) (executeAll regs mem' program) := by
  induction program generalizing regs mem mem' with
  | nil => exact .nil
  | cons inst rest ih =>
    have hdone := indistinct_readsAs.execute (rfl : regs = regs) h inst
    unfold executeAll
    -- how it was carried out does not matter, only that both sides agree
    generalize execute inst regs mem = done at hdone
    generalize execute inst regs mem' = done' at hdone
    cases hdone with
    | refused f => exact .cons ⟨rfl, rfl, h⟩ (ih h regs)
    | done hregs hmem =>
      subst hregs
      exact .cons ⟨rfl, rfl, hmem⟩ (ih hmem _)

/-- A memory of one space, in which an instruction can be read. -/
def oneSpace : Memory :=
  ((Memory.empty .unified).set 1 "MOV R1, #5" .instruction).set 1000 "25" .data

/-- A memory of two spaces that reads the same, beside instructions of its own. -/
def twoSpaces : Memory :=
  (((Memory.empty .split).set 1 "MOV R1, #5" .data).set 1000 "25" .data).set 1000 "ADD" .instruction

/-- A program that reads and overwrites that instruction, and is refused twice. -/
theorem twoSpaces_execute_alike :
    oneSpace.architecture ≠ twoSpaces.architecture ∧ oneSpace.ReadsAs twoSpaces ∧
      let program := ["LOAD R1, 1", "STORE R1, 1001", "ADD R2, 1000, 1001", "STORE R2, 1",
        "MOV R4, 1", "LOAD R3, 7"].map Instruction.decode
      List.Forall₂ Stage.Alike (executeAll {} oneSpace program) (executeAll {} twoSpaces program) := by
  have hreads : oneSpace.ReadsAs twoSpaces := by
    intro a
    unfold oneSpace twoSpaces Memory.read?
    simp only [Memory.get?_set]
    by_cases h : 1000 = a
    · simp [h]
    · by_cases h' : 1 = a
      · simp [h, h']
      · simp [h, h']
        rfl
  exact ⟨by decide, hreads, layouts_execute_alike hreads _ _⟩

end ToyCpu
