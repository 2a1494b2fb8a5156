import ToyCpu.Proofs.Replay

/-!
# The cycle in flight and what hosts see of it

A session keeps the cycle in flight and the mark of the end of memory to itself, while hosts see
the machine. The two never drift apart: no edit reaches the registers that a fetch has filled, an
execution neither, a stop clears the cycle together with them, and the program counter moves only
as the cycle is given up. So the registers always tell which instruction is under way, what is
executed has been decoded before, and the mark is only set where nothing could follow anyway.

* `Session.Truthful` — the machine tells of the cycle in flight, and of the end.
* `Session.truthful_of_coherent` — what every move keeps says so.
* `Session.Truthful.issues` — what is executed is what the instruction register holds.
* `cycle_in_flight_truthful` — at every moment of every session.
-/

namespace ToyCpu

open Session

namespace Session

/-- What the session keeps to itself is what its machine tells. -/
structure Truthful (s : Session) : Prop where
  /-- A cycle is only in flight once it has been fetched. -/
  pending : s.pendingPhase ≠ some .fetch
  address : ∀ c, s.cycle = some c →
    c.address = s.machine.pc ∧ s.machine.registers.mar = some s.machine.pc
  text : ∀ c, s.cycle = some c →
    s.machine.registers.ir = c.text ∧ s.machine.registers.mdr = c.text
  number : ∀ c, s.cycle = some c → c.number = s.machine.started
  /-- An instruction has been decoded when it is about to be executed. -/
  decoded : ∀ c, s.cycle = some c → c.next = .execute →
    c.decoded = some (Instruction.decode c.text)
  /-- The mark of the end is set between two cycles, and at the last address. -/
  atEnd : s.pastEnd = true → s.cycle = none ∧ s.machine.pc = 0xFFFFFFFF

/-- What every move keeps is that, said of the registers together. -/
theorem truthful_of_coherent {s : Session} (h : Coherent s) : s.Truthful := by
  have hfetched : ∀ c, s.cycle = some c →
      s.machine.registers.mar = some c.address ∧ s.machine.registers.ir = c.text ∧
        s.machine.registers.mdr = c.text := by
    intro c hc
    have hregs := (h.fits c hc).fetched
    simp only [Registers.fetched, Prod.mk.injEq] at hregs
    exact hregs
  constructor
  case pending =>
    intro hfetch
    obtain ⟨c, hc, hnext⟩ := Option.map_eq_some_iff.mp hfetch
    -- a cycle that begins runs its fetch at once, so none is left at it
    exact (h.fits c hc).begun hnext
  case address =>
    intro c hc
    have hpc := (h.fits c hc).address
    exact ⟨hpc.symm, hpc ▸ (hfetched c hc).1⟩
  case text =>
    intro c hc
    exact (hfetched c hc).2
  case number =>
    intro c hc
    exact (h.fits c hc).number
  case decoded =>
    intro c hc hnext
    exact (h.fits c hc).decoded hnext
  case atEnd =>
    intro hend
    constructor
    · cases hc : s.cycle with
      | none => rfl
      | some c => exact absurd (hend.symm.trans (h.onward c hc)) nofun
    · exact UInt32.toNat_inj.mp (toNat_of_succ_eq_zero (h.atEnd hend))

/-- What is handed to the execution unit is what the instruction register holds, so it never
has to be decoded then and there. -/
theorem Truthful.issues {s : Session} (h : s.Truthful) (hnext : s.pendingPhase = some .execute) :
    ∃ rest, s.step.2.2 = .issued (Instruction.decode s.machine.registers.ir) :: rest := by
  obtain ⟨c, hc, hexecute⟩ := Option.map_eq_some_iff.mp hnext
  rw [step_inFlight hc, runPhase_execute s hexecute, (h.text c hc).1, executePhase]
  -- the instruction was decoded in the phase before, so the text is not decoded again
  simp only [h.decoded c hc hexecute, Option.getD_some]
  cases execute (Instruction.decode c.text) s.machine.registers s.machine.memory with
  | ok done => exact ⟨_, rfl⟩
  | error f => exact ⟨_, rfl⟩

end Session

/-- Whatever is done to a new session, in any order, is made of moves; and at every moment of any
moves its machine tells of the cycle in flight and of the end: a cycle has been fetched, and its
address, its text and its number are those of the program counter, the fetch registers and the
count; what is about to be executed has been decoded; and past the end, which is at the last
address, no cycle is in flight. -/
theorem cycle_in_flight_truthful (m : Machine) (timings : Timings) (actions : List Action) :
    (Session.new m timings).Reaches ((Session.new m timings).performAll actions).2
        ((Session.new m timings).performAll actions).1 ∧
      ∀ (j : Journal) (s : Session), (Session.new m timings).Reaches j s → s.Truthful := by
  constructor
  · exact performAll_reaches _ actions
  · intro j s h
    exact truthful_of_coherent (coherent_of_reaches (coherent_new m timings) h)

end ToyCpu
