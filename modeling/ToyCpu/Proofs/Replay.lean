import ToyCpu.Proofs.Moves
import ToyCpu.Proofs.Scan

/-!
# Machines replayed from the journal

A session keeps more than a machine: a queue, a cycle with the text that it has captured, an
instruction decoded ahead of its execution. None of it is needed to know what becomes of the
machine. The requests carried out and the phases run, in the order of the journal, decide it.

* `Machine.afterRequest`, `Machine.afterPhase` — a request and a phase on a machine alone.
* `Machine.replay` — a journal on a machine alone.
* `Cycle.Fits`, `Coherent` — the cycle in flight agrees with the machine's fetch registers.
* `Stride` — a move as the journal shows it, with all that a phase says and does.
* `coherent_of_reaches`, `machine_eq_replay` — at every moment.
-/

namespace ToyCpu

namespace Machine

/-- A request carried out on a machine alone. -/
def afterRequest (m : Machine) : Request → Machine
  | .wake => m
  | .stop => m.reset
  | .edit e => (m.apply e).1

/-- A phase run on a machine alone: a fetch looks for the instruction there and then, and what
is executed is the text in the instruction register. -/
def afterPhase (m : Machine) : Phase → Machine
  | .fetch =>
    match m.memory.nextInstruction? m.pc with
    | none => m
    | some a =>
      let text := (m.memory.fetch? a).getD ""
      { m with
        pc := a
        started := m.started + 1
        registers := { m.registers with mar := some a, ir := text, mdr := text } }
  | .decode => m
  | .execute =>
    match execute (Instruction.decode m.registers.ir) m.registers m.memory with
    | .ok done => { m with registers := done.registers, memory := done.memory }
    | .error _ => m
  | .writeback => if m.pc + 1 = 0 then m else { m with pc := m.pc + 1 }

/-- What an entry of a journal stands for on a machine alone. Only requests that were carried
out and phases that ran count. -/
def afterEntry (m : Machine) : Entry → Machine
  | .handled r => m.afterRequest r
  | .event (.phase _ p _ _ _) => m.afterPhase p
  | _ => m

/-- The requests and phases of a journal, one after the other, on a machine alone. -/
def replay (m : Machine) (j : Journal) : Machine := j.foldl afterEntry m

@[simp] theorem replay_nil (m : Machine) : m.replay [] = m := rfl

@[simp] theorem replay_cons (m : Machine) (e : Entry) (j : Journal) :
    m.replay (e :: j) = (m.afterEntry e).replay j := rfl

@[simp] theorem replay_append (m : Machine) (j j' : Journal) :
    m.replay (j ++ j') = (m.replay j).replay j' :=
  List.foldl_append

/-- Messages do not count. -/
@[simp] theorem replay_notices (m : Machine) (messages : List String) :
    m.replay (messages.map Session.notice) = m := by
  induction messages with
  | nil => rfl
  | cons message rest ih => exact ih

/-- Faults do not count. -/
@[simp] theorem replay_faults (m : Machine) (a : Address) (text : String) (faults : List Fault) :
    m.replay (faults.map (Entry.fault a · text)) = m := by
  induction faults with
  | nil => rfl
  | cons f rest ih => exact ih

/-- Remarks do not count. -/
theorem afterEntry_of_isRemark {e : Entry} (h : e.IsRemark) (m : Machine) : m.afterEntry e = m := by
  cases e with
  | event e =>
    cases e with
    | phase => cases h
    | notice => rfl
  | operated | handled | issued | fault => cases h
  | slept | ended | blocked | said => rfl

end Machine

open Session

/-! ### The cycle in flight -/

/-- A cycle in flight is the one that the machine's fetch registers, program counter and count
tell of, and once decoded it holds the instruction that its text writes. -/
structure Cycle.Fits (c : Cycle) (m : Machine) : Prop where
  begun : c.next ≠ .fetch
  address : m.pc = c.address
  fetched : m.registers.fetched = (some c.address, c.text, c.text)
  number : c.number = m.started
  decoded : c.next = .execute → c.decoded = some (Instruction.decode c.text)

/-- Every cycle in flight fits the machine, and none is in flight past the end. -/
structure Coherent (s : Session) : Prop where
  fits : ∀ c, s.cycle = some c → c.Fits s.machine
  onward : ∀ c, s.cycle = some c → s.pastEnd = false
  atEnd : s.pastEnd = true → s.machine.pc + 1 = 0

/-- A change that leaves the fetch registers, the program counter and the count alone. -/
theorem Cycle.Fits.congr {c : Cycle} {m m' : Machine} (h : c.Fits m) (hpc : m'.pc = m.pc)
    (hfetched : m'.registers.fetched = m.registers.fetched) (hstarted : m'.started = m.started) :
    c.Fits m' where
  begun := h.begun
  address := hpc.trans h.address
  fetched := hfetched.trans h.fetched
  number := h.number.trans hstarted.symm
  decoded := h.decoded

/-- The instruction register holds the text of the cycle. -/
theorem Cycle.Fits.ir_eq {c : Cycle} {m : Machine} (h : c.Fits m) : m.registers.ir = c.text :=
  congrArg (·.2.1) h.fetched

namespace Session

/-- A new cycle is at the next instruction, with that cell's text. -/
theorem begin?_spec {s : Session} {c : Cycle} {machine : Machine}
    (h : s.begin? = some (c, machine)) :
    s.pastEnd = false ∧ s.machine.memory.nextInstruction? s.machine.pc = some c.address ∧
      s.machine.memory.fetch? c.address = some c.text ∧
      machine = { s.machine with started := s.machine.started + 1 } ∧
      c.number = s.machine.started + 1 ∧ c.next = .fetch := by
  unfold begin? at h
  split at h
  · cases h
  · next hend =>
    simp only [Option.bind_eq_bind, Option.bind_eq_some_iff] at h
    obtain ⟨a, ha, text, htext, h⟩ := h
    obtain ⟨rfl, rfl⟩ := Prod.mk.inj (Option.some.inj h)
    exact ⟨by simpa using hend, ha, htext, rfl, rfl, rfl⟩

/-- No cycle begins only past the end, or where there is no instruction left. -/
theorem begin?_eq_none_iff {s : Session} :
    s.begin? = none ↔
      s.pastEnd = true ∨ s.machine.memory.nextInstruction? s.machine.pc = none := by
  unfold begin?
  cases s.pastEnd with
  | true => simp
  | false =>
    cases ha : s.machine.memory.nextInstruction? s.machine.pc with
    | none => simp
    | some a =>
      obtain ⟨text, htext⟩ := Memory.fetch?_of_nextInstruction? ha
      simp [htext]

/-! ### What each phase does -/

theorem runPhase_fetch (s : Session) {c : Cycle} (h : c.next = .fetch) :
    s.runPhase c = (.phase .fetch s.timings.fetch,
      { s with
        machine := (fetchPhase s.machine c).machine
        cycle := some { c with next := .decode, decoded := none } },
      [.event (.phase c.number .fetch c.address c.text s.timings.fetch)]) := by
  simp [runPhase, phaseResult, h, fetchPhase, Phase.next?, Timings.of]

theorem runPhase_decode (s : Session) {c : Cycle} (h : c.next = .decode) :
    s.runPhase c = (.phase .decode s.timings.decode,
      { s with
        cycle := some { c with next := .execute, decoded := some (Instruction.decode c.text) } },
      [.event (.phase c.number .decode c.address
        ("Decoded: " ++ (Instruction.decode c.text).display) s.timings.decode)]) := by
  simp [runPhase, phaseResult, h, decodePhase, Phase.next?, Timings.of]

theorem executePhase_decoded (m : Machine) (c : Cycle) :
    (executePhase m c).decoded = none ∧ (executePhase m c).pastEnd = false := by
  unfold executePhase
  dsimp only
  split <;> exact ⟨rfl, rfl⟩

theorem runPhase_execute (s : Session) {c : Cycle} (h : c.next = .execute) :
    s.runPhase c = (.phase .execute s.timings.execute,
      { s with
        machine := (executePhase s.machine c).machine
        cycle := some { c with next := .writeback, decoded := none } },
      (executePhase s.machine c).journal ++ [.event (.phase c.number .execute c.address
        (executePhase s.machine c).content s.timings.execute)]) := by
  obtain ⟨hdecoded, hend⟩ := executePhase_decoded s.machine c
  simp [runPhase, phaseResult, h, hdecoded, hend, Phase.next?, Timings.of]

theorem runPhase_writeback (s : Session) {c : Cycle} (h : c.next = .writeback) :
    s.runPhase c = (.phase .writeback s.timings.writeback,
      { s with
        machine := (writebackPhase s.machine c).machine
        cycle := none
        pastEnd := s.pastEnd || (writebackPhase s.machine c).pastEnd },
      [.event (.phase c.number .writeback c.address (writebackPhase s.machine c).content
        s.timings.writeback)]) := by
  have hjournal : (writebackPhase s.machine c).journal = [] := by
    unfold writebackPhase
    split <;> rfl
  simp [runPhase, phaseResult, h, hjournal, Phase.next?, Timings.of]

/-- The machine after a fetch that was begun at the next instruction. -/
theorem fetchPhase_machine {m : Machine} {c : Cycle}
    (hnext : m.memory.nextInstruction? m.pc = some c.address)
    (htext : m.memory.fetch? c.address = some c.text) :
    (fetchPhase { m with started := m.started + 1 } c).machine = m.afterPhase .fetch := by
  unfold Machine.afterPhase
  rw [hnext]
  dsimp only
  rw [htext]
  rfl

/-- A fetch counts one instruction. -/
theorem afterPhase_fetch_started {m : Machine} {a : Address}
    (h : m.memory.nextInstruction? m.pc = some a) :
    (m.afterPhase .fetch).started = m.started + 1 := by
  unfold Machine.afterPhase
  rw [h]

/-- Only a fetch counts an instruction. -/
theorem afterPhase_started (m : Machine) {p : Phase} (h : p ≠ .fetch) :
    (m.afterPhase p).started = m.started := by
  unfold Machine.afterPhase
  split
  · exact absurd rfl h
  · rfl
  · split <;> rfl
  · split <;> rfl

/-- The machine after an execution. -/
theorem executePhase_machine {m : Machine} {c : Cycle} (hfits : c.Fits m)
    (hnext : c.next = .execute) : (executePhase m c).machine = m.afterPhase .execute := by
  unfold executePhase Machine.afterPhase
  -- what was decoded ahead is what the instruction register decodes to now
  rw [hfits.decoded hnext, hfits.ir_eq, Option.getD_some]
  dsimp only
  cases execute (Instruction.decode c.text) m.registers m.memory with
  | ok done => rfl
  | error f => rfl

/-- The faults that carrying out an instruction brings up, and the report of it. -/
def account : Except Fault Executed → List Fault × String
  | .ok done => (done.effect.warning.toList, done.effect.details)
  | .error f => ([f], f.message)

/-- What the journal says about an execution. -/
theorem executePhase_account {m : Machine} {c : Cycle} (hfits : c.Fits m)
    (hnext : c.next = .execute) :
    (executePhase m c).journal = .issued (Instruction.decode c.text) ::
        (account (execute (Instruction.decode c.text) m.registers m.memory)).1.map
          (Entry.fault c.address · c.text) ∧
      (executePhase m c).content
        = (account (execute (Instruction.decode c.text) m.registers m.memory)).2 := by
  unfold executePhase
  rw [hfits.decoded hnext, Option.getD_some]
  dsimp only
  cases execute (Instruction.decode c.text) m.registers m.memory with
  | ok done => exact ⟨rfl, rfl⟩
  | error f => exact ⟨rfl, rfl⟩

/-- An execution leaves the program counter, the count and the fetch registers alone, and writes at
most one data cell. -/
theorem executePhase_frames (m : Machine) (c : Cycle) :
    (executePhase m c).machine.pc = m.pc ∧ (executePhase m c).machine.started = m.started ∧
      (executePhase m c).machine.registers.fetched = m.registers.fetched ∧
      m.memory.StoredFrom (executePhase m c).machine.memory := by
  unfold executePhase
  dsimp only
  split
  · next done hdone =>
    have hframes := execute_frames hdone
    exact ⟨rfl, rfl, hframes.fetched, hframes.memory⟩
  · exact ⟨rfl, rfl, rfl, .inl rfl⟩

/-- What a writeback reports. -/
def onwardText (a : Address) : String :=
  if a + 1 = 0 then "PC -> end of memory" else "PC -> " ++ addressText (a + 1)

/-- A writeback moves the program counter on, except from the last address. -/
theorem writebackPhase_eq (m : Machine) (c : Cycle) :
    (writebackPhase m c).content = onwardText c.address ∧
      (writebackPhase m c).pastEnd = decide (c.address + 1 = 0) ∧
      (writebackPhase m c).machine =
        { m with pc := if c.address + 1 = 0 then m.pc else c.address + 1 } := by
  unfold writebackPhase onwardText
  by_cases hlast : c.address + 1 = 0
  · simp [hlast]
  · simp [hlast]

/-- The machine after a writeback. -/
theorem writebackPhase_machine {m : Machine} {c : Cycle} (hfits : c.Fits m) :
    (writebackPhase m c).machine = m.afterPhase .writeback := by
  unfold writebackPhase Machine.afterPhase
  rw [hfits.address]
  split <;> rfl

/-! ### Every move -/

/-- A fetch fills the registers with what the cycle has captured. -/
theorem fetch_coherent {s : Session} {c : Cycle} (hnext : c.next = .fetch)
    (hnumber : c.number = s.machine.started) (hend : s.pastEnd = false) :
    Coherent (s.runPhase c).2.1 := by
  rw [runPhase_fetch s hnext]
  refine { fits := fun c' hc' => ?_, onward := fun _ _ => hend,
           atEnd := fun h => absurd (hend.symm.trans h) (by decide) }
  cases hc'
  exact { begun := nofun, address := rfl, fetched := rfl, number := hnumber,
          decoded := nofun }

/-- A phase after the fetch keeps the cycle fitting the machine. -/
theorem phase_coherent {s : Session} {c : Cycle} (hfits : c.Fits s.machine)
    (hend : s.pastEnd = false) : Coherent (s.runPhase c).2.1 := by
  have hnotEnd : s.pastEnd = true → s.machine.pc + 1 = 0 :=
    fun h => absurd (hend.symm.trans h) (by decide)
  cases hnext : c.next with
  | fetch => exact absurd hnext hfits.begun
  | decode =>
    rw [runPhase_decode s hnext]
    refine { fits := fun c' hc' => ?_, onward := fun _ _ => hend, atEnd := hnotEnd }
    cases hc'
    exact { begun := nofun, address := hfits.address, fetched := hfits.fetched,
            number := hfits.number, decoded := fun _ => rfl }
  | execute =>
    rw [runPhase_execute s hnext]
    obtain ⟨hpc, hstarted, hfetched, -⟩ := executePhase_frames s.machine c
    refine { fits := fun c' hc' => ?_, onward := fun _ _ => hend,
             atEnd := fun h => absurd (hend.symm.trans h) (by decide) }
    cases hc'
    exact { begun := nofun, address := hpc.trans hfits.address,
            fetched := hfetched.trans hfits.fetched, number := hfits.number.trans hstarted.symm,
            decoded := nofun }
  | writeback =>
    rw [runPhase_writeback s hnext]
    refine { fits := nofun, onward := nofun, atEnd := fun h => ?_ }
    obtain ⟨-, hlast, hmachine⟩ := writebackPhase_eq s.machine c
    rw [hend, Bool.false_or, hlast, decide_eq_true_eq] at h
    -- at the last address the program counter stays where it is
    show (writebackPhase s.machine c).machine.pc + 1 = 0
    rw [hmachine, if_pos h, hfits.address, h]

/-- One move keeps the cycle in flight fitting the machine. -/
theorem coherent_move {s s' : Session} {j : Journal} (hs : Coherent s) (h : Move s j s') :
    Coherent s' := by
  cases h with
  | operate c => exact ⟨hs.fits, hs.onward, hs.atEnd⟩
  | @handle r rest hq =>
    cases r with
    | wake => exact ⟨hs.fits, hs.onward, hs.atEnd⟩
    | stop => exact ⟨nofun, nofun, nofun⟩
    | edit e =>
      -- the cell fetched may be another now, but the registers still hold what it was
      rw [handle_edit]
      exact { fits := fun c hc => (hs.fits c hc).congr (Machine.apply_pc _ e)
                (Machine.apply_fetched _ e) (Machine.apply_started _ e)
              onward := hs.onward
              atEnd := fun h => (Machine.apply_pc _ e).symm ▸ hs.atEnd h }
  | begin hcycle hbegin =>
    obtain ⟨hend, -, -, rfl, hnumber, hnext⟩ := begin?_spec hbegin
    exact fetch_coherent hnext hnumber hend
  | phase hcycle => exact phase_coherent (hs.fits _ hcycle) (hs.onward _ hcycle)
  | runDry => exact ⟨hs.fits, hs.onward, hs.atEnd⟩
  | drop => exact ⟨nofun, nofun, hs.atEnd⟩
  | remark => exact hs

end Session

/-! ### Moves as the journal shows them -/

/-- The phase that an entry says has run. -/
def Entry.phase? : Entry → Option Phase
  | .event (.phase _ p _ _ _) => some p
  | _ => none

namespace Journal

/-- No phase ran and no stop was carried out. -/
def Uninterrupted (j : Journal) : Prop := ∀ e ∈ j, e.phase? = none ∧ e ≠ .handled .stop

theorem uninterrupted_nil : Uninterrupted [] := fun _ he => absurd he List.not_mem_nil

theorem Uninterrupted.append {j j' : Journal} (h : j.Uninterrupted) (h' : j'.Uninterrupted) :
    (j ++ j').Uninterrupted := fun e he =>
  (List.mem_append.mp he).elim (h e) (h' e)

theorem nil_ne_append_cons {before after : Journal} {e : Entry} : [] ≠ before ++ e :: after :=
  fun h => absurd h.symm (List.append_ne_nil_of_right_ne_nil _ (List.cons_ne_nil _ _))

/-- An entry of a journal in two parts is an entry of one of them. -/
theorem append_eq_append_cons {j j' before after : Journal} {e : Entry}
    (h : j ++ j' = before ++ e :: after) :
    (∃ rest, j = before ++ e :: rest ∧ after = rest ++ j') ∨
      (∃ start, before = j ++ start ∧ j' = start ++ e :: after) := by
  rcases List.append_eq_append_iff.mp h with ⟨start, hbefore, hj'⟩ | ⟨rest, hj, hafter⟩
  · exact .inr ⟨start, hbefore, hj'⟩
  · cases rest with
    | nil =>
      rw [List.append_nil] at hj
      exact .inr ⟨[], by rw [hj, List.append_nil], hafter.symm⟩
    | cons e' rest =>
      obtain ⟨rfl, rfl⟩ := List.cons.inj hafter
      exact .inl ⟨rest, hj, rfl⟩

end Journal

/-- Entries that tell of no phase, of no stop, and of no cycle dropped. -/
def Entry.IsQuiet (e : Entry) : Prop :=
  e.phase? = none ∧ e ≠ .handled .stop ∧ e ≠ .ended .stopped ∧ ∀ inst, e ≠ .issued inst

/-- A move that leaves alone what decides which phase comes next: the cycle in flight, the
program counter, the count and the end. -/
structure Quiet (s : Session) (j : Journal) (s' : Session) : Prop where
  entries : ∀ e ∈ j, e.IsQuiet
  machine : s'.machine = s.machine.replay j
  cycle : s'.cycle = s.cycle
  pastEnd : s'.pastEnd = s.pastEnd
  pc : s'.machine.pc = s.machine.pc
  started : s'.machine.started = s.machine.started

/-- What an execution adds to a journal besides the instruction. -/
def execution (number : UInt64) (a : Address) (text : String) (duration : Milliseconds)
    (done : Except Fault Executed) : Journal :=
  (account done).1.map (Entry.fault a · text) ++
    [.event (.phase number .execute a (account done).2 duration)]

/-- A move as the journal shows it: quiet, an end to the cycle in flight, or a phase with all
that it says and does. -/
inductive Stride (s : Session) : Journal → Session → Prop
  | quiet {j : Journal} {s' : Session} (h : Quiet s j s') : Stride s j s'
  | stop {message : String} {s' : Session} (hmachine : s'.machine = s.machine.reset)
      (hcycle : s'.cycle = none) (hend : s'.pastEnd = false) :
      Stride s [.handled .stop, notice message] s'
  | drop : Stride s [.ended .stopped] { s with cycle := none }
  | fetch {c : Cycle} (hcycle : s.cycle = none) (hend : s.pastEnd = false)
      (hnext : s.machine.memory.nextInstruction? s.machine.pc = some c.address)
      (htext : s.machine.memory.fetch? c.address = some c.text)
      (hnumber : c.number = s.machine.started + 1) :
      Stride s [.event (.phase c.number .fetch c.address c.text s.timings.fetch)]
        { s with
          machine := s.machine.afterPhase .fetch
          cycle := some { c with next := .decode, decoded := none } }
  | decode {c : Cycle} (hcycle : s.cycle = some c) (hnext : c.next = .decode) :
      Stride s [.event (.phase c.number .decode c.address
          ("Decoded: " ++ (Instruction.decode c.text).display) s.timings.decode)]
        { s with
          cycle := some { c with next := .execute, decoded := some (Instruction.decode c.text) } }
  | execute {c : Cycle} (hcycle : s.cycle = some c) (hnext : c.next = .execute) :
      Stride s (.issued (Instruction.decode c.text) ::
          execution c.number c.address c.text s.timings.execute
            (execute (Instruction.decode c.text) s.machine.registers s.machine.memory))
        { s with
          machine := s.machine.afterPhase .execute
          cycle := some { c with next := .writeback, decoded := none } }
  | writeback {c : Cycle} (hcycle : s.cycle = some c) (hnext : c.next = .writeback) :
      Stride s [.event (.phase c.number .writeback c.address (writebackPhase s.machine c).content
          s.timings.writeback)]
        { s with
          machine := s.machine.afterPhase .writeback
          cycle := none
          pastEnd := decide (c.address + 1 = 0) }

namespace Session

/-- A single quiet entry, with a change to nothing but the link. -/
theorem quiet_of_link {s : Session} {e : Entry} (link : Link) (he : e.IsQuiet)
    (hafter : s.machine.afterEntry e = s.machine) : Quiet s [e] { s with link := link } where
  entries e' he' := by
    obtain rfl := List.mem_singleton.mp he'
    exact he
  machine := hafter.symm
  cycle := rfl
  pastEnd := rfl
  pc := rfl
  started := rfl

/-- Remarks tell of nothing that decides which phase comes next. -/
theorem isQuiet_of_isRemark {e : Entry} (h : e.IsRemark) : e.IsQuiet := by
  cases e with
  | event e =>
    cases e with
    | phase => cases h
    | notice => exact ⟨rfl, nofun, nofun, nofun⟩
  | ended outcome => exact ⟨rfl, nofun, fun heq => h (Entry.ended.inj heq), nofun⟩
  | operated | handled | issued | fault => cases h
  | slept | blocked | said => exact ⟨rfl, nofun, nofun, nofun⟩

theorem notice_isQuiet (message : String) : (notice message).IsQuiet :=
  ⟨rfl, nofun, nofun, nofun⟩

theorem quiet_edit (s : Session) (e : Edit) :
    Quiet s (s.handle (.edit e)).2 (s.handle (.edit e)).1 := by
  rw [handle_edit]
  refine { entries := fun e' he' => ?_, machine := ?_, cycle := rfl, pastEnd := rfl,
           pc := Machine.apply_pc _ e, started := Machine.apply_started _ e }
  · rcases List.mem_cons.mp he' with rfl | he'
    · exact ⟨rfl, nofun, nofun, nofun⟩
    · obtain ⟨message, -, rfl⟩ := List.mem_map.mp he'
      exact notice_isQuiet message
  · rw [Machine.replay_cons, Machine.replay_notices]
    rfl

/-- A phase after the fetch does what a machine alone would do. -/
theorem stride_phase {s : Session} {c : Cycle} (hs : Coherent s) (hcycle : s.cycle = some c) :
    Stride s (s.runPhase c).2.2 (s.runPhase c).2.1 := by
  have hfits := hs.fits c hcycle
  cases hnext : c.next with
  | fetch => exact absurd hnext hfits.begun
  | decode =>
    rw [runPhase_decode s hnext]
    exact .decode hcycle hnext
  | execute =>
    -- what the cycle holds agrees with the registers, which are all that the machine has
    obtain ⟨hjournal, hcontent⟩ := executePhase_account hfits hnext
    rw [runPhase_execute s hnext, hjournal, hcontent, executePhase_machine hfits hnext]
    exact .execute hcycle hnext
  | writeback =>
    have hlast := (writebackPhase_eq s.machine c).2.1
    rw [runPhase_writeback s hnext, hs.onward c hcycle, Bool.false_or, hlast,
      writebackPhase_machine hfits]
    exact .writeback hcycle hnext

/-- Every move of a coherent session, as the journal shows it. -/
theorem stride_of_move {s s' : Session} {j : Journal} (hs : Coherent s) (h : Move s j s') :
    Stride s j s' := by
  cases h with
  | operate c => exact .quiet (quiet_of_link _ ⟨rfl, nofun, nofun, nofun⟩ rfl)
  | @handle r rest hq =>
    cases r with
    | wake => exact .quiet (quiet_of_link _ ⟨rfl, nofun, nofun, nofun⟩ rfl)
    | stop => exact .stop rfl rfl rfl
    | edit e =>
      obtain ⟨hentries, hmachine, hcycle, hend, hpc, hstarted⟩ := (s.withQueue rest).quiet_edit e
      exact .quiet ⟨hentries, hmachine, hcycle, hend, hpc, hstarted⟩
  | begin hcycle hbegin =>
    obtain ⟨hend, hnext, htext, rfl, hnumber, hfetch⟩ := begin?_spec hbegin
    rw [runPhase_fetch _ hfetch]
    dsimp only
    -- the machine alone looks for the instruction again, and finds the same cell
    rw [fetchPhase_machine hnext htext]
    exact .fetch hcycle hend hnext htext hnumber
  | phase hcycle => exact stride_phase hs hcycle
  | runDry => exact .quiet (quiet_of_link _ (notice_isQuiet _) rfl)
  | drop => exact .drop
  | remark e he =>
    have hafter := Machine.afterEntry_of_isRemark he s.machine
    exact .quiet (quiet_of_link s.link (isQuiet_of_isRemark he) hafter)

/-- One move makes of the machine what its journal says. -/
theorem stride_replay {s s' : Session} {j : Journal} (h : Stride s j s') :
    s'.machine = s.machine.replay j := by
  cases h with
  | quiet h => exact h.machine
  | stop hmachine => exact hmachine
  | execute =>
    rw [Machine.replay_cons, execution, Machine.replay_append, Machine.replay_faults]
    rfl
  | drop | fetch | decode | writeback => rfl

/-- At every moment the cycle in flight fits the machine. -/
theorem coherent_of_reaches {s s' : Session} {j : Journal} (hs : Coherent s)
    (h : s.Reaches j s') : Coherent s' := by
  induction h with
  | refl => exact hs
  | tail _ hmove ih => exact coherent_move ih hmove

theorem coherent_new (m : Machine) (timings : Timings) : Coherent (Session.new m timings) :=
  ⟨nofun, nofun, nofun⟩

/-- At every moment the machine is what the journal so far makes of the machine at the start. -/
theorem machine_eq_replay {s s' : Session} {j : Journal} (hs : Coherent s)
    (h : s.Reaches j s') : s'.machine = s.machine.replay j := by
  induction h with
  | refl => rfl
  | tail hreach hmove ih =>
    -- the last move makes of the machine what it says, and those before it by induction
    rw [stride_replay (stride_of_move (coherent_of_reaches hs hreach) hmove), ih,
      Machine.replay_append]

end Session

end ToyCpu
