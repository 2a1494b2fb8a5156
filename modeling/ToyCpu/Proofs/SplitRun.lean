import ToyCpu.Proofs.Course
import ToyCpu.Proofs.Replay
import ToyCpu.Session.Log

/-!
# Runs over a split memory

In a split memory a store goes to the space of the data, out of the program's reach. So a run
that nobody disturbs goes through the program as it was at the start, cell by cell, whatever
the instructions do; only what the executions report depends on registers and data.

* `Session.Ready` — a session that can run its program undisturbed.
* `programEvents` — the events of a program's cycles, but for what the executions report.
* `runFrom_cycle` — one cycle of a run.
* `RunsThrough` — a run that goes through a program from its first cell to its last.
* `split_run_exact` — a ready session's run does.
-/

namespace ToyCpu

open Session

/-- A session on a split memory, running and between two cycles, that nobody has asked for
anything. -/
structure Session.Ready (s : Session) : Prop where
  split : s.machine.memory.architecture = .split
  running : s.link.state = .running
  wakes : ∀ r ∈ s.link.queue, r = .wake
  cycle : s.cycle = none
  onward : s.pastEnd = false

theorem Journal.events_append (j j' : Journal) : (j ++ j').events = j.events ++ j'.events :=
  List.filterMap_append

/-- That time passes is no event. -/
theorem Journal.events_slept (j : Journal) (duration : Milliseconds) :
    Journal.events (j ++ [.slept duration]) = j.events := by
  rw [Journal.events_append]
  exact List.append_nil _

/-- That a request is carried out is no event. -/
theorem Journal.events_handled (rs : List Request) : Journal.events (rs.map .handled) = [] := by
  refine List.filterMap_eq_nil_iff.mpr fun e he => ?_
  obtain ⟨r, -, rfl⟩ := List.mem_map.mp he
  rfl

theorem RunResult.events_after (r : RunResult) (j : Journal) :
    (r.after j).journal.events = j.events ++ r.journal.events :=
  Journal.events_append j r.journal

/-! ### The events of a program -/

/-- The events of a cycle, with what its execution reports. -/
def cycleEvents (timings : Timings) (number : UInt64) (a : Address) (text report : String) :
    List TraceEvent :=
  [.phase number .fetch a text timings.fetch,
    .phase number .decode a ("Decoded: " ++ (Instruction.decode text).display) timings.decode,
    .phase number .execute a report timings.execute,
    .phase number .writeback a (onwardText a) timings.writeback]

/-- The events of a program's cycles, numbered from `number` on, with what each execution
reports. -/
def programEvents (timings : Timings) :
    UInt64 → List (Address × Cell) → List String → List TraceEvent
  | number, e :: program, report :: reports =>
    cycleEvents timings number e.1 e.2.text report ++
      programEvents timings (number + 1) program reports
  | _, _, _ => []

/-- Address and text of a fetch. -/
def TraceEvent.fetched? : TraceEvent → Option (Address × String)
  | .phase _ .fetch a text _ => some (a, text)
  | _ => none

/-- Whether this is a fetch, a decoding or a writeback. -/
def TraceEvent.isOfProgram : TraceEvent → Bool
  | .phase _ p _ _ _ => p != .execute
  | .notice _ => false

/-- Where a program leaves the program counter. -/
def pcAfter (pc : Address) (program : List (Address × Cell)) : Address :=
  match program.getLast? with
  | none => pc
  | some e => if e.1 + 1 = 0 then e.1 else e.1 + 1

variable {timings : Timings}

/-- The fetches are those of the program's cells. -/
theorem programEvents_fetched {number : UInt64} {program : List (Address × Cell)}
    {reports : List String} (h : reports.length = program.length) :
    (programEvents timings number program reports).filterMap TraceEvent.fetched? =
      program.map fun e => (e.1, e.2.text) := by
  induction program generalizing number reports with
  | nil =>
    rw [List.length_eq_zero_iff.mp h]
    rfl
  | cons e rest ih =>
    cases reports with
    | nil => cases h
    | cons report reports =>
      rw [programEvents, List.filterMap_append, ih (Nat.succ.inj h)]
      rfl

/-- What the executions report changes nothing else. -/
theorem programEvents_filter {number : UInt64} {program : List (Address × Cell)}
    {reports reports' : List String} (h : reports.length = program.length)
    (h' : reports'.length = program.length) :
    (programEvents timings number program reports).filter TraceEvent.isOfProgram =
      (programEvents timings number program reports').filter TraceEvent.isOfProgram := by
  induction program generalizing number reports reports' with
  | nil =>
    rw [List.length_eq_zero_iff.mp h, List.length_eq_zero_iff.mp h']
  | cons e rest ih =>
    cases reports with
    | nil => cases h
    | cons report reports =>
      cases reports' with
      | nil => cases h'
      | cons report' reports' =>
        rw [programEvents, programEvents, List.filter_append, List.filter_append,
          ih (Nat.succ.inj h) (Nat.succ.inj h')]
        rfl

theorem pcAfter_cons (pc : Address) (e : Address × Cell) (rest : List (Address × Cell)) :
    pcAfter pc (e :: rest) = pcAfter (if e.1 + 1 = 0 then e.1 else e.1 + 1) rest := by
  cases rest with
  | nil => rfl
  | cons e' rest =>
    unfold pcAfter
    rw [List.getLast?_cons_cons]
    cases hlast : (e' :: rest).getLast? with
    | none => simp at hlast
    | some _ => rfl

namespace Session

/-! ### Runs without a host -/

/-- A run during which the host does nothing comes from one session to another, and these are
the events on the way. -/
def Proceeds (s : Session) (events : List TraceEvent) (s' : Session) : Prop :=
  ∀ sleeps : List (List Control), (∀ turn ∈ sleeps, turn = []) →
    ∃ (rest : List (List Control)) (j : Journal), (∀ turn ∈ rest, turn = []) ∧
      s.runFrom sleeps = (s'.runFrom rest).after j ∧ j.events = events

theorem Proceeds.trans {s s' s'' : Session} {events events' : List TraceEvent}
    (h : s.Proceeds events s') (h' : s'.Proceeds events' s'') :
    s.Proceeds (events ++ events') s'' := by
  intro sleeps hquiet
  obtain ⟨rest, j, hrest, hrun, rfl⟩ := h sleeps hquiet
  obtain ⟨rest', j', hrest', hrun', rfl⟩ := h' rest hrest
  refine ⟨rest', j ++ j', hrest', ?_, Journal.events_append j j'⟩
  rw [hrun, hrun', RunResult.after_after]

/-- A step of an undisturbed run. -/
theorem proceeds_step {s s' : Session} {p : Phase} {duration : Milliseconds} {j : Journal}
    (h : s.Undisturbed) (hstep : s.step = (.phase p duration, s', j)) :
    s.Proceeds j.events s' := by
  intro sleeps hquiet
  obtain ⟨rest, hrest, hrun⟩ := h.runFrom_phase hstep hquiet
  exact ⟨rest, _, hrest, hrun, Journal.events_slept j duration⟩

/-! ### One cycle -/

/-- What a phase records besides its event is no event. -/
theorem phaseResult_events (m : Machine) (c : Cycle) : (phaseResult m c).journal.events = [] := by
  refine List.filterMap_eq_nil_iff.mpr fun e he => ?_
  rcases phaseResult_journal m c e he with ⟨inst, rfl⟩ | ⟨a, f, text, rfl⟩
  · rfl
  · rfl

/-- What a cycle at `a` leaves behind. -/
structure Passed (s : Session) (a : Address) (s' : Session) : Prop where
  link : s'.link = s.link
  timings : s'.timings = s.timings
  cycle : s'.cycle = none
  pastEnd : s'.pastEnd = decide (a + 1 = 0)
  pc : s'.machine.pc = if a + 1 = 0 then a else a + 1
  started : s'.machine.started = s.machine.started + 1
  memory : s.machine.memory.StoredFrom s'.machine.memory

/-- One cycle of an undisturbed run. -/
theorem proceeds_cycle {s : Session} {c : Cycle} {machine : Machine} (h : s.Undisturbed)
    (hcycle : s.cycle = none) (hbegin : s.begin? = some (c, machine)) :
    ∃ (s' : Session) (report : String),
      s.Proceeds (cycleEvents s.timings c.number c.address c.text report) s' ∧
        Passed s c.address s' := by
  obtain ⟨hend, -, -, rfl, -, hnext⟩ := begin?_spec hbegin
  -- the session after each phase; only the execution is not determined by the cycle
  let m₁ := (fetchPhase { s.machine with started := s.machine.started + 1 } c).machine
  let c₁ : Cycle := { c with next := .decode, decoded := none }
  let s₁ : Session := { s with machine := m₁, cycle := some c₁ }
  let c₂ : Cycle := { c with next := .execute, decoded := some (Instruction.decode c.text) }
  let s₂ : Session := { s₁ with cycle := some c₂ }
  let executed := executePhase m₁ c₂
  let c₃ : Cycle := { c with next := .writeback, decoded := none }
  let s₃ : Session := { s₂ with machine := executed.machine, cycle := some c₃ }
  let written := writebackPhase executed.machine c₃
  let s₄ : Session :=
    { s₃ with machine := written.machine, cycle := none, pastEnd := s.pastEnd || written.pastEnd }
  obtain ⟨hcontent, hlast, hmachine⟩ := writebackPhase_eq executed.machine c₃
  obtain ⟨hpc, hstarted, -, hmemory⟩ := executePhase_frames m₁ c₂
  have hfetch : s.Proceeds [.phase c.number .fetch c.address c.text s.timings.fetch] s₁ :=
    proceeds_step h ((step_begin hcycle hbegin).trans (runPhase_fetch _ hnext))
  have hdecode : s₁.Proceeds [.phase c.number .decode c.address
      ("Decoded: " ++ (Instruction.decode c.text).display) s.timings.decode] s₂ :=
    proceeds_step (s := s₁) ⟨h.running, h.queue⟩
      ((step_inFlight rfl).trans (runPhase_decode s₁ (c := c₁) rfl))
  have hexecute : s₂.Proceeds
      [.phase c.number .execute c.address executed.content s.timings.execute] s₃ := by
    have hquiet : executed.journal.events = [] := phaseResult_events m₁ c₂
    have hstep := proceeds_step (s := s₂) ⟨h.running, h.queue⟩
      ((step_inFlight rfl).trans (runPhase_execute s₂ rfl))
    rwa [Journal.events_append, hquiet] at hstep
  have hwriteback : s₃.Proceeds
      [.phase c.number .writeback c.address (onwardText c.address) s.timings.writeback] s₄ := by
    have hstep := proceeds_step (s := s₃) ⟨h.running, h.queue⟩
      ((step_inFlight rfl).trans (runPhase_writeback s₃ rfl))
    rwa [hcontent] at hstep
  refine ⟨s₄, executed.content, ((hfetch.trans hdecode).trans hexecute).trans hwriteback, ?_⟩
  refine { link := rfl, timings := rfl, cycle := rfl, pastEnd := ?_, pc := ?_, started := ?_,
           memory := ?_ }
  · show (s.pastEnd || written.pastEnd) = _
    rw [hend, hlast]
    rfl
  · show written.machine.pc = _
    rw [hmachine, hpc]
    rfl
  · show written.machine.started = _
    rw [hmachine, hstarted]
    rfl
  · show s.machine.memory.StoredFrom written.machine.memory
    rw [hmachine]
    exact hmemory

/-! ### The whole program -/

/-- The part of the program that is still to run. -/
def ahead (s : Session) : List (Address × Cell) :=
  if s.pastEnd then [] else s.machine.memory.program s.machine.pc

/-- With a program ahead a cycle begins at its first cell. -/
theorem begin?_of_ahead {s : Session} {e : Address × Cell} {rest : List (Address × Cell)}
    (h : s.ahead = e :: rest) :
    s.begin? = some (⟨s.machine.started + 1, e.1, e.2.text, .fetch, none⟩,
      { s.machine with started := s.machine.started + 1 }) := by
  unfold ahead at h
  split at h
  · cases h
  · next hend =>
    have hnext : s.machine.memory.nextInstruction? s.machine.pc = some e.1 := by
      rw [Memory.nextInstruction?_eq_head?, h]
      rfl
    rw [begin?, if_neg hend, hnext]
    show (s.machine.memory.fetch? e.1).bind _ = _
    rw [Memory.fetch?_of_program h]
    rfl

/-- With nothing ahead there is nothing to do. -/
theorem step_of_ahead_nil {s : Session} (hcycle : s.cycle = none) (h : s.ahead = []) :
    s.step = (.finished, s, []) := by
  refine step_dry hcycle (begin?_eq_none_iff.mpr ?_)
  unfold ahead at h
  split at h
  · next hend => exact .inl hend
  · refine .inr ?_
    rw [Memory.nextInstruction?_eq_head?, h]
    rfl

/-- A cycle at the first cell of what is ahead leaves the rest of it, since a split memory
keeps its instructions. -/
theorem Passed.ahead_eq {s s' : Session} {e : Address × Cell} {rest : List (Address × Cell)}
    (h : Passed s e.1 s') (hsplit : s.machine.memory.architecture = .split)
    (hahead : s.ahead = e :: rest) : s'.ahead = rest := by
  have hspace := (h.memory.split hsplit).2
  unfold ahead at hahead ⊢
  split at hahead
  · cases hahead
  · by_cases hlast : e.1 + 1 = 0
    · rw [h.pastEnd, decide_eq_true hlast, Memory.program_last hahead hlast]
      rfl
    · rw [h.pastEnd, decide_eq_false hlast, h.pc, if_neg hlast, Memory.program_congr hspace]
      exact Memory.program_succ hahead hlast

/-- An undisturbed run on a split memory goes through all that is ahead of it. -/
theorem proceeds_program {program : List (Address × Cell)} {s : Session} (h : s.Undisturbed)
    (hsplit : s.machine.memory.architecture = .split) (hcycle : s.cycle = none)
    (hahead : s.ahead = program) :
    ∃ (s' : Session) (reports : List String), reports.length = program.length ∧
      s.Proceeds (programEvents s.timings (s.machine.started + 1) program reports) s' ∧
      s'.Undisturbed ∧ s'.step = (.finished, s', []) ∧
      s'.machine.memory.space .instruction = s.machine.memory.space .instruction ∧
      s'.machine.pc = pcAfter s.machine.pc program := by
  -- one cycle leaves the rest of the program ahead of a session of the same kind
  induction program generalizing s with
  | nil =>
    refine ⟨s, [], rfl, fun sleeps hquiet => ⟨sleeps, [], hquiet, rfl, rfl⟩, h,
      step_of_ahead_nil hcycle hahead, rfl, rfl⟩
  | cons e rest ih =>
    obtain ⟨s₁, report, hcycle₁, hpassed⟩ := proceeds_cycle h hcycle (begin?_of_ahead hahead)
    obtain ⟨hsplit₁, hspace₁⟩ := hpassed.memory.split hsplit
    have hundisturbed₁ : s₁.Undisturbed :=
      ⟨hpassed.link ▸ h.running, hpassed.link ▸ h.queue⟩
    obtain ⟨s', reports, hlength, hrest, hundisturbed, hstep, hspace, hpc⟩ :=
      ih hundisturbed₁ hsplit₁ hpassed.cycle (hpassed.ahead_eq hsplit hahead)
    refine ⟨s', report :: reports, congrArg (· + 1) hlength, ?_, hundisturbed, hstep,
      hspace.trans hspace₁, ?_⟩
    · rw [hpassed.timings, hpassed.started] at hrest
      exact hcycle₁.trans hrest
    · rw [hpc, hpassed.pc, pcAfter_cons]

end Session

/-- A run that goes through the program as it was at its start, from the program counter on. -/
structure RunsThrough (s : Session) (r : RunResult) : Prop where
  outcome : r.outcome = .finished
  /-- Each cell of the program was fetched, and nothing else. -/
  fetched : r.journal.events.filterMap TraceEvent.fetched? =
    (s.machine.memory.program s.machine.pc).map fun e => (e.1, e.2.text)
  /-- There were the cycles of the program, one after the other. -/
  events : ∃ reports : List String,
    reports.length = (s.machine.memory.program s.machine.pc).length ∧
      r.journal.events = [.notice "Execution started."] ++
        programEvents s.timings (s.machine.started + 1)
          (s.machine.memory.program s.machine.pc) reports ++
        [.notice "No more instructions to execute."]
  instructions : r.session.machine.memory.space .instruction = s.machine.memory.space .instruction
  pc : r.session.machine.pc = pcAfter s.machine.pc (s.machine.memory.program s.machine.pc)

namespace Session

theorem Ready.runsThrough {s : Session} (h : s.Ready) {sleeps : List (List Control)}
    (hquiet : ∀ turn ∈ sleeps, turn = []) : RunsThrough s (s.run sleeps) := by
  have hundisturbed : (s.withQueue []).Undisturbed := ⟨h.running, rfl⟩
  have hahead : (s.withQueue []).ahead = s.machine.memory.program s.machine.pc := if_neg (by
    show ¬ s.pastEnd = true
    rw [h.onward]
    decide)
  obtain ⟨s', reports, hlength, hproceeds, hundisturbed', hstep, hspace, hpc⟩ :=
    proceeds_program hundisturbed h.split h.cycle hahead
  -- behind the last cycle the run finds nothing to do, and tells so
  obtain ⟨rest, j, -, hrun, hevents⟩ := hproceeds sleeps hquiet
  have hall := run_of_wakes h.wakes h.running sleeps
  rw [hrun, runFrom_finished hundisturbed' hstep] at hall
  have hjournal : (s.run sleeps).journal.events = [.notice "Execution started."] ++
      programEvents s.timings (s.machine.started + 1)
        (s.machine.memory.program s.machine.pc) reports ++
      [.notice "No more instructions to execute."] := by
    rw [hall, RunResult.events_after, RunResult.events_after, Journal.events_append,
      Journal.events_handled, hevents, ← List.append_assoc]
    rfl
  refine { outcome := by rw [hall]; rfl, fetched := ?_, events := ⟨reports, hlength, hjournal⟩,
           instructions := by rw [hall]; exact hspace, pc := by rw [hall]; exact hpc }
  rw [hjournal, List.filterMap_append, List.filterMap_append, programEvents_fetched hlength]
  exact List.append_nil _

end Session

/-- A run on a split memory that nobody disturbs goes through its program, once, in the order of
addresses. What the fetches, decodings and writebacks say is decided by the instructions, the
program counter and the count alone, for the same timings. -/
theorem split_run_exact (s : Session) (sleeps : List (List Control)) (h : s.Ready)
    (hquiet : ∀ turn ∈ sleeps, turn = []) :
    RunsThrough s (s.run sleeps) ∧
      ∀ (s' : Session) (sleeps' : List (List Control)), s'.Ready →
        (∀ turn ∈ sleeps', turn = []) → s'.timings = s.timings →
        s'.machine.memory.space .instruction = s.machine.memory.space .instruction →
        s'.machine.pc = s.machine.pc → s'.machine.started = s.machine.started →
        (s'.run sleeps').journal.events.filter TraceEvent.isOfProgram =
          (s.run sleeps).journal.events.filter TraceEvent.isOfProgram := by
  refine ⟨h.runsThrough hquiet, fun s' sleeps' h' hquiet' htimings hspace hpc hstarted => ?_⟩
  obtain ⟨reports, hlength, hevents⟩ := (h.runsThrough hquiet).events
  obtain ⟨reports', hlength', hevents'⟩ := (h'.runsThrough hquiet').events
  -- the same program is told of twice, and only the reports may differ
  rw [htimings, hstarted, hpc, Memory.program_congr hspace] at hevents'
  rw [hpc, Memory.program_congr hspace] at hlength'
  rw [hevents, hevents']
  simp only [List.filter_append, programEvents_filter hlength' hlength]

/-- A program with a gap and a number in it, that stores to the address of its own last
instruction. -/
def storing : Memory :=
  (((Memory.empty .split).set 0 "MOV R1, #5" .instruction).set 1 "10" .instruction).set 7
    "STORE R1, 7" .instruction

/-- The store goes to the data, and what is fetched is the program. -/
theorem storing_runs :
    let fresh := Session.new (Machine.new storing) Architecture.split.defaultTimings
    let s := (fresh.operate .play).2.1
    s.Ready ∧ RunsThrough s (s.run [[]]) ∧
      (s.run [[]]).journal.events.filterMap TraceEvent.fetched? =
        [(0, "MOV R1, #5"), (7, "STORE R1, 7")] := by
  intro fresh s
  have hready : s.Ready :=
    { split := rfl, running := rfl, wakes := fun _ hr => List.mem_singleton.mp hr,
      cycle := rfl, onward := rfl }
  have hruns := (split_run_exact s [[]] hready (by decide)).1
  exact ⟨hready, hruns, hruns.fetched.trans (by decide)⟩

end ToyCpu
