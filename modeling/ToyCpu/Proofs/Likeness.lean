import ToyCpu.Proofs.Indistinct
import ToyCpu.Proofs.Pausing
import ToyCpu.Proofs.SplitRun

/-!
# Machines that a program cannot tell apart

A program sees of a register only what its value reads as and how it is written, and it sees
nothing of the accumulator and the fetch registers. So two sessions whose registers agree in
that much, and which otherwise differ at most in their registers, go through the same phases,
report the same, and leave the same memory behind.

* `Registers.Alike`, `Machine.Alike`, `Session.Alike` — what may differ.
* `execute_alike` — an instruction that is carried out on both.
* `Session.step_alike`, `Session.handle_alike` — a phase, and a request.
* `Session.runFrom_alike` — a whole run, under a host that does the same in both.
-/

namespace ToyCpu

/-- Registers that hold what reads the same and is written the same. -/
structure Registers.Alike (regs regs' : Registers) : Prop where
  reread : ∀ r, (regs.get r).reread = (regs'.get r).reread
  display : ∀ r, (regs.get r).display = (regs'.get r).display

namespace Registers

variable {regs regs' : Registers}

theorem Alike.refl (regs : Registers) : regs.Alike regs := ⟨fun _ => rfl, fun _ => rfl⟩

/-- Only the general registers count. -/
theorem Alike.of_get {regs₁ regs₁' : Registers} (h : regs.Alike regs')
    (hget : ∀ r, regs₁.get r = regs.get r) (hget' : ∀ r, regs₁'.get r = regs'.get r) :
    regs₁.Alike regs₁' where
  reread r := by
    rw [hget, hget']
    exact h.reread r
  display r := by
    rw [hget, hget']
    exact h.display r

/-- A register that is written on both sides holds the same. -/
theorem Alike.set (h : regs.Alike regs') (r : Register) (v : Value) :
    (regs.set r v).Alike (regs'.set r v) where
  reread r' := by
    rw [get_set, get_set]
    split
    · rfl
    · exact h.reread r'
  display r' := by
    rw [get_set, get_set]
    split
    · rfl
    · exact h.display r'

/-- The accumulator does not count, and neither do the fetch registers. -/
theorem Alike.setAcc (h : regs.Alike regs') (acc : Option Value) :
    ({ regs with acc } : Registers).Alike { regs' with acc } :=
  h.of_get (by rintro (_ | _ | _) <;> rfl) (by rintro (_ | _ | _) <;> rfl)

theorem Alike.fetched (h : regs.Alike regs') (mar : Option Address) (ir mdr : String) :
    ({ regs with mar, ir, mdr } : Registers).Alike { regs' with mar, ir, mdr } :=
  h.of_get (by rintro (_ | _ | _) <;> rfl) (by rintro (_ | _ | _) <;> rfl)

end Registers

/-! ### Instructions -/

variable {regs regs' : Registers}

/-- Refused for the same reason, or carried out with the same account. -/
inductive CarriedAlike : Except Fault Executed → Except Fault Executed → Prop
  | refused (f : Fault) : CarriedAlike (.error f) (.error f)
  | done {effect : Effect} {regs regs' : Registers} {mem : Memory} (h : regs.Alike regs') :
      CarriedAlike (.ok ⟨effect, regs, mem⟩) (.ok ⟨effect, regs', mem⟩)

/-- On one memory an instruction does not get behind registers that are alike. -/
theorem indistinct_alike : Indistinct Registers.Alike (· = ·) where
  reread h r := h.reread r
  display h r := h.display r
  set h r v := h.set r v
  setAcc h acc := h.setAcc acc
  read h a := by rw [h]
  store h a text := by rw [h]

/-- An instruction does the same with registers that are alike. -/
theorem execute_alike (h : regs.Alike regs') (inst : Instruction) (mem : Memory) :
    CarriedAlike (execute inst regs mem) (execute inst regs' mem) := by
  have hdone := indistinct_alike.execute h (rfl : mem = mem) inst
  generalize execute inst regs mem = done at hdone
  generalize execute inst regs' mem = done' at hdone
  cases hdone with
  | refused f => exact .refused f
  | done hregs hmem =>
    subst hmem
    exact .done hregs

/-! ### Machines -/

/-- Machines that differ at most in their registers, and there in nothing that shows. -/
structure Machine.Alike (m m' : Machine) : Prop where
  registers : m.registers.Alike m'.registers
  pc : m.pc = m'.pc
  memory : m.memory = m'.memory
  started : m.started = m'.started

namespace Machine

variable {m m' : Machine}

theorem Alike.reset (h : m.Alike m') : m.reset.Alike m'.reset where
  registers := .refl _
  pc := congrArg Memory.entry h.memory
  memory := h.memory
  started := h.started

/-- An edit does the same, and has the same to report. -/
theorem Alike.apply (h : m.Alike m') (e : Edit) :
    (m.apply e).1.Alike (m'.apply e).1 ∧ (m.apply e).2 = (m'.apply e).2 := by
  -- taken apart, so that both sides edit one memory
  obtain ⟨registers, pc, memory, started⟩ := m
  obtain ⟨registers', pc', memory', started'⟩ := m'
  obtain ⟨hregisters, rfl, rfl, rfl⟩ := h
  cases e with
  | setRegister r v => exact ⟨⟨hregisters.set r v, rfl, rfl, rfl⟩, rfl⟩
  | setCell | deleteCell | loadProgram | setData | resetMemory =>
    dsimp only [Machine.apply]
    exact ⟨⟨hregisters, rfl, rfl, rfl⟩, rfl⟩

end Machine

namespace Session

/-- Results of a phase that report the same. -/
structure PhaseResult.Alike (r r' : PhaseResult) : Prop where
  content : r.content = r'.content
  machine : r.machine.Alike r'.machine
  decoded : r.decoded = r'.decoded
  pastEnd : r.pastEnd = r'.pastEnd
  journal : r.journal = r'.journal

/-- An execution reports the same, whether the instruction is refused or carried out. -/
theorem executePhase_alike {m m' : Machine} (h : m.Alike m') (c : Cycle) :
    (executePhase m c).Alike (executePhase m' c) := by
  have hexecute := execute_alike h.registers (c.decoded.getD (Instruction.decode c.text)) m.memory
  unfold executePhase
  dsimp only
  rw [← h.memory]
  generalize execute _ m.registers m.memory = done at hexecute
  generalize execute _ m'.registers m.memory = done' at hexecute
  cases hexecute with
  | refused f =>
    exact ⟨rfl, h, rfl, rfl, rfl⟩
  | done hregisters =>
    exact ⟨rfl, ⟨hregisters, h.pc, rfl, h.started⟩, rfl, rfl, rfl⟩

theorem phaseResult_alike {m m' : Machine} (h : m.Alike m') (c : Cycle) :
    (phaseResult m c).Alike (phaseResult m' c) := by
  unfold phaseResult
  split
  · have hregisters := h.registers.fetched (some c.address) c.text c.text
    exact ⟨rfl, ⟨hregisters, rfl, h.memory, h.started⟩, rfl, rfl, rfl⟩
  · exact ⟨rfl, h, rfl, rfl, rfl⟩
  · exact executePhase_alike h c
  · unfold writebackPhase
    split
    · exact ⟨rfl, h, rfl, rfl, rfl⟩
    · exact ⟨rfl, ⟨h.registers, rfl, h.memory, h.started⟩, rfl, rfl, rfl⟩

end Session

/-! ### Sessions -/

/-- Links that differ at most in how many controllers there are. -/
structure Link.Alike (l l' : Link) : Prop where
  state : l.state = l'.state
  queue : l.queue = l'.queue
  listening : l.listening = l'.listening
  controlled : l.controllers ≠ 0 ∧ l'.controllers ≠ 0

/-- Sessions with machines that are alike, the one as far as the other. -/
structure Session.Alike (s s' : Session) : Prop where
  machine : s.machine.Alike s'.machine
  timings : s.timings = s'.timings
  link : s.link.Alike s'.link
  cycle : s.cycle = s'.cycle
  pastEnd : s.pastEnd = s'.pastEnd

/-- A controller that is not given up does the same to both links. -/
theorem Link.Alike.perform {l l' : Link} (h : l.Alike l') {c : Control} (hc : c ≠ .release) :
    (l.perform c).link.Alike (l'.perform c).link := by
  obtain ⟨state, queue, controllers, listening⟩ := l
  obtain ⟨state', queue', controllers', listening'⟩ := l'
  obtain ⟨rfl, rfl, rfl, hcontrolled⟩ := h
  -- a request is queued on both sides, or on none where nobody listens
  have hpost : ∀ (r : Request) (state : RunState),
      (Link.post ⟨state, queue, controllers, listening⟩ r).1.Alike
        (Link.post ⟨state, queue, controllers', listening⟩ r).1 := by
    intro r state
    unfold Link.post
    cases listening with
    | true => exact ⟨rfl, rfl, rfl, hcontrolled⟩
    | false => exact ⟨rfl, rfl, rfl, hcontrolled⟩
  rw [perform_of_controlled hcontrolled.1, perform_of_controlled hcontrolled.2]
  cases c with
  | play =>
    unfold operate
    dsimp only
    split
    · exact ⟨rfl, rfl, rfl, hcontrolled⟩
    · exact hpost _ _
  | pause =>
    unfold operate
    dsimp only
    split
    · exact ⟨rfl, rfl, rfl, hcontrolled⟩
    · exact ⟨rfl, rfl, rfl, hcontrolled⟩
  | toggle =>
    unfold operate
    dsimp only
    split
    · exact ⟨rfl, rfl, rfl, hcontrolled⟩
    · exact hpost _ _
  | stop => exact hpost _ _
  | state => exact ⟨rfl, rfl, rfl, hcontrolled⟩
  | send r => exact hpost r _
  | share => exact ⟨rfl, rfl, rfl, Nat.succ_ne_zero _, Nat.succ_ne_zero _⟩
  | release => exact absurd rfl hc

namespace Session

variable {s s' : Session}

/-! ### Steps -/

theorem runPhase_alike (h : s.Alike s') (c : Cycle) :
    (s.runPhase c).1 = (s'.runPhase c).1 ∧ (s.runPhase c).2.1.Alike (s'.runPhase c).2.1 ∧
      (s.runPhase c).2.2 = (s'.runPhase c).2.2 := by
  obtain ⟨hcontent, hmachine, hdecoded, hpast, hjournal⟩ := phaseResult_alike h.machine c
  unfold runPhase
  dsimp only
  rw [h.timings, h.pastEnd, hcontent, hdecoded, hpast, hjournal]
  exact ⟨rfl, ⟨hmachine, rfl, h.link, rfl, rfl⟩, rfl⟩

/-- A cycle begins with the same number, at the same address and with the same text. -/
theorem begin?_alike (h : s.Alike s') :
    s'.begin? = s.begin?.map fun b => (b.1, { s'.machine with started := b.2.started }) := by
  unfold begin?
  rw [h.pastEnd, h.machine.memory, h.machine.pc, h.machine.started]
  cases s'.pastEnd with
  | true => rfl
  | false =>
    cases s'.machine.memory.nextInstruction? s'.machine.pc with
    | none => rfl
    | some a =>
      simp only [Option.bind_eq_bind, Option.bind_some]
      cases s'.machine.memory.fetch? a <;> rfl

/-- A step does the same. -/
theorem step_alike (h : s.Alike s') :
    s.step.1 = s'.step.1 ∧ s.step.2.1.Alike s'.step.2.1 ∧ s.step.2.2 = s'.step.2.2 := by
  have hbegin := begin?_alike h
  rcases s.step_cases with ⟨c, hcycle, hstep⟩ | ⟨c, machine, hcycle, hb, hstep⟩ | ⟨hcycle, hb, hstep⟩
  · rw [hstep, step_inFlight (h.cycle.symm.trans hcycle)]
    exact runPhase_alike h c
  · obtain ⟨-, -, -, rfl, -, -⟩ := begin?_spec hb
    rw [hb] at hbegin
    -- the machines are still alike once both have counted the cycle
    have hbegun : Alike { s with machine := { s.machine with started := s.machine.started + 1 } }
        { s' with machine := { s'.machine with started := s.machine.started + 1 } } :=
      ⟨⟨h.machine.registers, h.machine.pc, h.machine.memory, rfl⟩, h.timings, h.link, h.cycle,
        h.pastEnd⟩
    rw [hstep, step_begin (h.cycle.symm.trans hcycle) hbegin]
    exact runPhase_alike hbegun c
  · rw [hb] at hbegin
    rw [hstep, step_dry (h.cycle.symm.trans hcycle) hbegin]
    exact ⟨rfl, h, rfl⟩

/-! ### Requests -/

/-- A request does the same, and has the same to report. -/
theorem handle_alike (h : s.Alike s') (r : Request) :
    (s.handle r).1.Alike (s'.handle r).1 ∧ (s.handle r).2 = (s'.handle r).2 := by
  cases r with
  | wake => exact ⟨h, rfl⟩
  | stop => exact ⟨⟨h.machine.reset, h.timings, h.link, rfl, rfl⟩, rfl⟩
  | edit e =>
    obtain ⟨hmachine, hmessage⟩ := h.machine.apply e
    rw [handle_edit, handle_edit, hmessage]
    exact ⟨⟨hmachine, h.timings, h.link, h.cycle, h.pastEnd⟩, rfl⟩

theorem handleAll_alike (h : s.Alike s') (rs : List Request) :
    (s.handleAll rs).1.Alike (s'.handleAll rs).1 ∧ (s.handleAll rs).2 = (s'.handleAll rs).2 := by
  induction rs generalizing s s' with
  | nil => exact ⟨h, rfl⟩
  | cons r rest ih =>
    obtain ⟨hfirst, hjournal⟩ := handle_alike h r
    obtain ⟨hrest, hjournals⟩ := ih hfirst
    refine ⟨hrest, ?_⟩
    show (s.handle r).2 ++ ((s.handle r).1.handleAll rest).2
      = (s'.handle r).2 ++ ((s'.handle r).1.handleAll rest).2
    rw [hjournal, hjournals]

theorem applyPending_alike (h : s.Alike s') :
    s.applyPending.1.Alike s'.applyPending.1 ∧ s.applyPending.2 = s'.applyPending.2 := by
  have hclear : s.clearQueue.Alike s'.clearQueue :=
    ⟨h.machine, h.timings, ⟨h.link.state, rfl, h.link.listening, h.link.controlled⟩, h.cycle,
      h.pastEnd⟩
  unfold applyPending
  rw [h.link.queue]
  exact handleAll_alike hclear _

/-- Controllers that are not given up do the same. -/
theorem operateAll_alike (h : s.Alike s') {cs : List Control} (hcs : Control.release ∉ cs) :
    (s.operateAll cs).1.Alike (s'.operateAll cs).1 := by
  induction cs generalizing s s' with
  | nil => exact h
  | cons c rest ih =>
    have hc : c ≠ .release := fun heq => hcs (heq ▸ List.mem_cons_self)
    refine ih ?_ fun hrest => hcs (List.mem_cons_of_mem c hrest)
    exact ⟨h.machine, h.timings, h.link.perform hc, h.cycle, h.pastEnd⟩

/-- Whatever controllers do is no event. -/
theorem operateAll_events (s : Session) (cs : List Control) : (s.operateAll cs).2.events = [] := by
  induction cs generalizing s with
  | nil => rfl
  | cons c rest ih =>
    show Journal.events ((s.operate c).2.2 ++ ((s.operate c).2.1.operateAll rest).2) = []
    rw [Journal.events_append, ih]
    rfl

/-! ### Runs -/

/-- Boundaries that come to the same. -/
inductive Boundary.Alike : Boundary → Boundary → Prop
  | ends {outcome : Outcome} {s s' : Session} {j : Journal} (h : s.Alike s') :
      Alike (.over outcome s j) (.over outcome s' j)
  | goesOn {s s' : Session} {j : Journal} (h : s.Alike s') : Alike (.ran s j) (.ran s' j)

theorem withState_alike (h : s.Alike s') (state : RunState) :
    (s.withState state).Alike (s'.withState state) :=
  ⟨h.machine, h.timings, ⟨rfl, h.link.queue, h.link.listening, h.link.controlled⟩, h.cycle,
    h.pastEnd⟩

/-- A run goes on with the same phase, or finds the program at its end. -/
theorem advance_alike (h : s.Alike s') : s.advance.Alike s'.advance := by
  obtain ⟨htick, hsession, hjournal⟩ := step_alike h
  unfold advance
  generalize s.step = result at htick hsession hjournal
  generalize s'.step = result' at htick hsession hjournal
  obtain ⟨tick, s₁, j⟩ := result
  obtain ⟨tick', s₁', j'⟩ := result'
  obtain rfl : tick = tick' := htick
  obtain rfl : j = j' := hjournal
  cases tick with
  | phase p duration => exact .goesOn hsession
  | finished => exact .ends (withState_alike hsession .stopped)

/-- A boundary looks at the run state and the cycle in flight, which are the same. -/
theorem atBoundary_alike (h : s.Alike s') : s.atBoundary.Alike s'.atBoundary := by
  unfold atBoundary
  rw [h.link.state, h.cycle]
  split
  · exact advance_alike h
  · split
    · exact advance_alike h
    · exact .ends h
  · exact .ends ⟨h.machine, h.timings, h.link, rfl, h.pastEnd⟩
  · exact .ends h

/-- Runs that report the same. -/
structure RunAlike (r r' : RunResult) : Prop where
  outcome : r.outcome = r'.outcome
  events : r.journal.events = r'.journal.events
  session : r.session.Alike r'.session

theorem RunAlike.after {r r' : RunResult} (h : RunAlike r r') {j j' : Journal}
    (hj : j.events = j'.events) : RunAlike (r.after j) (r'.after j') where
  outcome := h.outcome
  events := by
    rw [RunResult.events_after, RunResult.events_after, hj, h.events]
  session := h.session

/-- A run does the same, under a host that does the same and keeps its controllers. -/
theorem runFrom_alike (h : s.Alike s') {sleeps : List (List Control)}
    (hsleeps : ∀ turn ∈ sleeps, Control.release ∉ turn) :
    RunAlike (s.runFrom sleeps) (s'.runFrom sleeps) := by
  -- the boundary that the one run has come to decides what the other has come to
  fun_induction runFrom s sleeps generalizing s' with
  | case1 s sleeps outcome s₁ j hover =>
    obtain ⟨happly, hjournal⟩ := applyPending_alike h
    have hboundary := atBoundary_alike happly
    rw [hover] at hboundary
    generalize hover' : s'.applyPending.1.atBoundary = b at hboundary
    cases hboundary with
    | ends hsession =>
      rw [runFrom_over hover', hjournal]
      exact ⟨rfl, rfl, hsession⟩
  | case2 s s₁ j hran ih =>
    obtain ⟨happly, hjournal⟩ := applyPending_alike h
    have hboundary := atBoundary_alike happly
    rw [hran] at hboundary
    generalize hran' : s'.applyPending.1.atBoundary = b at hboundary
    cases hboundary with
    | goesOn hsession =>
      rw [runFrom_ran_nil hran', hjournal]
      exact (ih hsession hsleeps).after rfl
  | case3 s s₁ j hran turn later ih =>
    obtain ⟨happly, hjournal⟩ := applyPending_alike h
    have hboundary := atBoundary_alike happly
    rw [hran] at hboundary
    generalize hran' : s'.applyPending.1.atBoundary = b at hboundary
    cases hboundary with
    | goesOn hsession =>
      have hturn := operateAll_alike hsession (hsleeps turn List.mem_cons_self)
      have hlater : ∀ turn ∈ later, Control.release ∉ turn :=
        fun turn hturn => hsleeps turn (List.mem_cons_of_mem _ hturn)
      rw [runFrom_ran hran', hjournal]
      -- the replies may differ, but they are no events
      refine (ih hturn hlater).after ?_
      rw [Journal.events_append, Journal.events_append (s'.applyPending.2 ++ j),
        operateAll_events, operateAll_events]

end Session

end ToyCpu
