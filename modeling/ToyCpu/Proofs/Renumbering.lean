import ToyCpu.Proofs.Course

/-!
# A stop is a fresh start

The count of instructions numbers the trace and decides nothing. So a session that counts from
a higher number on does what it would have done, under higher numbers; and what a stop leaves
of a session is a new one on the same memory that counts on from where the old one was.

* `Session.renumber`, `Journal.renumber` — a session and a journal under higher numbers.
* `Session.step_renumber`, `Session.handle_renumber`, `Session.operate_renumber` — a phase, a
  request and an operation under higher numbers.
* `Session.runFrom_renumber`, `Session.perform_renumber` — so a whole run, and every action.
* `Session.goOn` — all that can follow, be it in the midst of a run.
* `stop_starts_afresh` — what follows a stop is what follows a new start.
-/

namespace ToyCpu

open Session

/-! ### Higher numbers -/

/-- The event with a number that is higher by `n`. -/
def TraceEvent.renumber (n : UInt64) : TraceEvent → TraceEvent
  | .phase number p a content duration => .phase (n + number) p a content duration
  | .notice message => .notice message

/-- The entry with its event, if it is one, under a higher number. -/
def Entry.renumber (n : UInt64) : Entry → Entry
  | .event e => .event (e.renumber n)
  | e => e

/-- The journal under higher numbers. -/
def Journal.renumber (n : UInt64) (j : Journal) : Journal := j.map (Entry.renumber n)

/-- The cycle with a higher number. -/
def Cycle.renumber (n : UInt64) (c : Cycle) : Cycle := { c with number := n + c.number }

/-- The machine with a higher count. -/
def Machine.renumber (n : UInt64) (m : Machine) : Machine := { m with started := n + m.started }

/-- The session with a higher count, which the cycle in flight bears too. -/
def Session.renumber (n : UInt64) (s : Session) : Session :=
  { s with machine := s.machine.renumber n, cycle := s.cycle.map (Cycle.renumber n) }

/-- The result of a run under higher numbers. -/
def RunResult.renumber (n : UInt64) (r : RunResult) : RunResult :=
  { r with session := r.session.renumber n, journal := r.journal.renumber n }

/-- What a boundary comes to, under higher numbers. -/
def Session.Boundary.renumber (n : UInt64) : Boundary → Boundary
  | .over outcome s j => .over outcome (s.renumber n) (j.renumber n)
  | .ran s j => .ran (s.renumber n) (j.renumber n)

namespace Journal

variable (n : UInt64)

@[simp] theorem renumber_append (j j' : Journal) :
    (j ++ j').renumber n = j.renumber n ++ j'.renumber n :=
  List.map_append

/-- Entries that tell of no phase stay as they are. -/
theorem renumber_eq_self {j : Journal} (h : ∀ e ∈ j, e.renumber n = e) : j.renumber n = j :=
  List.map_congr_left h |>.trans (List.map_id j)

@[simp] theorem renumber_notices (messages : List String) :
    Journal.renumber n (messages.map notice) = messages.map notice := by
  refine renumber_eq_self n fun e he => ?_
  obtain ⟨message, -, rfl⟩ := List.mem_map.mp he
  rfl

end Journal

theorem RunResult.renumber_after (n : UInt64) (r : RunResult) (j : Journal) :
    (r.after j).renumber n = (r.renumber n).after (j.renumber n) := by
  simp [RunResult.renumber, RunResult.after]

/-- An edit does not look at the count. -/
theorem Machine.apply_renumber (n : UInt64) (m : Machine) (e : Edit) :
    (m.renumber n).apply e = ((m.apply e).1.renumber n, (m.apply e).2) := by
  cases e with
  -- by `rfl` alone these two would compute what is loaded, and where
  | loadProgram | setData => dsimp only [Machine.apply, Machine.renumber]
  | setCell | deleteCell | resetMemory | setRegister => rfl

namespace Session

variable (n : UInt64)

/-! ### Phases -/

/-- An execution looks at the text of the cycle and not at its number. -/
theorem executePhase_renumber (m : Machine) (c : Cycle) :
    executePhase (m.renumber n) (c.renumber n) =
      { executePhase m c with machine := (executePhase m c).machine.renumber n } := by
  unfold executePhase
  dsimp only [Machine.renumber, Cycle.renumber]
  cases execute (c.decoded.getD (Instruction.decode c.text)) m.registers m.memory with
  | ok done => rfl
  | error f => rfl

theorem writebackPhase_renumber (m : Machine) (c : Cycle) :
    writebackPhase (m.renumber n) (c.renumber n) =
      { writebackPhase m c with machine := (writebackPhase m c).machine.renumber n } := by
  have haddress : (c.renumber n).address = c.address := rfl
  unfold writebackPhase
  rw [haddress]
  by_cases hlast : c.address + 1 = 0
  · rw [if_pos hlast, if_pos hlast]
  · rw [if_neg hlast, if_neg hlast]
    rfl

/-- A phase comes to the same under a higher number. -/
theorem phaseResult_renumber (m : Machine) (c : Cycle) :
    phaseResult (m.renumber n) (c.renumber n) =
      { phaseResult m c with machine := (phaseResult m c).machine.renumber n } := by
  have hnext : (c.renumber n).next = c.next := rfl
  unfold phaseResult
  rw [hnext]
  cases c.next with
  | fetch => rfl
  | decode => rfl
  | execute => exact executePhase_renumber n m c
  | writeback => exact writebackPhase_renumber n m c

/-- What a phase records besides its event bears no number. -/
theorem renumber_phaseResult (m : Machine) (c : Cycle) :
    Journal.renumber n (phaseResult m c).journal = (phaseResult m c).journal := by
  refine Journal.renumber_eq_self n fun e he => ?_
  rcases phaseResult_journal m c e he with ⟨inst, rfl⟩ | ⟨a, f, text, rfl⟩
  · rfl
  · rfl

/-- A phase is the same, and its event bears the higher number. -/
theorem runPhase_renumber (s : Session) (c : Cycle) :
    (s.renumber n).runPhase (c.renumber n) =
      ((s.runPhase c).1, (s.runPhase c).2.1.renumber n, (s.runPhase c).2.2.renumber n) := by
  have hresult : phaseResult (s.renumber n).machine (c.renumber n) =
      { phaseResult s.machine c with machine := (phaseResult s.machine c).machine.renumber n } :=
    phaseResult_renumber n s.machine c
  unfold runPhase
  rw [hresult]
  dsimp only
  rw [Journal.renumber_append, renumber_phaseResult]
  -- the cycle that is left bears the number too
  obtain ⟨number, address, text, next, decoded⟩ := c
  cases next with
  | fetch | decode | execute | writeback => rfl

/-- The next cycle is the same but for its number. -/
theorem begin?_renumber (s : Session) :
    (s.renumber n).begin? = s.begin?.map fun b => (b.1.renumber n, b.2.renumber n) := by
  -- this holds even where the count wraps around
  have hnumber : n + s.machine.started + 1 = n + (s.machine.started + 1) := UInt64.add_assoc _ _ _
  have hpast : (s.renumber n).pastEnd = s.pastEnd := rfl
  unfold begin?
  rw [hpast]
  by_cases hend : s.pastEnd = true
  · rw [if_pos hend, if_pos hend]
    rfl
  · rw [if_neg hend, if_neg hend]
    dsimp only [Session.renumber, Machine.renumber]
    rw [hnumber]
    cases s.machine.memory.nextInstruction? s.machine.pc with
    | none => rfl
    | some a =>
      dsimp only [Option.bind_eq_bind, Option.bind_some]
      cases s.machine.memory.fetch? a with
      | none => rfl
      | some text => rfl

/-- A step is the same, under a higher number. -/
theorem step_renumber (s : Session) :
    (s.renumber n).step = (s.step.1, s.step.2.1.renumber n, s.step.2.2.renumber n) := by
  rcases s.step_cases with ⟨c, hcycle, hstep⟩ | ⟨c, machine, hcycle, hb, hstep⟩ | ⟨hcycle, hb, hstep⟩
  · have hcycle' : (s.renumber n).cycle = some (c.renumber n) := congrArg (Option.map _) hcycle
    rw [hstep, step_inFlight hcycle', runPhase_renumber]
  · have hcycle' : (s.renumber n).cycle = none := congrArg (Option.map _) hcycle
    have hb' : (s.renumber n).begin? = some (c.renumber n, machine.renumber n) := by
      rw [begin?_renumber, hb]
      rfl
    rw [hstep, step_begin hcycle' hb', ← runPhase_renumber]
    rfl
  · have hcycle' : (s.renumber n).cycle = none := congrArg (Option.map _) hcycle
    have hb' : (s.renumber n).begin? = none := by
      rw [begin?_renumber, hb]
      rfl
    rw [hstep, step_dry hcycle' hb']
    rfl

/-! ### Requests and operations -/

/-- A request is carried out the same. -/
theorem handle_renumber (s : Session) (r : Request) :
    (s.renumber n).handle r = ((s.handle r).1.renumber n, (s.handle r).2.renumber n) := by
  cases r with
  | wake => rfl
  | stop => rfl
  | edit e =>
    have happly : (s.renumber n).machine.apply e = _ := Machine.apply_renumber n s.machine e
    rw [handle_edit, handle_edit, happly]
    show _ = (_, Entry.handled (.edit e) :: Journal.renumber n _)
    rw [Journal.renumber_notices]
    rfl

theorem handleAll_renumber (s : Session) (rs : List Request) :
    (s.renumber n).handleAll rs = ((s.handleAll rs).1.renumber n, (s.handleAll rs).2.renumber n) := by
  induction rs generalizing s with
  | nil => rfl
  | cons r rest ih => simp only [handleAll, handle_renumber, ih, Journal.renumber_append]

theorem applyPending_renumber (s : Session) :
    (s.renumber n).applyPending = (s.applyPending.1.renumber n, s.applyPending.2.renumber n) :=
  handleAll_renumber n s.clearQueue s.link.queue

/-- A wait looks at the link only. -/
theorem wait_renumber (s : Session) :
    (s.renumber n).wait = (s.wait.1, s.wait.2.1.renumber n, s.wait.2.2.renumber n) := by
  cases hq : s.link.queue with
  | cons r rest =>
    have hq' : (s.renumber n).link.queue = r :: rest := hq
    have hhandle := handle_renumber n (s.withQueue rest) r
    rw [wait_cons hq, wait_cons hq', ← hhandle]
    rfl
  | nil =>
    have hq' : (s.renumber n).link.queue = [] := hq
    rw [wait_nil hq, wait_nil hq']
    show (if s.link.controllers = 0 then _ else _) = _
    split
    · rfl
    · rfl

/-- Controllers act on the link, which has no part in the count. -/
theorem operate_renumber (s : Session) (c : Control) :
    (s.renumber n).operate c =
      ((s.operate c).1, (s.operate c).2.1.renumber n, (s.operate c).2.2.renumber n) := rfl

theorem operateAll_renumber (s : Session) (cs : List Control) :
    (s.renumber n).operateAll cs =
      ((s.operateAll cs).1.renumber n, (s.operateAll cs).2.renumber n) := by
  induction cs generalizing s with
  | nil => rfl
  | cons c rest ih => simp only [operateAll, operate_renumber, ih, Journal.renumber_append]

/-! ### Runs -/

theorem advance_renumber (s : Session) : (s.renumber n).advance = s.advance.renumber n := by
  unfold advance
  rw [step_renumber]
  rcases s.step with ⟨tick, s', j⟩
  cases tick with
  | phase p duration =>
    show Boundary.ran _ _ = .ran _ (Journal.renumber n _)
    rw [Journal.renumber_append]
    rfl
  | finished =>
    show Boundary.over _ _ _ = .over _ _ (Journal.renumber n _)
    rw [Journal.renumber_append]
    rfl

/-- A boundary looks at the run state and at whether a cycle is in flight. -/
theorem atBoundary_renumber (s : Session) :
    (s.renumber n).atBoundary = s.atBoundary.renumber n := by
  have hsome : (s.renumber n).cycle.isSome = s.cycle.isSome := Option.isSome_map
  have hstate : (s.renumber n).link.state = s.link.state := rfl
  unfold atBoundary
  rw [hstate, hsome, advance_renumber]
  split
  · rfl
  · split
    · rfl
    · rfl
  · rfl
  · rfl

/-- The boundary after the requests that are queued. -/
theorem atBoundary_applyPending_renumber (s : Session) :
    (s.renumber n).applyPending.1.atBoundary = s.applyPending.1.atBoundary.renumber n := by
  rw [applyPending_renumber, atBoundary_renumber]

/-- A run is the same, under higher numbers. -/
theorem runFrom_renumber (s : Session) (sleeps : List (List Control)) :
    (s.renumber n).runFrom sleeps = (s.runFrom sleeps).renumber n := by
  -- both runs come to the same boundary, so each case of the one is that of the other
  fun_induction runFrom s sleeps with
  | case1 s sleeps outcome s' j h =>
    have h' := atBoundary_applyPending_renumber n s
    rw [h] at h'
    rw [runFrom_over h', applyPending_renumber]
    simp only [RunResult.renumber, Journal.renumber_append]
    rfl
  | case2 s s' j h ih =>
    have h' := atBoundary_applyPending_renumber n s
    rw [h] at h'
    rw [runFrom_ran_nil h', ih, applyPending_renumber, RunResult.renumber_after,
      Journal.renumber_append]
  | case3 s s' j h turn later ih =>
    have h' := atBoundary_applyPending_renumber n s
    rw [h] at h'
    rw [runFrom_ran h', operateAll_renumber, ih, applyPending_renumber, RunResult.renumber_after,
      Journal.renumber_append, Journal.renumber_append]

theorem run_renumber (s : Session) (sleeps : List (List Control)) :
    (s.renumber n).run sleeps = (s.run sleeps).renumber n := by
  have hstart : (s.applyPending.1.renumber n).startNotice =
      Journal.renumber n s.applyPending.1.startNotice := by
    unfold startNotice
    show (if s.applyPending.1.link.state = .running then _ else _) = _
    split
    · rfl
    · rfl
  rw [run, applyPending_renumber, run, RunResult.renumber_after, ← runFrom_renumber,
    Journal.renumber_append, ← hstart]

/-! ### Actions -/

/-- Every action is the same, under higher numbers. -/
theorem perform_renumber (s : Session) (a : Action) :
    (s.renumber n).perform a =
      ((s.perform a).1, (s.perform a).2.1.renumber n, (s.perform a).2.2.renumber n) := by
  cases a with
  | operate c => rfl
  | step => simp only [perform, step_renumber]
  | applyPending => simp only [perform, applyPending_renumber]
  | wait => simp only [perform, wait_renumber]
  | run sleeps =>
    simp only [perform, run_renumber]
    rfl

theorem performAll_renumber (s : Session) (actions : List Action) :
    (s.renumber n).performAll actions =
      ((s.performAll actions).1.renumber n, (s.performAll actions).2.renumber n) := by
  induction actions generalizing s with
  | nil => rfl
  | cons a rest ih => simp only [performAll, perform_renumber, ih, Journal.renumber_append]

/-- All that follows: the rest of a run with the host's turns in it, if the session is in the
midst of one, and then any actions. -/
def goOn (s : Session) (midst : Option (List (List Control))) (actions : List Action) :
    Session × Journal :=
  match midst with
  | none => s.performAll actions
  | some sleeps =>
    let r := s.runFrom sleeps
    let (last, j) := r.session.performAll actions
    (last, r.journal ++ j)

/-- And so is all that follows. -/
theorem goOn_renumber (s : Session) (midst : Option (List (List Control)))
    (actions : List Action) :
    (s.renumber n).goOn midst actions =
      ((s.goOn midst actions).1.renumber n, (s.goOn midst actions).2.renumber n) := by
  cases midst with
  | none => exact performAll_renumber n s actions
  | some sleeps =>
    have hrest := performAll_renumber n (s.runFrom sleeps).session actions
    simp only [goOn, runFrom_renumber, Journal.renumber_append]
    simp only [RunResult.renumber, hrest]

/-- What a stop leaves is a new session on the same memory, under higher numbers. -/
theorem handle_stop_eq_renumber (s : Session) :
    (s.handle .stop).1 =
      ((Session.new (Machine.new s.machine.memory) s.timings).withLink s.link).renumber
        s.machine.started := by
  -- a new session has counted nothing yet
  have hcount : s.machine.started + 0 = s.machine.started := UInt64.add_zero _
  unfold Session.renumber Machine.renumber
  dsimp only [Session.new, Machine.new, withLink]
  rw [hcount]
  rfl

end Session

/-- When a stop has been carried out, the memory and the count are as before; and whatever
follows, the rest of a run or any actions, is what follows in a new session on the same memory,
with the same times and the same link. What is answered is the same, and so are the journal and
the session that is reached, except that the numbers of the instructions go on from the count. -/
theorem stop_starts_afresh (s : Session) :
    let stopped := (s.handle .stop).1
    let fresh := (Session.new (Machine.new s.machine.memory) s.timings).withLink s.link
    let n := s.machine.started
    stopped.machine.memory = s.machine.memory ∧ stopped.machine.started = n ∧
      ∀ (midst : Option (List (List Control))) (actions : List Action),
        let later := stopped.goOn midst actions
        let later' := fresh.goOn midst actions
        later.1 = later'.1.renumber n ∧ later.2 = later'.2.renumber n ∧
          ∀ a, (later.1.perform a).1 = (later'.1.perform a).1 := by
  intro stopped fresh n
  refine ⟨rfl, rfl, ?_⟩
  intro midst actions later later'
  have hstopped : stopped = fresh.renumber n := handle_stop_eq_renumber s
  have hlater : later = (later'.1.renumber n, later'.2.renumber n) := by
    show stopped.goOn midst actions = _
    rw [hstopped, goOn_renumber]
  rw [hlater]
  refine ⟨rfl, rfl, fun a => ?_⟩
  show ((later'.1.renumber n).perform a).1 = _
  rw [perform_renumber]

end ToyCpu
