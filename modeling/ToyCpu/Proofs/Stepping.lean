import ToyCpu.CommandLine.Program
import ToyCpu.Proofs.SplitRun

/-!
# Runs are steps

A run that nobody disturbs adds nothing of its own to the steps that it is made of: a notice
before them and one after, and the time that each phase says it takes. The course of a session
links the two. It is the steps with these times in between, and it is what such a run goes
through. The timings are only ever reported, so with other timings the steps are the same.

* `Session.steps`, `Session.Lasts` — so many steps, after which there is nothing to do.
* `Session.Lasts.course_eq` — the course of a session is made of these steps.
* `Journal.pacing`, `TraceEvent.paced` — phases and sleeps, and how they are to alternate.
* `RunsInSteps` — a run that does what so many steps do.
* `TraceEvent.retimed`, `Session.steps_withTimings` — steps with other timings.
* `run_is_iterated_step` — an undisturbed run does what its steps do, with any timings.
* `Program.conduct_machine_eq` — so a program ends the same however it is traced and paced.
-/

namespace ToyCpu

open Session

/-! ### Phases and sleeps -/

/-- Entries that tell of a phase or of a sleep. -/
def Entry.isPacing : Entry → Bool
  | .event (.phase ..) | .slept _ => true
  | _ => false

/-- The phases and the sleeps of a journal, as they follow each other. -/
def Journal.pacing (j : Journal) : Journal := j.filter Entry.isPacing

theorem Journal.pacing_append (j j' : Journal) : (j ++ j').pacing = j.pacing ++ j'.pacing :=
  List.filter_append ..

/-- That requests are carried out is neither. -/
theorem Journal.pacing_handled (rs : List Request) : Journal.pacing (rs.map .handled) = [] := by
  refine List.filter_eq_nil_iff.mpr fun e he => ?_
  obtain ⟨r, -, rfl⟩ := List.mem_map.mp he
  nofun

namespace TraceEvent

/-- A phase and the sleep after it, for the time that the phase says. -/
def paced : TraceEvent → Journal
  | .phase number p a content duration =>
    [.event (.phase number p a content duration), .slept duration]
  | .notice _ => []

/-- The event with the duration that its phase has by these timings. -/
def retimed (timings : Timings) : TraceEvent → TraceEvent
  | .phase number p a content _ => .phase number p a content (timings.of p)
  | .notice message => .notice message

end TraceEvent

namespace Session

/-! ### Steps -/

/-- So many steps, one after the other. -/
def steps (s : Session) (n : Nat) : Session × Journal := s.performAll (List.replicate n .step)

/-- So many steps run a phase each, and the next one finds nothing to do. -/
structure Lasts (s : Session) (n : Nat) : Prop where
  onward : ∀ k < n, (s.steps k).1.step.1 ≠ .finished
  finished : (s.steps n).1.step.1 = .finished

/-- The first of some steps, and the others. -/
theorem steps_succ (s : Session) (n : Nat) :
    s.steps (n + 1) =
      ((s.step.2.1.steps n).1, s.step.2.2 ++ (s.step.2.1.steps n).2) := rfl

theorem lasts_zero {s : Session} (h : s.step.1 = .finished) : s.Lasts 0 :=
  ⟨nofun, h⟩

theorem lasts_succ_iff {s s' : Session} {p : Phase} {duration : Milliseconds} {j : Journal}
    (h : s.step = (.phase p duration, s', j)) (n : Nat) : s.Lasts (n + 1) ↔ s'.Lasts n := by
  have hlater : ∀ k, (s.steps (k + 1)).1 = (s'.steps k).1 := fun k => by rw [steps_succ, h]
  constructor
  · intro hlasts
    constructor
    · intro k hk
      rw [← hlater]
      exact hlasts.onward (k + 1) (Nat.succ_lt_succ hk)
    · rw [← hlater]
      exact hlasts.finished
  · intro hlasts
    constructor
    · intro k hk
      cases k with
      | zero =>
        show s.step.1 ≠ .finished
        rw [h]
        nofun
      | succ k =>
        rw [hlater]
        exact hlasts.onward k (Nat.lt_of_succ_lt_succ hk)
    · rw [hlater]
      exact hlasts.finished

/-- Steps come to an end, for a course does. -/
theorem exists_lasts (s : Session) : ∃ n, s.Lasts n := by
  induction s using course_induction with
  | finished s h => exact ⟨0, lasts_zero (congrArg Prod.fst h)⟩
  | phase s s' p duration j h ih =>
    obtain ⟨n, hn⟩ := ih
    exact ⟨n + 1, (lasts_succ_iff h n).mpr hn⟩

/-- What a phase reports, and that it does not sleep. -/
theorem runPhase_reports (s : Session) (c : Cycle) :
    (s.runPhase c).2.2.events = [.phase c.number c.next c.address
        (phaseResult s.machine c).content (s.timings.of c.next)] ∧
      (s.runPhase c).2.2.pacing = [.event (.phase c.number c.next c.address
        (phaseResult s.machine c).content (s.timings.of c.next))] := by
  have hpacing : (phaseResult s.machine c).journal.pacing = [] := by
    refine List.filter_eq_nil_iff.mpr fun e he => ?_
    rcases phaseResult_journal s.machine c e he with ⟨inst, rfl⟩ | ⟨a, f, text, rfl⟩
    · nofun
    · nofun
  constructor
  · rw [runPhase, Journal.events_append, phaseResult_events]
    rfl
  · rw [runPhase, Journal.pacing_append, hpacing]
    rfl

/-- A step that runs a phase reports it with the time that is to pass, and does not sleep. -/
theorem step_reports {s s' : Session} {p : Phase} {duration : Milliseconds} {j : Journal}
    (h : s.step = (.phase p duration, s', j)) :
    ∃ e : TraceEvent, j.events = [e] ∧ e.paced = j.pacing ++ [.slept duration] := by
  have hphase : ∀ (t : Session) (c : Cycle), t.runPhase c = (.phase p duration, s', j) →
      ∃ e : TraceEvent, j.events = [e] ∧ e.paced = j.pacing ++ [.slept duration] := by
    intro t c hrun
    obtain ⟨hevents, hpacing⟩ := t.runPhase_reports c
    have hduration : t.timings.of c.next = duration := by
      have htick := congrArg Prod.fst hrun
      cases htick
      rfl
    rw [hrun] at hevents hpacing
    refine ⟨_, hevents, ?_⟩
    rw [hpacing, ← hduration]
    rfl
  rcases s.step_cases with ⟨c, -, hstep⟩ | ⟨c, machine, -, -, hstep⟩ | ⟨-, -, hstep⟩
  · exact hphase _ c (hstep.symm.trans h)
  · exact hphase _ c (hstep.symm.trans h)
  · cases hstep.symm.trans h

/-- The course of a session is made of its steps, with the time that each phase says after
it. -/
theorem Lasts.course_eq {n : Nat} {s : Session} (h : s.Lasts n) :
    s.course.2 = (s.steps n).1 ∧ s.course.1.events = (s.steps n).2.events ∧
      s.course.1.pacing = (s.steps n).2.events.flatMap TraceEvent.paced := by
  induction n generalizing s with
  | zero =>
    have hdry : s.step = (.finished, s, []) := (step_eq_finished h.finished).2.2
    rw [course_finished hdry]
    exact ⟨rfl, rfl, rfl⟩
  | succ n ih =>
    rcases hstep : s.step with ⟨tick, s', j⟩
    cases tick with
    | finished => exact absurd (congrArg Prod.fst hstep) (h.onward 0 n.succ_pos)
    | phase p duration =>
      obtain ⟨hsession, hevents, hpacing⟩ := ih ((lasts_succ_iff hstep n).mp h)
      obtain ⟨e, he, hpaced⟩ := step_reports hstep
      -- the step reports one phase, and the course sleeps once for it
      rw [course_phase hstep, steps_succ, hstep]
      refine ⟨hsession, ?_, ?_⟩
      · show Journal.events (j ++ .slept duration :: s'.course.1) = Journal.events (j ++ _)
        rw [Journal.events_append, Journal.events_append, ← hevents]
        rfl
      · show Journal.pacing (j ++ ([.slept duration] ++ s'.course.1)) =
          (Journal.events (j ++ _)).flatMap TraceEvent.paced
        rw [Journal.pacing_append, Journal.pacing_append, hpacing, Journal.events_append,
          List.flatMap_append, he, List.flatMap_singleton, hpaced, List.append_assoc]
        rfl

/-- The link takes no part in a course. -/
theorem course_link (s : Session) : s.course.2.link = s.link := by
  have hsame : s.course.2 = s.course.2.withLink s.link :=
    congrArg Prod.snd (s.course_withLink s.link)
  rw [hsame, withLink_link]

end Session

/-! ### Runs -/

/-- What becomes of a sink that is told the events of a journal, one by one. -/
def Journal.tell {α : Type} (emit : α → TraceEvent → α) (a : α) (j : Journal) : α :=
  j.events.foldl emit a

/-- A run that does what so many steps do. It ends where they do, with the queue emptied and the
run state stopped. It reports their events between two notices, and sleeps after each phase for
the time that its event says. -/
structure RunsInSteps (s : Session) (n : Nat) (r : RunResult) : Prop where
  outcome : r.outcome = .finished
  session : r.session = ((s.steps n).1.withQueue []).withState .stopped
  events : r.journal.events = .notice "Execution started." :: (s.steps n).2.events ++
    [.notice "No more instructions to execute."]
  pacing : r.journal.pacing = (s.steps n).2.events.flatMap TraceEvent.paced
  /-- Whatever a sink makes of each event, it comes to what the steps come to between the two
  notices. -/
  sink : ∀ {α : Type} (emit : α → TraceEvent → α) (a : α),
    r.journal.tell emit a = emit ((s.steps n).2.tell emit (emit a (.notice "Execution started.")))
      (.notice "No more instructions to execute.")

namespace Session

/-- A session that is running and asked for nothing but to wake up, under a host that does
nothing. -/
theorem Lasts.runsInSteps {s : Session} {n : Nat} (h : s.Lasts n)
    (hrunning : s.link.state = .running) (hwakes : ∀ r ∈ s.link.queue, r = .wake)
    {sleeps : List (List Control)} (hquiet : ∀ turn ∈ sleeps, turn = []) :
    RunsInSteps s n (s.run sleeps) := by
  obtain ⟨hsession, hevents, hpacing⟩ := h.course_eq
  have hundisturbed : (s.withQueue []).Undisturbed := ⟨hrunning, rfl⟩
  obtain ⟨rest, hrun⟩ := hundisturbed.runFrom_course hquiet
  -- what is queued takes no part in the course
  have hcourse : (s.withQueue []).course = (s.course.1, s.course.2.withQueue []) := by
    have hlink := s.course_withLink (s.withQueue []).link
    have hqueue : s.course.2.withQueue [] = s.course.2.withLink (s.withQueue []).link := by
      show s.course.2.withLink { s.course.2.link with queue := [] } = _
      rw [s.course_link]
      rfl
    rw [hqueue]
    exact hlink
  have hall := run_of_wakes hwakes hrunning sleeps
  rw [hrun, hcourse] at hall
  rw [hall]
  have hreported : (RunResult.after (s.link.queue.map .handled ++ [notice "Execution started."])
      ⟨.finished, (s.course.2.withQueue []).withState .stopped, rest, s.course.1 ++
        [notice "No more instructions to execute.", .ended .finished]⟩).journal.events =
      .notice "Execution started." :: (s.steps n).2.events ++
        [.notice "No more instructions to execute."] := by
    rw [RunResult.events_after, Journal.events_append, Journal.events_handled,
      Journal.events_append, hevents]
    rfl
  constructor
  case outcome => rfl
  case session =>
    show (s.course.2.withQueue []).withState .stopped = _
    rw [hsession]
  case events => exact hreported
  case sink =>
    intro α emit a
    rw [Journal.tell, hreported, List.foldl_append]
    rfl
  case pacing =>
    show Journal.pacing (s.link.queue.map .handled ++ _ ++ (s.course.1 ++ _)) = _
    rw [Journal.pacing_append, Journal.pacing_append, Journal.pacing_handled,
      Journal.pacing_append, hpacing]
    exact List.append_nil _

/-! ### Other timings -/

/-- The session with other timings. -/
def withTimings (s : Session) (timings : Timings) : Session := { s with timings := timings }

/-- A phase does the same by other timings, and reports another duration. -/
theorem runPhase_withTimings (s : Session) (timings : Timings) (c : Cycle) :
    ((s.withTimings timings).runPhase c).2.1 = (s.runPhase c).2.1.withTimings timings ∧
      ((s.withTimings timings).runPhase c).2.2.events =
        (s.runPhase c).2.2.events.map (TraceEvent.retimed timings) := by
  constructor
  · rfl
  · rw [(s.runPhase_reports c).1, ((s.withTimings timings).runPhase_reports c).1]
    rfl

/-- A step does the same by other timings, and reports another duration. -/
theorem step_withTimings (s : Session) (timings : Timings) :
    ((s.withTimings timings).step.1 = .finished ↔ s.step.1 = .finished) ∧
      (s.withTimings timings).step.2.1 = s.step.2.1.withTimings timings ∧
      (s.withTimings timings).step.2.2.events =
        s.step.2.2.events.map (TraceEvent.retimed timings) := by
  have hphase : ∀ (t : Session) (c : Cycle), s.step = t.runPhase c →
      (s.withTimings timings).step = (t.withTimings timings).runPhase c →
      ((s.withTimings timings).step.1 = .finished ↔ s.step.1 = .finished) ∧
        (s.withTimings timings).step.2.1 = s.step.2.1.withTimings timings ∧
        (s.withTimings timings).step.2.2.events =
          s.step.2.2.events.map (TraceEvent.retimed timings) := by
    intro t c hstep hstep'
    rw [hstep, hstep']
    exact ⟨⟨nofun, nofun⟩, t.runPhase_withTimings timings c⟩
  -- which phase is run, if any, is not a matter of the timings
  rcases s.step_cases with ⟨c, hcycle, hstep⟩ | ⟨c, machine, hcycle, hbegin, hstep⟩ |
    ⟨hcycle, hbegin, hstep⟩
  · exact hphase s c hstep (step_inFlight hcycle)
  · exact hphase { s with machine } c hstep (step_begin hcycle hbegin)
  · have hstep' : (s.withTimings timings).step = (.finished, s.withTimings timings, []) :=
      step_dry hcycle hbegin
    rw [hstep, hstep']
    exact ⟨Iff.rfl, rfl, rfl⟩

/-- Steps come to the same by other timings, but for the durations that they report. -/
theorem steps_withTimings (n : Nat) (s : Session) (timings : Timings) :
    ((s.withTimings timings).steps n).1 = (s.steps n).1.withTimings timings ∧
      ((s.withTimings timings).steps n).2.events =
        (s.steps n).2.events.map (TraceEvent.retimed timings) := by
  induction n generalizing s with
  | zero => exact ⟨rfl, rfl⟩
  | succ n ih =>
    obtain ⟨-, hsession, hevents⟩ := s.step_withTimings timings
    obtain ⟨hlast, hlater⟩ := ih s.step.2.1
    rw [steps_succ, steps_succ, hsession]
    constructor
    · exact hlast
    · show Journal.events (_ ++ _) = (Journal.events (_ ++ _)).map _
      rw [Journal.events_append, Journal.events_append, hevents, hlater, List.map_append]

/-- It lasts as many steps by other timings. -/
theorem Lasts.withTimings {s : Session} {n : Nat} (h : s.Lasts n) (timings : Timings) :
    (s.withTimings timings).Lasts n := by
  have hsteps := fun k => (steps_withTimings k s timings).1
  constructor
  · intro k hk hfinished
    rw [hsteps, (step_withTimings _ timings).1] at hfinished
    exact h.onward k hk hfinished
  · rw [hsteps, (step_withTimings _ timings).1]
    exact h.finished

/-- A session that is running and asked for nothing but to wake up does the same by other
timings, in a run under another host that does nothing. -/
theorem run_withTimings {s : Session} (hrunning : s.link.state = .running)
    (hwakes : ∀ r ∈ s.link.queue, r = .wake) {sleeps sleeps' : List (List Control)}
    (hquiet : ∀ turn ∈ sleeps, turn = []) (hquiet' : ∀ turn ∈ sleeps', turn = [])
    (timings : Timings) :
    ((s.withTimings timings).run sleeps').session = (s.run sleeps).session.withTimings timings ∧
      ((s.withTimings timings).run sleeps').journal.events =
        (s.run sleeps).journal.events.map (TraceEvent.retimed timings) := by
  -- both runs are compared with the steps, which differ in the durations alone
  obtain ⟨n, hn⟩ := s.exists_lasts
  have hrun := hn.runsInSteps hrunning hwakes hquiet
  have hrun' := (hn.withTimings timings).runsInSteps hrunning hwakes hquiet'
  obtain ⟨hsession, hevents⟩ := steps_withTimings n s timings
  constructor
  · rw [hrun.session, hrun'.session, hsession]
    rfl
  · rw [hrun.events, hrun'.events, hevents, List.map_append, List.map_cons]
    rfl

end Session

/-- A session is running, with nobody asking for more than to wake it up, and the host does
nothing during the run. Then the run does what single steps do up to the one that finds nothing
to do: it ends with the same machine and the same mark of the end, reports the same events
between two notices, to whatever sink, and sleeps after each phase for just the time that its
event says. By other timings, and however the time passes, it comes to the same but for the
durations. -/
theorem run_is_iterated_step (s : Session) (sleeps : List (List Control))
    (hrunning : s.link.state = .running) (hwakes : ∀ r ∈ s.link.queue, r = .wake)
    (hquiet : ∀ turn ∈ sleeps, turn = []) :
    ∃ n, s.Lasts n ∧ RunsInSteps s n (s.run sleeps) ∧
      ∀ (timings : Timings) (sleeps' : List (List Control)), (∀ turn ∈ sleeps', turn = []) →
        let again := (s.withTimings timings).run sleeps'
        again.session = (s.run sleeps).session.withTimings timings ∧
          again.journal.events =
            (s.run sleeps).journal.events.map (TraceEvent.retimed timings) := by
  obtain ⟨n, hn⟩ := s.exists_lasts
  refine ⟨n, hn, hn.runsInSteps hrunning hwakes hquiet, ?_⟩
  intro timings sleeps' hquiet'
  exact run_withTimings hrunning hwakes hquiet hquiet' timings

/-- A program that writes over its own last instruction, stopped in the midst of its first
cycle. -/
def interrupted : Session :=
  let mem := ((Memory.empty .unified).set 1 "MOV R1, halt" .instruction).set 3 "STORE R1, 7"
    .instruction
  let fresh := Session.new (Machine.new (mem.set 7 "MOV R2, R1" .instruction))
    Architecture.unified.defaultTimings
  (fresh.performAll [.step, .step, .operate .play]).1

/-- It has ten phases left, and runs through them as it steps through them. -/
theorem interrupted_runs_in_steps :
    interrupted.pendingPhase = some .execute ∧ interrupted.link.state = .running ∧
      (∀ r ∈ interrupted.link.queue, r = .wake) ∧ interrupted.Lasts 10 ∧
      ∃ n, interrupted.Lasts n ∧ RunsInSteps interrupted n (interrupted.run [[], []]) := by
  have hwakes : ∀ r ∈ interrupted.link.queue, r = .wake := by
    intro r hr
    exact List.mem_singleton.mp hr
  refine ⟨rfl, rfl, hwakes, ?_, ?_⟩
  · constructor
    · decide +kernel
    · decide +kernel
  · obtain ⟨n, hn, hrun, -⟩ := run_is_iterated_step interrupted [[], []] rfl hwakes (by decide)
    exact ⟨n, hn, hrun⟩

namespace Program

/-- A program that is not interactive leaves the same machine in whatever form its trace is
written, at whatever pace it goes, and whatever its timings are. -/
theorem conduct_machine_eq {o o' : Options} (h : o.interactive = false)
    (h' : o'.interactive = false) (timings timings' : Timings) (m : Machine)
    (lines lines' : List String) :
    (conduct o' timings' m lines').1 = (conduct o timings m lines).1 := by
  -- both programs run the session that has been played and let go of
  let played := ((Session.new m timings).operateAll [.play, .release]).1
  have hwakes : ∀ r ∈ played.link.queue, r = .wake := by
    intro r hr
    exact List.mem_singleton.mp hr
  have hquiet : ∀ turn ∈ ([] : List (List Control)), turn = [] := nofun
  have hsame := (run_withTimings (s := played) rfl hwakes hquiet hquiet timings').1
  have hconduct : (conduct o timings m lines).1 = (played.run []).session.machine := by
    unfold conduct
    simp only [h, Bool.false_eq_true, if_false]
    rfl
  have hconduct' : (conduct o' timings' m lines').1 =
      ((played.withTimings timings').run []).session.machine := by
    unfold conduct
    simp only [h', Bool.false_eq_true, if_false]
    rfl
  rw [hconduct, hconduct', hsame]
  rfl

end Program

end ToyCpu
