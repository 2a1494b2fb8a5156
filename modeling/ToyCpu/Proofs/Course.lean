import ToyCpu.Proofs.Moves

/-!
# The course of a program

Steps look at the machine and the cycle in flight, never at the link. So without requests a
session has a course that is fixed from the start: the phases up to the end of the program,
each followed by the time for it.

* `Journal.passage` — the entries of a journal that belong to a course, with
  `Journal.phases`, `Journal.issued` and `Journal.durations` among them.
* `Session.course` — the course of a session and the session at its end.
* `Session.course_withLink` — run state, queue and controllers do not matter to it.
* `Session.course_ends` — at its end there is nothing to do.
* `Session.Undisturbed.runFrom_course` — a run that nobody disturbs goes through it.
-/

namespace ToyCpu

open Session

/-! ### What belongs to a course -/

/-- Entries that tell of a phase, or of the time after it. -/
def Entry.isPassage : Entry → Bool
  | .issued _ | .fault .. | .event (.phase ..) | .slept _ => true
  | _ => false

/-- The event of a phase that ran. -/
def Entry.phaseEvent? : Entry → Option TraceEvent
  | .event (.phase number p a content duration) => some (.phase number p a content duration)
  | _ => none

/-- The instruction that was handed to the execution unit. -/
def Entry.issued? : Entry → Option Instruction
  | .issued inst => some inst
  | _ => none

/-- The time that passed between two phases. -/
def Entry.slept? : Entry → Option Milliseconds
  | .slept duration => some duration
  | _ => none

namespace Journal

/-- The events of the phases that ran, in order. -/
def phases (j : Journal) : List TraceEvent := j.filterMap Entry.phaseEvent?

/-- The instructions that were executed, in order. -/
def issued (j : Journal) : List Instruction := j.filterMap Entry.issued?

/-- The times that passed between the phases, in order. -/
def durations (j : Journal) : List Milliseconds := j.filterMap Entry.slept?

/-- The phases of a journal, with all that was executed, and the times between them. -/
def passage (j : Journal) : Journal := j.filter Entry.isPassage

theorem passage_append (j j' : Journal) : (j ++ j').passage = j.passage ++ j'.passage :=
  List.filter_append ..

theorem passage_eq_self {j : Journal} (h : ∀ e ∈ j, e.isPassage = true) : j.passage = j :=
  List.filter_eq_self.mpr h

theorem passage_eq_nil {j : Journal} (h : ∀ e ∈ j, e.isPassage = false) : j.passage = [] := by
  refine List.filter_eq_nil_iff.mpr fun e he => ?_
  rw [h e he]
  decide

/-- Requests do not belong to a course. -/
theorem passage_handled (rs : List Request) : Journal.passage (rs.map .handled) = [] := by
  refine passage_eq_nil fun e he => ?_
  obtain ⟨r, -, rfl⟩ := List.mem_map.mp he
  rfl

/-- What is told of phases and times is told in the passage. -/
theorem filterMap_passage {α : Type} {f : Entry → Option α}
    (hf : ∀ e : Entry, e.isPassage = false → f e = none) (j : Journal) :
    j.passage.filterMap f = j.filterMap f := by
  rw [passage, List.filterMap_filter]
  refine congrArg (List.filterMap · j) (funext fun e => ?_)
  -- what the filter drops, the function would have dropped
  by_cases he : e.isPassage = true
  · exact if_pos he
  · rw [if_neg he, hf e (Bool.eq_false_iff.mpr he)]

theorem phases_passage (j : Journal) : j.passage.phases = j.phases := by
  refine filterMap_passage (fun e he => ?_) j
  cases e with
  | event e =>
    cases e with
    | phase => cases he
    | notice => rfl
  | _ => rfl

theorem issued_passage (j : Journal) : j.passage.issued = j.issued := by
  refine filterMap_passage (fun e he => ?_) j
  cases e with
  | issued => cases he
  | _ => rfl

theorem durations_passage (j : Journal) : j.passage.durations = j.durations := by
  refine filterMap_passage (fun e he => ?_) j
  cases e with
  | slept => cases he
  | _ => rfl

end Journal

namespace Session

/-- The session with another link. -/
def withLink (s : Session) (l : Link) : Session := { s with link := l }

@[simp] theorem withLink_link (s : Session) (l : Link) : (s.withLink l).link = l := rfl

@[simp] theorem withLink_withLink (s : Session) (l l' : Link) :
    (s.withLink l).withLink l' = s.withLink l' := rfl

@[simp] theorem withLink_self (s : Session) : s.withLink s.link = s := rfl

/-! ### Steps and the link -/

/-- A step does the same whatever the link is. -/
theorem step_withLink (s : Session) (l : Link) :
    (s.withLink l).step = (s.step.1, s.step.2.1.withLink l, s.step.2.2) := by
  -- which cycle begins is for the machine to say, so the three cases are the same on both sides
  have hbegin : (s.withLink l).begin? = s.begin? := rfl
  rcases s.step_cases with ⟨c, hcycle, hstep⟩ | ⟨c, machine, hcycle, hb, hstep⟩ | ⟨hcycle, hb, hstep⟩
  · have hcycle' : (s.withLink l).cycle = some c := hcycle
    rw [hstep, step, hcycle']
    rfl
  · have hcycle' : (s.withLink l).cycle = none := hcycle
    rw [hstep, step, hcycle', hbegin, hb]
    rfl
  · have hcycle' : (s.withLink l).cycle = none := hcycle
    rw [hstep, step, hcycle', hbegin, hb]

/-- All that a step writes down belongs to the course. -/
theorem step_passage (s : Session) : s.step.2.2.passage = s.step.2.2 := by
  -- a phase records an execution and itself, and both belong to the course
  have hphase : ∀ (s : Session) (c : Cycle), (s.runPhase c).2.2.passage = (s.runPhase c).2.2 := by
    intro s c
    refine Journal.passage_eq_self fun e he => ?_
    rcases List.mem_append.mp he with he | he
    · rcases phaseResult_journal s.machine c e he with ⟨inst, rfl⟩ | ⟨a, f, text, rfl⟩
      · rfl
      · rfl
    · obtain rfl := List.mem_singleton.mp he
      rfl
  rcases s.step_cases with ⟨c, -, hstep⟩ | ⟨c, machine, -, -, hstep⟩ | ⟨-, -, hstep⟩
  · rw [hstep, hphase]
  · rw [hstep, hphase]
  · rw [hstep]
    rfl

/-! ### The course -/

/-- All phases up to the end of the program, with the time after each of them, and the session
as they leave it. -/
def course (s : Session) : Journal × Session :=
  match _h : s.step with
  | (.finished, s', j) => (j, s')
  | (.phase _ duration, s', j) => (j ++ .slept duration :: s'.course.1, s'.course.2)
termination_by s.remaining
decreasing_by
  all_goals
    have hless := step_remaining (s := s) (congrArg Prod.fst _h)
    rw [_h] at hless
    exact hless

/-- A session with nothing to do is at the end of its course. -/
theorem course_finished {s : Session} (h : s.step = (.finished, s, [])) : s.course = ([], s) := by
  rw [course]
  split
  · next heq =>
    rw [h] at heq
    cases heq
    rfl
  · next heq =>
    rw [h] at heq
    cases heq

/-- The course of a session begins with the phase that its step runs. -/
theorem course_phase {s s' : Session} {p : Phase} {duration : Milliseconds} {j : Journal}
    (h : s.step = (.phase p duration, s', j)) :
    s.course = (j ++ .slept duration :: s'.course.1, s'.course.2) := by
  rw [course]
  split
  · next heq =>
    rw [h] at heq
    cases heq
  · next heq =>
    rw [h] at heq
    cases heq
    rfl

/-- The induction along a course: a session with nothing to do, and one with a phase before the
rest of its course. -/
theorem course_induction {motive : Session → Prop}
    (finished : ∀ s, s.step = (.finished, s, []) → motive s)
    (phase : ∀ s s' p duration j, s.step = (.phase p duration, s', j) → motive s' → motive s)
    (s : Session) : motive s := by
  -- by induction on the phases that remain, since the session that a step leaves is no part of the
  -- one before
  induction hn : s.remaining using Nat.strongRecOn generalizing s with
  | ind n ih =>
    rcases hstep : s.step with ⟨tick, s', j⟩
    cases tick with
    | finished =>
      have hfin := (step_eq_finished (congrArg Prod.fst hstep)).2.2
      exact finished s hfin
    | phase p duration =>
      have hless := step_remaining (s := s) (congrArg Prod.fst hstep)
      rw [hstep] at hless
      exact phase s s' p duration j hstep (ih _ (hn ▸ hless) s' rfl)

/-- The course of a session does not depend on its link. -/
theorem course_withLink (s : Session) (l : Link) :
    (s.withLink l).course = (s.course.1, s.course.2.withLink l) := by
  induction s using course_induction with
  | finished s h =>
    have h' : (s.withLink l).step = (.finished, s.withLink l, []) := by rw [step_withLink, h]
    rw [course_finished h, course_finished h']
  | phase s s' p duration j h ih =>
    have h' : (s.withLink l).step = (.phase p duration, s'.withLink l, j) := by
      rw [step_withLink, h]
    rw [course_phase h, course_phase h', ih]

/-- At the end of a course there is nothing to do. -/
theorem course_ends (s : Session) : s.course.2.step = (.finished, s.course.2, []) := by
  induction s using course_induction with
  | finished s h =>
    rw [course_finished h]
    exact h
  | phase s s' p duration j h ih =>
    rw [course_phase h]
    exact ih

/-! ### Runs without a host -/

/-- A session that is running, with nothing to take from its queue. -/
structure Undisturbed (s : Session) : Prop where
  running : s.link.state = .running
  queue : s.link.queue = []

/-- Waking a session that is not waiting changes nothing. -/
theorem handleAll_of_wakes (s : Session) {rs : List Request} (h : ∀ r ∈ rs, r = .wake) :
    s.handleAll rs = (s, rs.map .handled) := by
  induction rs with
  | nil => rfl
  | cons r rest ih =>
    obtain rfl := h r List.mem_cons_self
    have hrest := ih fun r hr => h r (List.mem_cons_of_mem _ hr)
    simp only [handleAll, handle, hrest]
    rfl

/-- The run of a session that is running and is asked for nothing but to wake up. -/
theorem run_of_wakes {s : Session} (h : ∀ r ∈ s.link.queue, r = .wake)
    (hrunning : s.link.state = .running) (sleeps : List (List Control)) :
    s.run sleeps = ((s.withQueue []).runFrom sleeps).after
      (s.link.queue.map .handled ++ [notice "Execution started."]) := by
  have happly : s.applyPending = (s.withQueue [], s.link.queue.map .handled) :=
    handleAll_of_wakes _ h
  have hstart : (s.withQueue []).startNotice = [notice "Execution started."] := if_pos hrunning
  rw [run, happly, hstart]

/-- An undisturbed session goes on at a boundary. -/
theorem Undisturbed.atBoundary_eq {s : Session} (h : s.Undisturbed) :
    s.applyPending = (s, []) ∧ s.applyPending.1.atBoundary = s.advance := by
  have happly := applyPending_of_queue_nil s h.queue
  refine ⟨happly, ?_⟩
  rw [happly, atBoundary, h.running]

/-- An undisturbed session with a phase to run runs it, and what the host does meanwhile comes
before the run that is left. -/
theorem Undisturbed.runFrom_eq {s s' : Session} {p : Phase} {duration : Milliseconds}
    {j : Journal} (h : s.Undisturbed) (hstep : s.step = (.phase p duration, s', j))
    (sleeps : List (List Control)) :
    s.runFrom sleeps = ((s'.operateAll (sleeps.headD [])).1.runFrom sleeps.tail).after
      (j ++ [.slept duration] ++ (s'.operateAll (sleeps.headD [])).2) := by
  -- the run neither pauses nor has a request to take, so its boundary is the step
  have hran : s.applyPending.1.atBoundary = .ran s' (j ++ [.slept duration]) := by
    rw [h.atBoundary_eq.2, advance, hstep]
  cases sleeps with
  | nil =>
    rw [runFrom_ran_nil hran, h.atBoundary_eq.1, List.nil_append]
    exact congrArg (RunResult.after · _) (List.append_nil _).symm
  | cons turn later =>
    rw [runFrom_ran hran, h.atBoundary_eq.1, List.nil_append]
    rfl

/-- The same where the host does nothing. -/
theorem Undisturbed.runFrom_phase {s s' : Session} {p : Phase} {duration : Milliseconds}
    {j : Journal} (h : s.Undisturbed) (hstep : s.step = (.phase p duration, s', j))
    {sleeps : List (List Control)} (hquiet : ∀ turn ∈ sleeps, turn = []) :
    ∃ rest : List (List Control), (∀ turn ∈ rest, turn = []) ∧
      s.runFrom sleeps = (s'.runFrom rest).after (j ++ [.slept duration]) := by
  have hfirst : sleeps.headD [] = [] := by
    cases sleeps with
    | nil => rfl
    | cons turn later => exact hquiet turn List.mem_cons_self
  refine ⟨sleeps.tail, fun turn hturn => hquiet turn (List.mem_of_mem_tail hturn), ?_⟩
  rw [h.runFrom_eq hstep, hfirst]
  exact congrArg (RunResult.after · _) (List.append_nil _)

/-- A phase leaves a session as undisturbed as it was. -/
theorem Undisturbed.step {s s' : Session} {tick : Tick} {j : Journal} (h : s.Undisturbed)
    (hstep : s.step = (tick, s', j)) : s'.Undisturbed := by
  have hlink := s.step_link
  rw [hstep] at hlink
  constructor
  · rw [hlink, h.running]
  · rw [hlink, h.queue]

/-- An undisturbed run that finds nothing to do is over. -/
theorem runFrom_finished {s : Session} (h : s.Undisturbed)
    (hstep : s.step = (.finished, s, [])) (sleeps : List (List Control)) :
    s.runFrom sleeps = ⟨.finished, s.withState .stopped, sleeps,
      [notice "No more instructions to execute.", .ended .finished]⟩ := by
  obtain ⟨happly, hboundary⟩ := h.atBoundary_eq
  rw [advance, hstep] at hboundary
  rw [runFrom_over hboundary, happly]
  rfl

/-- An undisturbed run in which the host does nothing goes through the whole course, and has
nothing else to tell but that it is over. -/
theorem Undisturbed.runFrom_course {s : Session} (h : s.Undisturbed)
    {sleeps : List (List Control)} (hquiet : ∀ turn ∈ sleeps, turn = []) :
    ∃ rest : List (List Control), s.runFrom sleeps = ⟨.finished, s.course.2.withState .stopped, rest,
      s.course.1 ++ [notice "No more instructions to execute.", .ended .finished]⟩ := by
  -- along the course: every phase is run, and leaves the session undisturbed
  induction s using course_induction generalizing sleeps with
  | finished s hstep =>
    refine ⟨sleeps, ?_⟩
    rw [runFrom_finished h hstep, course_finished hstep]
    rfl
  | phase s s' p duration j hstep ih =>
    obtain ⟨rest, hrest, hrun⟩ := h.runFrom_phase hstep hquiet
    obtain ⟨last, hlast⟩ := ih (h.step hstep) hrest
    refine ⟨last, ?_⟩
    rw [hrun, hlast, course_phase hstep]
    simp only [RunResult.after, List.append_assoc, List.cons_append, List.nil_append]

end Session

end ToyCpu
