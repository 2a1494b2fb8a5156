import ToyCpu.Session.Basic

/-!
# Runs

A run goes on for as long as the run state says so. State and queue are looked
at before every phase: a pause lets the cycle in flight end, a stop drops it.

* `RunResult` — how a run ended and what it leaves behind.
* `Session.remaining` — how many phases can still follow without the host.
* `Session.step_remaining` — every phase makes it less.
* `Session.run` — the run. It ends, because the host acts finitely often and
  between its actions `remaining` falls.
-/

namespace ToyCpu

/-- How a run ended, and the host's turns that it did not reach. -/
structure RunResult where
  outcome : Outcome
  session : Session
  sleeps : List (List Control)
  journal : Journal

/-- The result with a journal before its own. -/
def RunResult.after (j : Journal) (r : RunResult) : RunResult :=
  { r with journal := j ++ r.journal }

theorem RunResult.after_after (j j' : Journal) (r : RunResult) :
    (r.after j').after j = r.after (j ++ j') := by
  simp [RunResult.after]

namespace Session

/-! ### Requests and the queue -/

@[simp] theorem handle_link (s : Session) (r : Request) : (s.handle r).1.link = s.link := by
  cases r <;> rfl

@[simp] theorem handleAll_link (s : Session) (rs : List Request) :
    (s.handleAll rs).1.link = s.link := by
  induction rs generalizing s with
  | nil => rfl
  | cons r rest ih => simp [handleAll, ih]

@[simp] theorem applyPending_queue (s : Session) : s.applyPending.1.link.queue = [] := by
  simp [applyPending, clearQueue]

theorem applyPending_of_queue_nil (s : Session) (h : s.link.queue = []) :
    s.applyPending = (s, []) := by
  obtain ⟨machine, timings, ⟨state, queue, controllers, listening⟩, cycle, pastEnd⟩ := s
  cases h
  rfl

/-! ### Phases still to come -/

/-- How many phases of a cycle are still to run, the given one included. -/
def phasesFrom : Phase → Nat
  | .fetch => 4
  | .decode => 3
  | .execute => 2
  | .writeback => 1

/-- A bound on the phases that can follow without the host: five for every address that is
still ahead, and the rest of the cycle in flight. -/
def remaining (s : Session) : Nat :=
  match s.cycle with
  | some c => 5 * (2 ^ 32 - 1 - c.address.toNat) + phasesFrom c.next
  | none => if s.pastEnd then 0 else 5 * (2 ^ 32 - s.machine.pc.toNat)

theorem le_of_nextInstruction? {mem : Memory} {start a : Address}
    (h : mem.nextInstruction? start = some a) : start ≤ a := by
  obtain ⟨e, he, rfl⟩ := Option.map_eq_some_iff.mp h
  have := List.find?_some he
  simp only [Bool.and_eq_true, decide_eq_true_eq] at this
  exact this.1

/-- A new cycle is a fetch at or after the program counter, and begins only before the end. -/
theorem begin?_eq_some {s : Session} {c : Cycle} {machine : Machine}
    (h : s.begin? = some (c, machine)) :
    s.pastEnd = false ∧ s.machine.pc ≤ c.address ∧ c.next = .fetch := by
  unfold begin? at h
  split at h
  · simp at h
  · next hend =>
    simp only [Option.bind_eq_bind, Option.bind_eq_some_iff] at h
    obtain ⟨a, ha, text, _, h⟩ := h
    obtain ⟨rfl, _⟩ := Prod.mk.inj (Option.some.inj h)
    exact ⟨by simpa using hend, le_of_nextInstruction? ha, rfl⟩

/-- What is left after a phase of a cycle is less than what that phase began. -/
theorem runPhase_remaining (s : Session) (c : Cycle) :
    (s.runPhase c).2.1.remaining < 5 * (2 ^ 32 - 1 - c.address.toNat) + phasesFrom c.next := by
  have hlt := c.address.toNat_lt
  unfold runPhase remaining
  cases hp : c.next with
  | fetch => simp [Phase.next?, phasesFrom]
  | decode => simp [Phase.next?, phasesFrom]
  | execute => simp [Phase.next?, phasesFrom]
  | writeback =>
    simp only [Phase.next?, Option.map_none, phasesFrom, phaseResult, hp, writebackPhase]
    split
    · simp
    · next h =>
      simp only [Bool.or_false]
      rw [toNat_succ_of_ne_zero h]
      split <;> omega

@[simp] theorem runPhase_link (s : Session) (c : Cycle) : (s.runPhase c).2.1.link = s.link := rfl

@[simp] theorem step_link (s : Session) : s.step.2.1.link = s.link := by
  unfold step
  split
  · rfl
  · split <;> rfl

/-- Every phase leaves fewer to come. -/
theorem step_remaining {s : Session} {p : Phase} {duration : Milliseconds}
    (h : s.step.1 = .phase p duration) : s.step.2.1.remaining < s.remaining := by
  unfold step at h ⊢
  split
  · next c hc =>
    have := s.runPhase_remaining c
    simpa [remaining, hc] using this
  · next hc =>
    split
    · next c machine hb =>
      obtain ⟨hend, hle, hnext⟩ := begin?_eq_some hb
      have hlt := c.address.toNat_lt
      have hle : s.machine.pc.toNat ≤ c.address.toNat := hle
      have := runPhase_remaining { s with machine } c
      rw [hnext, phasesFrom] at this
      simp only [remaining, hc, hend] at this ⊢
      simp only [Bool.false_eq_true, if_false]
      omega
    · next hb => simp [hc, hb] at h

/-! ### The run -/

/-- What a phase boundary comes to: the run is over, or a phase runs and time passes. -/
inductive Boundary where
  | over (outcome : Outcome) (s : Session) (j : Journal)
  | ran (s : Session) (j : Journal)

/-- Runs the next phase. When there is none the run state becomes stopped. -/
def advance (s : Session) : Boundary :=
  match s.step with
  | (.phase _ duration, s', j) => .ran s' (j ++ [.slept duration])
  | (.finished, s', j) =>
    .over .finished { s' with link := { s'.link with state := .stopped } }
      (j ++ [notice "No more instructions to execute."])

/-- A phase boundary with an empty queue: the run state decides. -/
def atBoundary (s : Session) : Boundary :=
  match s.link.state with
  | .running => s.advance
  | .paused =>
    if s.cycle.isSome then s.advance else .over .paused s [notice "Execution paused."]
  | .stopped => .over .stopped { s with cycle := none } []
  | .idle => .over .idle s []

/-- Phases that run leave fewer to come, and the link as it is. -/
theorem atBoundary_ran {s s' : Session} {j : Journal} (h : s.atBoundary = .ran s' j) :
    s'.link = s.link ∧ s'.remaining < s.remaining := by
  have hadvance : s.advance = .ran s' j := by
    unfold atBoundary at h
    split at h
    · exact h
    · split at h
      · exact h
      · cases h
    · cases h
    · cases h
  unfold advance at hadvance
  split at hadvance
  · next p duration s₂ j₂ hstep =>
    cases hadvance
    have hlink := s.step_link
    have hless := step_remaining (s := s) (congrArg Prod.fst hstep)
    rw [hstep] at hlink hless
    exact ⟨hlink, hless⟩
  · cases hadvance

/-- Between two boundaries of a run without the host, fewer requests are left or, where none
were, fewer phases to come. -/
theorem boundary_less {s s' : Session} {j : Journal} (h : s.applyPending.1.atBoundary = .ran s' j) :
    Prod.Lex (· < ·) (· < ·) (s'.link.queue.length, s'.remaining)
      (s.link.queue.length, s.remaining) := by
  obtain ⟨hlink, hless⟩ := atBoundary_ran h
  have hqueue : s'.link.queue = [] := by rw [hlink, applyPending_queue]
  cases hq : s.link.queue with
  | nil =>
    rw [applyPending_of_queue_nil s hq] at hless
    rw [hqueue]
    exact Prod.Lex.right _ hless
  | cons r rest =>
    rw [hqueue]
    exact Prod.Lex.left _ _ (by simp)

/-- The run from a phase boundary on. During the sleep after each phase the host takes a turn,
while it has any left. -/
def runFrom (s : Session) (sleeps : List (List Control)) : RunResult :=
  match _h : s.applyPending.1.atBoundary with
  | .over outcome s' j => ⟨outcome, s', sleeps, s.applyPending.2 ++ j ++ [.ended outcome]⟩
  | .ran s' j =>
    match sleeps with
    | [] => (s'.runFrom []).after (s.applyPending.2 ++ j)
    | turn :: later =>
      ((s'.operateAll turn).1.runFrom later).after
        (s.applyPending.2 ++ j ++ (s'.operateAll turn).2)
termination_by (sleeps.length, s.link.queue.length, s.remaining)
decreasing_by
  · exact Prod.Lex.right _ (boundary_less _h)
  · exact Prod.Lex.left _ _ (by simp)

theorem runFrom_over {s s' : Session} {outcome : Outcome} {j : Journal}
    (h : s.applyPending.1.atBoundary = .over outcome s' j) (sleeps : List (List Control)) :
    s.runFrom sleeps = ⟨outcome, s', sleeps, s.applyPending.2 ++ j ++ [.ended outcome]⟩ := by
  unfold runFrom
  split
  · next heq =>
    rw [h] at heq
    cases heq
    rfl
  · next heq =>
    rw [h] at heq
    cases heq

/-- A phase runs, and without a turn left to the host the run goes on. -/
theorem runFrom_ran_nil {s s' : Session} {j : Journal}
    (h : s.applyPending.1.atBoundary = .ran s' j) :
    s.runFrom [] = (s'.runFrom []).after (s.applyPending.2 ++ j) := by
  rw [runFrom]
  split
  · next heq =>
    rw [h] at heq
    cases heq
  · next heq =>
    rw [h] at heq
    cases heq
    rfl

/-- A phase runs, the host takes its turn, and the run goes on. -/
theorem runFrom_ran {s s' : Session} {j : Journal} (h : s.applyPending.1.atBoundary = .ran s' j)
    (turn : List Control) (later : List (List Control)) :
    s.runFrom (turn :: later) =
      ((s'.operateAll turn).1.runFrom later).after
        (s.applyPending.2 ++ j ++ (s'.operateAll turn).2) := by
  rw [runFrom]
  split
  · next heq =>
    rw [h] at heq
    cases heq
  · next heq =>
    rw [h] at heq
    cases heq
    rfl

/-- What a run reports first. -/
def startNotice (s : Session) : Journal :=
  if s.link.state = .running then [notice "Execution started."] else []

/-- Runs the program while the run state says so. Running out of instructions stops the run
but leaves the program counter where it is. -/
def run (s : Session) (sleeps : List (List Control)) : RunResult :=
  (s.applyPending.1.runFrom sleeps).after
    (s.applyPending.2 ++ s.applyPending.1.startNotice)

end Session

end ToyCpu
