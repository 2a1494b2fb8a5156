import ToyCpu.Session.Run

/-!
# Interactive sessions

A session that a host goes on steering: it runs, waits for a request, and runs
again, until nobody is left to send one.

* `Host` — what the host does, and when.
* `Session.converse` — the whole conversation.
* `Action`, `Session.perform` — a session operated from outside, one action at a time.
-/

namespace ToyCpu

/-- What a host does while the session waits. -/
structure Turn where
  /-- What it tells its user first. -/
  said : List String := []
  controls : List Control := []

/-- What a host does: the controllers' operations during each sleep, between each run and the
wait after it, and while the session waits. When the last list is used up every controller
is given up. -/
structure Host where
  sleeps : List (List Control) := []
  gaps : List (List Control) := []
  turns : List Turn := []

namespace Session

/-! ### Runs leave no request behind -/

theorem atBoundary_queue {s : Session} (hqueue : s.link.queue = []) :
    (∀ s' j, s.atBoundary = .ran s' j → s'.link.queue = []) ∧
      (∀ o s' j, s.atBoundary = .over o s' j → s'.link.queue = []) := by
  refine ⟨fun s' j h => by rw [(atBoundary_ran h).1, hqueue], fun o s' j h => ?_⟩
  have hadvance : ∀ {o s' j}, s.advance = .over o s' j → s'.link.queue = [] := by
    intro o s' j h
    unfold advance at h
    split at h
    · cases h
    · next s₂ j₂ hstep =>
      cases h
      have hlink := s.step_link
      rw [hstep] at hlink
      show s₂.link.queue = []
      rw [hlink, hqueue]
  unfold atBoundary at h
  split at h
  · exact hadvance h
  · split at h
    · exact hadvance h
    · cases h; exact hqueue
  · cases h; exact hqueue
  · cases h; exact hqueue

/-- A run ends with an empty queue, whatever the host does meanwhile. -/
theorem runFrom_queue (s : Session) (sleeps : List (List Control)) :
    (s.runFrom sleeps).session.link.queue = [] := by
  fun_induction runFrom s sleeps with
  | case1 s sleeps outcome s' j h => exact (atBoundary_queue (applyPending_queue s)).2 _ _ _ h
  | case2 s s' j h ih => exact ih
  | case3 s s' j turn later h ih => exact ih

theorem run_queue (s : Session) (sleeps : List (List Control)) :
    (s.run sleeps).session.link.queue = [] :=
  runFrom_queue _ _

/-! ### The conversation -/

/-- What a host says, as it is recorded. -/
def saying (lines : List String) : Journal := lines.map .said

mutual

/-- Runs, lets the host act, and waits for a request; then once more. -/
def interact (s : Session) (sleeps gaps : List (List Control)) (turns : List Turn) :
    Session × Journal :=
  let result := s.run sleeps
  match gaps with
  | [] =>
    let (last, j) := result.session.await result.sleeps [] turns
    (last, result.journal ++ j)
  | gap :: laterGaps =>
    let (s₁, j₁) := result.session.operateAll gap
    match s₁.link.queue with
    | [] =>
      let (last, j) := s₁.await result.sleeps laterGaps turns
      (last, result.journal ++ j₁ ++ j)
    | _ :: _ =>
      let (_, s₂, j₂) := s₁.wait
      let (last, j) := s₂.interact result.sleeps laterGaps turns
      (last, result.journal ++ j₁ ++ j₂ ++ j)
termination_by (gaps.length + turns.length, 1)

/-- Waits with an empty queue while the host takes its turns, until a request arrives or
nobody is left to send one. -/
def await (s : Session) (sleeps gaps : List (List Control)) (turns : List Turn) :
    Session × Journal :=
  let (waited, _, j₀) := s.wait
  match waited, turns with
  | .deserted, _ => (s, j₀)
  | _, [] => (s, j₀)
  | _, turn :: later =>
    let (s₁, j₁) := s.operateAll turn.controls
    match s₁.link.queue with
    | [] =>
      let (last, j) := s₁.await sleeps gaps later
      (last, j₀ ++ saying turn.said ++ j₁ ++ j)
    | _ :: _ =>
      let (_, s₂, j₂) := s₁.wait
      let (last, j) := s₂.interact sleeps gaps later
      (last, j₀ ++ saying turn.said ++ j₁ ++ j₂ ++ j)
termination_by (gaps.length + turns.length, 0)

end

/-- Runs, waits for a request and runs again, with a host that acts meanwhile, until nobody
is left to send one. -/
def converse (s : Session) (host : Host) : Session × Journal :=
  s.interact host.sleeps host.gaps host.turns

end Session

/-! ### Single actions -/

/-- An action on a session from outside. -/
inductive Action where
  | operate (c : Control)
  | step
  | applyPending
  | wait
  | run (sleeps : List (List Control))

/-- What an action answers. -/
inductive Answer where
  | reply (r : Reply)
  | tick (t : Tick)
  | done
  | waited (w : Waited)
  | ended (o : Outcome)
  deriving DecidableEq, Repr

namespace Session

/-- Carries out an action. -/
def perform (s : Session) : Action → Answer × Session × Journal
  | .operate c =>
    let (reply, s', j) := s.operate c
    (.reply reply, s', j)
  | .step =>
    let (tick, s', j) := s.step
    (.tick tick, s', j)
  | .applyPending =>
    let (s', j) := s.applyPending
    (.done, s', j)
  | .wait =>
    let (waited, s', j) := s.wait
    (.waited waited, s', j)
  | .run sleeps =>
    let result := s.run sleeps
    (.ended result.outcome, result.session, result.journal)

/-- Carries out actions in order. -/
def performAll (s : Session) : List Action → Session × Journal
  | [] => (s, [])
  | a :: rest =>
    let (_, s₁, j₁) := s.perform a
    let (s₂, j₂) := s₁.performAll rest
    (s₂, j₁ ++ j₂)

end Session

end ToyCpu
