import ToyCpu.Proofs.TraceShape

/-!
# Runs heed the run state

The run state belongs to the controllers. They may change it during any sleep of a run, and the
run looks at it before every phase. So a cycle begins only while the state is running, a pause
lets the cycle in flight end, and the reason for which a run ends tells what state it is left
in.

* `Journal.runState` — the run state at a moment, as the journal so far tells it.
* `Journal.Heeds` — every entry of a journal may be made in the run state of its moment.
* `Session.Heedful` — moves that heed the run state, and tell of its changes.
* `Session.run_heedful` — a run is made of such moves.
* `Outcome.Fits`, `RunResult.Justified` — what each reason for the end of a run comes with.
* `Session.runFrom_paused` — what is left of a run that has been paused.
* `Session.Wakes` — the moments of a run at which it wakes up from a sleep.
* `run_heeds_state` — all of this, of every run.
-/

namespace ToyCpu

open Session

/-! ### The run state at a moment -/

namespace RunState

/-- The run state after an operation of a controller that there is. -/
def after (state : RunState) : Control → RunState
  | .play => .running
  | .pause => if state = .running then .paused else state
  | .toggle => if state = .running then .paused else .running
  | .stop => .stopped
  | .state | .send _ | .share | .release => state

/-- The run state after what an entry tells of. Only controllers change it, and the end of the
program. -/
def afterEntry (state : RunState) : Entry → RunState
  | .operated _ .absent _ => state
  | .operated c _ _ => state.after c
  | .ended .finished => .stopped
  | _ => state

/-- Whether a phase may run in a run state. -/
def Allows : RunState → Phase → Prop
  | .running, _ => True
  | .paused, p => p ≠ .fetch
  | .idle, _ | .stopped, _ => False

end RunState

/-- Whether an entry may be made in a run state: only a phase that is allowed, and no wait while
the program is to run. -/
def Entry.IsDue (state : RunState) : Entry → Prop
  | .event (.phase _ p _ _ _) => state.Allows p
  | .blocked noted => noted = state ∧ state ≠ .running
  | _ => True

/-- Entries that may be made in any run state, and do not change it. -/
def Entry.IsSteady (e : Entry) : Prop := ∀ state, e.IsDue state ∧ RunState.afterEntry state e = state

namespace Journal

/-- The run state after a journal. -/
def runState (state : RunState) (j : Journal) : RunState := j.foldl RunState.afterEntry state

/-- Every entry may be made in the run state of its moment. -/
def Heeds (state : RunState) : Journal → Prop
  | [] => True
  | e :: rest => e.IsDue state ∧ Heeds (state.afterEntry e) rest

variable {state : RunState} {j j' : Journal}

theorem runState_append (state : RunState) (j j' : Journal) :
    (j ++ j').runState state = j'.runState (j.runState state) :=
  List.foldl_append

/-- What comes later is judged by the state that the earlier entries lead to. -/
theorem Heeds.append (h : j.Heeds state) (h' : j'.Heeds (j.runState state)) :
    (j ++ j').Heeds state := by
  induction j generalizing state with
  | nil => exact h'
  | cons e rest ih => exact ⟨h.1, ih h.2 h'⟩

/-- An entry of a journal that heeds the run state. -/
theorem Heeds.isDue {before after : Journal} {e : Entry} (h : j.Heeds state)
    (hj : j = before ++ e :: after) : e.IsDue (before.runState state) := by
  subst hj
  -- the entries before it lead from the state at the start to that of its moment
  induction before generalizing state with
  | nil => exact h.1
  | cons e' rest ih => exact ih h.2

/-- Steady entries. -/
theorem heeds_of_isSteady (state : RunState) (h : ∀ e ∈ j, e.IsSteady) :
    j.Heeds state ∧ j.runState state = state := by
  induction j with
  | nil => exact ⟨trivial, rfl⟩
  | cons e rest ih =>
    obtain ⟨hdue, hafter⟩ := h e List.mem_cons_self state
    obtain ⟨hrest, hstate⟩ := ih fun e he => h e (List.mem_cons_of_mem _ he)
    refine ⟨⟨hdue, ?_⟩, ?_⟩
    · rw [hafter]
      exact hrest
    · show Journal.runState (state.afterEntry e) rest = state
      rw [hafter]
      exact hstate

end Journal

/-- An operation changes the run state as its entry tells. -/
theorem Link.perform_state (l : Link) (c : Control) (sent : Option Request) :
    (l.perform c).link.state = l.state.afterEntry (.operated c (l.perform c).reply sent) := by
  -- a request that is sent along does not count: posting it leaves the state
  have hpost : ∀ (l : Link) (r : Request), (l.post r).1.state = l.state := by
    intro l r
    rw [post_eq]
  unfold perform
  split
  · cases c <;> rfl
  · cases c with
    | play =>
      by_cases hrunning : l.state = .running
      · rw [operate, if_pos hrunning]
        exact hrunning
      · rw [operate, if_neg hrunning]
        exact hpost _ _
    | pause =>
      by_cases hrunning : l.state = .running
      · rw [operate, if_pos hrunning]
        exact (if_pos hrunning).symm
      · rw [operate, if_neg hrunning]
        exact (if_neg hrunning).symm
    | toggle =>
      by_cases hrunning : l.state = .running
      · rw [operate, if_pos hrunning]
        exact (if_pos hrunning).symm
      · rw [operate, if_neg hrunning]
        exact (hpost _ _).trans (if_neg hrunning).symm
    | stop => exact hpost _ _
    | send r => exact hpost _ _
    | state | share | release => rfl

/-! ### Moves that heed the run state -/

/-- Moves from one session to another that heed the run state, and tell of its changes. -/
structure Session.Heedful (s : Session) (j : Journal) (s' : Session) : Prop where
  reaches : s.Reaches j s'
  heeds : j.Heeds s.link.state
  state : s'.link.state = j.runState s.link.state

namespace Session

variable {s s' s'' : Session} {j j' : Journal}

theorem Heedful.refl (s : Session) : s.Heedful [] s := ⟨.refl, trivial, rfl⟩

/-- Moves that heed the run state may follow one another. -/
theorem Heedful.trans (h : s.Heedful j s') (h' : s'.Heedful j' s'') : s.Heedful (j ++ j') s'' where
  reaches := h.reaches.trans h'.reaches
  heeds := h.heeds.append (h.state ▸ h'.heeds)
  state := by rw [h'.state, h.state, Journal.runState_append]

/-- Moves that are told of in steady entries, and leave the run state. -/
theorem heedful_of_isSteady (h : s.Reaches j s') (hj : ∀ e ∈ j, e.IsSteady)
    (hstate : s'.link.state = s.link.state) : s.Heedful j s' where
  reaches := h
  heeds := (Journal.heeds_of_isSteady _ hj).1
  state := hstate.trans (Journal.heeds_of_isSteady _ hj).2.symm

/-! ### Requests and operations -/

theorem isSteady_handled (r : Request) : (Entry.handled r).IsSteady :=
  fun _ => ⟨trivial, rfl⟩

theorem isSteady_notice (message : String) : (notice message).IsSteady :=
  fun _ => ⟨trivial, rfl⟩

theorem handle_isSteady (s : Session) (r : Request) : ∀ e ∈ (s.handle r).2, e.IsSteady := by
  intro e he
  rcases s.handle_entries r e he with rfl | ⟨message, rfl⟩
  · exact isSteady_handled r
  · exact isSteady_notice message

theorem handleAll_isSteady (s : Session) (rs : List Request) :
    ∀ e ∈ (s.handleAll rs).2, e.IsSteady := by
  intro e he
  rcases s.handleAll_entries rs e he with ⟨r, rfl⟩ | ⟨message, rfl⟩
  · exact isSteady_handled r
  · exact isSteady_notice message

/-- Taking the requests leaves the run state. -/
theorem applyPending_state (s : Session) : s.applyPending.1.link.state = s.link.state := by
  rw [applyPending, handleAll_link]
  rfl

theorem applyPending_heedful (s : Session) : s.Heedful s.applyPending.2 s.applyPending.1 :=
  heedful_of_isSteady s.applyPending_reaches (handleAll_isSteady _ _) s.applyPending_state

/-- An operation is always due, and tells of the state that it sets. -/
theorem operate_heedful (s : Session) (c : Control) :
    s.Heedful (s.operate c).2.2 (s.operate c).2.1 where
  reaches := s.operate_reaches c
  heeds := ⟨trivial, trivial⟩
  state := s.link.perform_state c _

theorem operateAll_heedful (s : Session) (cs : List Control) :
    s.Heedful (s.operateAll cs).2 (s.operateAll cs).1 := by
  induction cs generalizing s with
  | nil => exact .refl s
  | cons c rest ih => exact (s.operate_heedful c).trans (ih _)

/-! ### Phases -/

/-- What a phase records besides itself. -/
theorem phaseResult_isSteady (m : Machine) (c : Cycle) :
    ∀ e ∈ (phaseResult m c).journal, e.IsSteady := by
  intro e he
  rcases phaseResult_journal m c e he with ⟨inst, rfl⟩ | ⟨a, f, text, rfl⟩
  · exact fun _ => ⟨trivial, rfl⟩
  · exact fun _ => ⟨trivial, rfl⟩

/-- A phase that is allowed. -/
theorem runPhase_heeds {c : Cycle} {state : RunState} (h : state.Allows c.next) :
    (s.runPhase c).2.2.Heeds state ∧ (s.runPhase c).2.2.runState state = state := by
  obtain ⟨hheeds, hstate⟩ := Journal.heeds_of_isSteady state (phaseResult_isSteady s.machine c)
  refine ⟨hheeds.append ⟨?_, trivial⟩, ?_⟩
  · rw [hstate]
    exact h
  · show Journal.runState state ((phaseResult s.machine c).journal ++ [.event _]) = state
    rw [Journal.runState_append, hstate]
    rfl

/-- The phase that a step runs is that of the cycle in flight, or the first of a new cycle. -/
theorem step_heeds {state : RunState} (hs : Coherent s)
    (h : state = .running ∨ state = .paused ∧ s.cycle.isSome = true) :
    s.step.2.2.Heeds state ∧ s.step.2.2.runState state = state := by
  rcases s.step_cases with ⟨c, hcycle, hstep⟩ | ⟨c, machine, hcycle, hb, hstep⟩ | ⟨-, -, hstep⟩
  · rw [hstep]
    refine runPhase_heeds ?_
    rcases h with rfl | ⟨rfl, -⟩
    · trivial
    · exact (hs.fits c hcycle).begun
  · rw [hstep]
    refine runPhase_heeds ?_
    rcases h with rfl | ⟨rfl, hsome⟩
    · trivial
    · rw [hcycle] at hsome
      cases hsome
  · rw [hstep]
    exact ⟨trivial, rfl⟩

/-! ### Runs -/

/-- What happens at a boundary heeds the run state, and the end of the run is told of last. -/
def Boundary.Heeded (s : Session) : Boundary → Prop
  | .ran s' j => s.Heedful j s'
  | .over outcome s' j => s.Heedful (j ++ [.ended outcome]) s'

/-- A step that the run state allows. -/
theorem advance_heeded (hs : Coherent s)
    (h : s.link.state = .running ∨ s.link.state = .paused ∧ s.cycle.isSome = true) :
    s.advance.Heeded s := by
  obtain ⟨hheeds, hstate⟩ := step_heeds hs h
  obtain ⟨hran, hover⟩ := s.advance_reaches
  -- no step touches the link, so the state that allowed it is also the state after it
  have hlink := s.step_link
  rcases hstep : s.step with ⟨tick, s', j⟩
  rw [hstep] at hheeds hstate hlink
  cases tick with
  | phase p duration =>
    have hadvance : s.advance = .ran s' (j ++ [.slept duration]) := by rw [advance, hstep]
    rw [hadvance]
    refine { reaches := hran _ _ hadvance, heeds := hheeds.append ⟨trivial, trivial⟩, state := ?_ }
    rw [Journal.runState_append, hstate]
    exact congrArg Link.state hlink
  | finished =>
    have hadvance : s.advance = .over .finished (s'.withState .stopped)
        (j ++ [notice "No more instructions to execute."]) := by
      rw [advance, hstep]
      rfl
    rw [hadvance]
    refine { reaches := hover _ _ _ hadvance, heeds := ?_, state := ?_ }
    · rw [List.append_assoc]
      exact hheeds.append ⟨trivial, trivial, trivial⟩
    · rw [Journal.runState_append]
      rfl

/-- At a boundary a run does what the run state allows, and ends if it allows nothing. -/
theorem atBoundary_heeded (hs : Coherent s) : s.atBoundary.Heeded s := by
  have hover := s.atBoundary_reaches.2
  unfold atBoundary at hover ⊢
  split
  · next hrunning => exact advance_heeded hs (.inl hrunning)
  · next hpaused =>
    -- only a cycle that is in flight may go on
    split
    · next hsome => exact advance_heeded hs (.inr ⟨hpaused, hsome⟩)
    · next hsome =>
      rw [hpaused, if_neg hsome] at hover
      exact { reaches := hover _ _ _ rfl, heeds := ⟨trivial, trivial, trivial⟩, state := rfl }
  · next hstopped =>
    rw [hstopped] at hover
    exact { reaches := hover _ _ _ rfl, heeds := ⟨trivial, trivial⟩, state := rfl }
  · next hidle =>
    rw [hidle] at hover
    exact { reaches := hover _ _ _ rfl, heeds := ⟨trivial, trivial⟩, state := rfl }

theorem boundary_heeded (hs : Coherent s) {b : Boundary} (h : s.applyPending.1.atBoundary = b) :
    b.Heeded s.applyPending.1 :=
  h ▸ atBoundary_heeded (coherent_of_reaches hs s.applyPending_reaches)

/-- A phase of a run, and the turn of the host in the sleep after it. -/
theorem turn_heedful (hs : Coherent s) (h : s.applyPending.1.atBoundary = .ran s' j)
    (turn : List Control) :
    s.Heedful (s.applyPending.2 ++ j ++ (s'.operateAll turn).2) (s'.operateAll turn).1 :=
  (s.applyPending_heedful.trans (boundary_heeded hs h)).trans (s'.operateAll_heedful turn)

/-- The rest of a run heeds the run state. -/
theorem runFrom_heedful (s : Session) (sleeps : List (List Control)) (hs : Coherent s) :
    s.Heedful (s.runFrom sleeps).journal (s.runFrom sleeps).session := by
  fun_induction runFrom s sleeps with
  | case1 s sleeps outcome s' j h =>
    rw [List.append_assoc]
    exact s.applyPending_heedful.trans (boundary_heeded hs h)
  | case2 s s' j h ih =>
    have hphase : s.Heedful (s.applyPending.2 ++ j) s' :=
      s.applyPending_heedful.trans (boundary_heeded hs h)
    exact hphase.trans (ih (coherent_of_reaches hs hphase.reaches))
  | case3 s s' j h turn later ih =>
    have hturn := turn_heedful hs h turn
    exact hturn.trans (ih (coherent_of_reaches hs hturn.reaches))

theorem startNotice_heedful (s : Session) : s.Heedful s.startNotice s := by
  refine heedful_of_isSteady (startNotice_reaches s) (fun e he => ?_) rfl
  unfold startNotice at he
  split at he
  · obtain rfl := List.mem_singleton.mp he
    exact isSteady_notice _
  · cases he

/-- A run heeds the run state, whatever the host does meanwhile. -/
theorem run_heedful (hs : Coherent s) (sleeps : List (List Control)) :
    s.Heedful (s.run sleeps).journal (s.run sleeps).session :=
  (s.applyPending_heedful.trans (startNotice_heedful _)).trans
    (runFrom_heedful _ sleeps (coherent_of_reaches hs s.applyPending_reaches))

end Session

/-! ### Why a run ends -/

/-- What each reason for the end of a run says of the session that the run leaves. -/
def Outcome.Fits : Outcome → Session → Prop
  | .paused, s => s.link.state = .paused ∧ s.cycle = none
  | .finished, s => s.link.state = .stopped ∧ s.cycle = none ∧ s.begin? = none
  | .stopped, s => s.link.state = .stopped ∧ s.cycle = none
  | .idle, s => s.link.state = .idle

/-- What a run that ends for this reason reports last. -/
def Outcome.message? : Outcome → Option String
  | .paused => some "Execution paused."
  | .finished => some "No more instructions to execute."
  | .stopped | .idle => none

/-- No run ends with the session still running. -/
theorem Outcome.Fits.not_running {outcome : Outcome} {s : Session} (h : outcome.Fits s) :
    s.link.state ≠ .running := by
  intro hrunning
  cases outcome with
  | paused | finished | stopped => exact absurd (hrunning.symm.trans h.1) (by decide)
  | idle => exact absurd (hrunning.symm.trans h) (by decide)

/-- A run that ends for a reason that fits what it leaves, and reports it last. -/
structure RunResult.Justified (r : RunResult) : Prop where
  session : r.outcome.Fits r.session
  reported : ∀ message, r.outcome.message? = some message →
    ∃ before, r.journal = before ++ [notice message, .ended r.outcome]

theorem RunResult.Justified.after {r : RunResult} (h : r.Justified) (j : Journal) :
    (r.after j).Justified where
  session := h.session
  reported message hmessage := by
    obtain ⟨before, hjournal⟩ := h.reported message hmessage
    refine ⟨j ++ before, ?_⟩
    show j ++ r.journal = _
    rw [hjournal, List.append_assoc]
    rfl

namespace Session

variable {s s' t : Session} {j j' : Journal}

/-- A run ends at a boundary only for a reason that fits. -/
theorem atBoundary_over {outcome : Outcome} (h : s.atBoundary = .over outcome s' j) :
    outcome.Fits s' ∧ ∀ message, outcome.message? = some message → j = [notice message] := by
  -- a run that goes on ends only where the program does, and that may happen in two states
  have hadvance : s.advance = .over outcome s' j →
      outcome.Fits s' ∧ ∀ message, outcome.message? = some message → j = [notice message] := by
    intro hadvance
    unfold advance at hadvance
    split at hadvance
    · cases hadvance
    · next s₂ j₂ hstep =>
      -- the step has changed nothing, so there still is no cycle to begin
      obtain ⟨hcycle, hbegin, hfin⟩ := step_eq_finished (congrArg Prod.fst hstep)
      rw [hfin] at hstep
      cases hstep
      cases hadvance
      exact ⟨⟨rfl, hcycle, hbegin⟩, fun message hmessage => by cases hmessage; rfl⟩
  unfold atBoundary at h
  split at h
  · exact hadvance h
  · next hpaused =>
    split at h
    · exact hadvance h
    · next hsome =>
      cases h
      exact ⟨⟨hpaused, Option.not_isSome_iff_eq_none.mp hsome⟩,
        fun message hmessage => by cases hmessage; rfl⟩
  · next hstopped =>
    cases h
    exact ⟨⟨hstopped, rfl⟩, nofun⟩
  · next hidle =>
    cases h
    exact ⟨hidle, nofun⟩

/-- The rest of a run ends for a reason that fits, whatever the host does before. -/
theorem runFrom_justified (s : Session) (sleeps : List (List Control)) :
    (s.runFrom sleeps).Justified := by
  fun_induction runFrom s sleeps with
  | case1 s sleeps outcome s' j h =>
    obtain ⟨hfits, hmessage⟩ := atBoundary_over h
    refine { session := hfits, reported := fun message hm => ⟨s.applyPending.2, ?_⟩ }
    rw [hmessage message hm, List.append_assoc]
    rfl
  | case2 s s' j h ih => exact ih.after _
  | case3 s s' j h turn later ih => exact ih.after _

theorem run_justified (s : Session) (sleeps : List (List Control)) : (s.run sleeps).Justified :=
  (runFrom_justified _ sleeps).after _

/-! ### What is left of a paused run -/

/-- What is left of the cycle in flight: number, phase and address of each phase to come. -/
def unfinished (s : Session) : List (UInt64 × Phase × Address) :=
  match s.cycle with
  | none => []
  | some c => (Phase.all.drop (phasesBefore c.next)).map (c.number, ·, c.address)

/-- Steady entries tell of no phase, which would not be due in every state. -/
theorem stamps_of_isSteady (h : ∀ e ∈ j, e.IsSteady) : j.stamps = [] := by
  refine List.filterMap_eq_nil_iff.mpr fun e he => ?_
  have hidle := (h e he .idle).1
  cases e with
  | event e =>
    cases e with
    | phase => exact hidle.elim
    | notice => rfl
  | _ => rfl

theorem runPhase_stamps (s : Session) (c : Cycle) :
    (s.runPhase c).2.2.stamps = [(c.number, c.next, c.address)] := by
  show Journal.stamps ((phaseResult s.machine c).journal ++ [.event _]) = _
  rw [Journal.stamps_append, stamps_of_isSteady (phaseResult_isSteady s.machine c)]
  rfl

/-- A phase is the first of what is left of its cycle. -/
theorem unfinished_runPhase {c : Cycle} (h : s.cycle = some c) :
    s.unfinished = (s.runPhase c).2.2.stamps ++ (s.runPhase c).2.1.unfinished := by
  rw [runPhase_stamps]
  simp only [unfinished, h, runPhase]
  cases c.next <;> rfl

/-- A session that is found paused runs the next phase of its cycle, or has none in flight. -/
theorem atBoundary_paused (h : s.link.state = .paused) :
    (s.unfinished = [] ∧ s.atBoundary = .over .paused s [notice "Execution paused."]) ∨
      ∃ s' j, s.atBoundary = .ran s' j ∧ s.unfinished = j.stamps ++ s'.unfinished := by
  rw [atBoundary, h]
  cases hcycle : s.cycle with
  | none => exact .inl ⟨by rw [unfinished, hcycle], rfl⟩
  | some c =>
    refine .inr ⟨(s.runPhase c).2.1, (s.runPhase c).2.2 ++ [.slept (s.timings.of c.next)], ?_, ?_⟩
    · show s.advance = _
      rw [advance, step_inFlight hcycle]
      rfl
    · rw [unfinished_runPhase hcycle, Journal.stamps_append]
      exact congrArg (· ++ _) (List.append_nil _).symm

/-- Only a stop drops the cycle in flight. -/
theorem handleAll_cycle {rs : List Request} (h : .stop ∉ rs) (s : Session) :
    (s.handleAll rs).1.cycle = s.cycle := by
  induction rs generalizing s with
  | nil => rfl
  | cons r rest ih =>
    have hr : r ≠ .stop := fun heq => h (heq ▸ List.mem_cons_self)
    have hrest : .stop ∉ rest := fun hmem => h (List.mem_cons_of_mem r hmem)
    refine (ih hrest (s.handle r).1).trans ?_
    cases r with
    | wake | edit => rfl
    | stop => exact absurd rfl hr

theorem applyPending_stamps (s : Session) : s.applyPending.2.stamps = [] :=
  stamps_of_isSteady (handleAll_isSteady _ _)

/-- Requests other than to stop leave the cycle in flight. -/
theorem applyPending_unfinished (h : .stop ∉ s.link.queue) :
    s.applyPending.1.unfinished = s.unfinished := by
  have hcycle : s.applyPending.1.cycle = s.cycle := handleAll_cycle h s.clearQueue
  rw [unfinished, unfinished, hcycle]

/-- A run that is paused, and not asked to stop, runs the next phase of the cycle in flight, or
is over. -/
theorem boundary_paused (hpaused : s.link.state = .paused) (hstop : .stop ∉ s.link.queue) :
    (s.unfinished = [] ∧
      s.applyPending.1.atBoundary = .over .paused s.applyPending.1 [notice "Execution paused."]) ∨
      ∃ s' j, s.applyPending.1.atBoundary = .ran s' j ∧ s'.link.state = .paused ∧
        .stop ∉ s'.link.queue ∧ s.unfinished = (s.applyPending.2 ++ j).stamps ++ s'.unfinished := by
  rw [← applyPending_unfinished hstop]
  rcases atBoundary_paused (s.applyPending_state.trans hpaused) with hover | ⟨s', j, hran, hstamps⟩
  · exact .inl hover
  · refine .inr ⟨s', j, hran, ?_, ?_, ?_⟩
    · rw [(atBoundary_ran hran).1, applyPending_state, hpaused]
    · rw [(atBoundary_ran hran).1, applyPending_queue]
      exact List.not_mem_nil
    · rw [hstamps, Journal.stamps_append, applyPending_stamps]
      rfl

/-- A run that is paused, and not asked to stop, runs what is left of the cycle in flight and no
more. -/
theorem runFrom_paused (s : Session) (quiet : List (List Control)) (hpaused : s.link.state = .paused)
    (hstop : .stop ∉ s.link.queue) (hquiet : ∀ turn ∈ quiet, turn = []) :
    (s.runFrom quiet).outcome = .paused ∧ (s.runFrom quiet).journal.stamps = s.unfinished := by
  -- every round runs one of the phases that are left, or ends since there is none; being paused,
  -- and not asked to stop, carries over to the next round
  fun_induction runFrom s quiet with
  | case1 s sleeps outcome s' j h =>
    -- what is known of a paused boundary is about the one that this round has come to
    rcases boundary_paused hpaused hstop with ⟨hnone, hover⟩ | ⟨s₂, j₂, hran, -⟩
    · cases hover.symm.trans h
      refine ⟨rfl, ?_⟩
      rw [hnone, Journal.stamps_append, Journal.stamps_append, applyPending_stamps]
      rfl
    · cases hran.symm.trans h
  | case2 s s' j h ih =>
    rcases boundary_paused hpaused hstop with ⟨-, hover⟩ | ⟨s₂, j₂, hran, hpaused', hstop', hstamps⟩
    · cases hover.symm.trans h
    · cases hran.symm.trans h
      obtain ⟨houtcome, hrest⟩ :=
        ih hpaused' hstop' fun turn hturn => absurd hturn List.not_mem_nil
      refine ⟨houtcome, ?_⟩
      rw [hstamps, ← hrest]
      exact Journal.stamps_append _ _
  | case3 s s' j h turn later ih =>
    obtain rfl := hquiet turn List.mem_cons_self
    rcases boundary_paused hpaused hstop with ⟨-, hover⟩ | ⟨s₂, j₂, hran, hpaused', hstop', hstamps⟩
    · cases hover.symm.trans h
    · cases hran.symm.trans h
      obtain ⟨houtcome, hrest⟩ :=
        ih hpaused' hstop' fun turn hturn => hquiet turn (List.mem_cons_of_mem _ hturn)
      refine ⟨houtcome, ?_⟩
      show Journal.stamps (s.applyPending.2 ++ j ++ [] ++ _) = _
      rw [hstamps, List.append_nil, Journal.stamps_append, hrest]
      rfl

/-! ### The moments of a run -/

/-- What a run from a boundary on comes to with the host's first turns: its journal so far, and
the session as it wakes up after the last of them. -/
inductive Wakes : Session → List (List Control) → Journal → Session → Prop
  | begun (s : Session) : Wakes s [] [] s
  | slept {s s' t : Session} {j j' : Journal} {turn : List Control} {turns : List (List Control)}
      (h : s.applyPending.1.atBoundary = .ran s' j) (rest : Wakes (s'.operateAll turn).1 turns j' t) :
      Wakes s (turn :: turns) (s.applyPending.2 ++ j ++ (s'.operateAll turn).2 ++ j') t

variable {turns : List (List Control)}

/-- Up to any of its moments a run heeds the run state. -/
theorem Wakes.heedful (h : s.Wakes turns j t) (hs : Coherent s) : s.Heedful j t := by
  induction h with
  | begun s => exact .refl s
  | @slept _ _ _ _ _ turn _ h rest ih =>
    have hturn := turn_heedful hs h turn
    exact hturn.trans (ih (coherent_of_reaches hs hturn.reaches))

/-- The run goes on from there. -/
theorem Wakes.runFrom_eq (h : s.Wakes turns j t) (later : List (List Control)) :
    s.runFrom (turns ++ later) = (t.runFrom later).after j := by
  induction h with
  | begun s => rfl
  | slept h rest ih =>
    rw [List.cons_append, runFrom_ran h, ih, RunResult.after_after]

/-- A run that gets as far as a turn of the host wakes up after it. -/
theorem wakes_of_runFrom {later : List (List Control)}
    (h : (s.runFrom (turns ++ later)).sleeps.length ≤ later.length) : ∃ j t, s.Wakes turns j t := by
  induction turns generalizing s with
  | nil => exact ⟨[], s, .begun s⟩
  | cons turn rest ih =>
    -- a run that is over before the turn would leave it with the later ones
    rcases hboundary : s.applyPending.1.atBoundary with ⟨outcome, s', j⟩ | ⟨s', j⟩
    · rw [runFrom_over hboundary] at h
      have hlength : (turn :: rest ++ later).length ≤ later.length := h
      rw [List.length_append, List.length_cons] at hlength
      omega
    · rw [List.cons_append, runFrom_ran hboundary] at h
      obtain ⟨j', t, ht⟩ := ih h
      exact ⟨_, t, .slept hboundary ht⟩

end Session

/-- Every run of every session heeds the run state, which only controllers change, and the end of
the program. It fetches nothing but while the state is running, and no phase runs while it is
idle or stopped. The run ends for a reason that fits the state, the cycle in flight and the
program counter that it leaves, and is reported last; the state is not running then. And from
any moment at which the run wakes up paused, with no stop to carry out and no more of the host,
it runs what is left of the cycle in flight, and ends paused. -/
theorem run_heeds_state (m : Machine) (timings : Timings) (actions : List Action)
    (sleeps : List (List Control)) :
    let s := ((Session.new m timings).performAll actions).1
    let r := s.run sleeps
    (∀ (before after : Journal) (number : UInt64) (p : Phase) (a : Address) (content : String)
        (duration : Milliseconds),
      r.journal = before ++ .event (.phase number p a content duration) :: after →
        (before.runState s.link.state).Allows p) ∧
      r.session.link.state = r.journal.runState s.link.state ∧
      r.session.link.state ≠ .running ∧ r.Justified ∧
      r.session.machine = s.machine.replay r.journal ∧
      (∀ turns later : List (List Control),
        (s.run (turns ++ later)).sleeps.length ≤ later.length →
          ∃ j t, s.applyPending.1.Wakes turns j t) ∧
      ∀ (turns : List (List Control)) (j : Journal) (t : Session),
        s.applyPending.1.Wakes turns j t →
          t.link.state = j.runState s.link.state ∧
          (t.link.state = .paused → .stop ∉ t.link.queue →
            ∀ quiet : List (List Control), (∀ turn ∈ quiet, turn = []) →
              (s.run (turns ++ quiet)).outcome = .paused ∧
              ∃ rest : Journal, (s.run (turns ++ quiet)).journal =
                  s.applyPending.2 ++ s.applyPending.1.startNotice ++ j ++ rest ∧
                rest.stamps = t.unfinished) := by
  intro s r
  have hs : Coherent s := coherent_of_reaches (coherent_new m timings) (performAll_reaches _ actions)
  have hr : s.Heedful r.journal r.session := run_heedful hs sleeps
  have hjustified : r.Justified := run_justified s sleeps
  refine ⟨fun before after number p a content duration hjournal => ?_, hr.state,
    hjustified.session.not_running, hjustified, machine_eq_replay hs hr.reaches,
    fun turns later h => wakes_of_runFrom h, ?_⟩
  · exact hr.heeds.isDue hjournal
  · intro turns j t ht
    have hpending := s.applyPending_heedful
    have hwakes := ht.heedful (coherent_of_reaches hs hpending.reaches)
    refine ⟨?_, fun hpaused hstop quiet hquiet => ?_⟩
    · rw [hwakes.state, applyPending_state]
    · obtain ⟨houtcome, hstamps⟩ := runFrom_paused t quiet hpaused hstop hquiet
      -- from that moment on it is a run of its own, of which the journal so far is no part
      have hrun : s.run (turns ++ quiet) = ((t.runFrom quiet).after j).after
          (s.applyPending.2 ++ s.applyPending.1.startNotice) := by
        rw [run, ht.runFrom_eq]
      rw [hrun]
      exact ⟨houtcome, _, (List.append_assoc _ _ _).symm, hstamps⟩

/-- A session that plays the seed program. -/
def seedPlayed : Session :=
  ((Session.new (Machine.new (Memory.seeded .unified)) Architecture.unified.defaultTimings).performAll
    [.operate .play]).1

/-- Paused in the sleep after its first fetch, it has three phases of that cycle left to run. -/
theorem seedPlayed_heeds_pause :
    ∃ j t, seedPlayed.applyPending.1.Wakes [[.pause]] j t ∧ t.link.state = .paused ∧
      t.unfinished = [(1, .decode, 1), (1, .execute, 1), (1, .writeback, 1)] ∧
      (seedPlayed.run [[.pause]]).outcome = .paused := by
  have hwakes : seedPlayed.applyPending.1.Wakes [[.pause]] _ _ := .slept rfl (.begun _)
  refine ⟨_, _, hwakes, rfl, rfl, ?_⟩
  obtain ⟨-, -, -, -, -, -, hmoments⟩ := run_heeds_state (Machine.new (Memory.seeded .unified))
    Architecture.unified.defaultTimings [.operate .play] []
  exact ((hmoments _ _ _ hwakes).2 rfl nofun [] nofun).1

end ToyCpu
