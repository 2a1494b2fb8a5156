import ToyCpu.Proofs.Replay

/-!
# Runs make progress and come to an end

The host may act during any sleep, and see all that has happened before it does. As long as it
acts only finitely often a run returns: between two of its operations requests only leave the
queue, and with an empty queue each phase leaves fewer to come, whatever the program stores
into its own cells. What carries this is that a completed cycle is followed by one at a higher
address, until a stop.

* `Clock`, `Session.runUnder` — a run for so many phases under a clock that operates
  controllers.
* `Session.ActsFinitely` — a clock with finitely many operations, such as one with none.
* `Session.runWithin_returns` — with finitely many operations so many phases are enough.
* `Completed` — what a writeback leaves behind until the next fetch or stop.
* `Advances` — a cycle that follows a completed one is at the next instruction above it.
* `run_returns_and_advances` — both, of every session.
-/

namespace ToyCpu

open Session

/-! ### Runs under a clock -/

/-- The operation of a controller that an entry tells of. -/
def Entry.operation? : Entry → Option Control
  | .operated c _ _ => some c
  | _ => none

/-- The operations of the controllers, in order. -/
def Journal.operations (j : Journal) : List Control := j.filterMap Entry.operation?

theorem Journal.operations_append (j j' : Journal) :
    (j ++ j').operations = j.operations ++ j'.operations :=
  List.filterMap_append

/-- What the controllers do during a sleep, decided by all that has happened so far. -/
abbrev Clock := Journal → List Control

/-- How far a run has come: its outcome, once it has one, and what there is so far. -/
structure Headway where
  outcome : Option Outcome
  session : Session
  journal : Journal

namespace Session

/-- The run from a phase boundary on, for at most `n` boundaries, with all that has happened
before. -/
def runWithin (clock : Clock) : Nat → Session → Journal → Headway
  | 0, s, past => ⟨none, s, past⟩
  | n + 1, s, past =>
    match s.applyPending.1.atBoundary with
    | .over outcome s' j => ⟨some outcome, s', past ++ (s.applyPending.2 ++ j ++ [.ended outcome])⟩
    | .ran s' j =>
      let past' := past ++ (s.applyPending.2 ++ j)
      let turn := s'.operateAll (clock past')
      runWithin clock n turn.1 (past' ++ turn.2)

/-- A run for at most `n` boundaries. -/
def runUnder (clock : Clock) (n : Nat) (s : Session) : Headway :=
  runWithin clock n s.applyPending.1 (s.applyPending.2 ++ s.applyPending.1.startNotice)

/-- However long the run goes on, the clock operates controllers no more than so many times. -/
def ActsFinitely (s : Session) (clock : Clock) : Prop :=
  ∃ bound, ∀ n, (s.runUnder clock n).journal.operations.length ≤ bound

theorem operateAll_operations (s : Session) (cs : List Control) :
    (s.operateAll cs).2.operations = cs := by
  induction cs generalizing s with
  | nil => rfl
  | cons c rest ih => exact congrArg (c :: ·) (ih (s.operate c).2.1)

theorem runWithin_over {clock : Clock} {s s' : Session} {past j : Journal} {outcome : Outcome}
    (h : s.applyPending.1.atBoundary = .over outcome s' j) (n : Nat) :
    runWithin clock (n + 1) s past =
      ⟨some outcome, s', past ++ (s.applyPending.2 ++ j ++ [.ended outcome])⟩ := by
  rw [runWithin, h]

theorem runWithin_ran {clock : Clock} {s s' : Session} {past j : Journal}
    (h : s.applyPending.1.atBoundary = .ran s' j) (n : Nat) :
    runWithin clock (n + 1) s past =
      runWithin clock n (s'.operateAll (clock (past ++ (s.applyPending.2 ++ j)))).1
        (past ++ (s.applyPending.2 ++ j) ++
          (s'.operateAll (clock (past ++ (s.applyPending.2 ++ j)))).2) := by
  rw [runWithin, h]

/-! ### Nothing else operates a controller -/

theorem handleAll_operations (s : Session) (rs : List Request) :
    (s.handleAll rs).2.operations = [] := by
  refine List.filterMap_eq_nil_iff.mpr fun e he => ?_
  rcases s.handleAll_entries rs e he with ⟨r, rfl⟩ | ⟨message, rfl⟩
  · rfl
  · rfl

theorem step_operations (s : Session) : s.step.2.2.operations = [] := by
  have hphase : ∀ (s : Session) (c : Cycle), (s.runPhase c).2.2.operations = [] := by
    intro s c
    refine List.filterMap_eq_nil_iff.mpr fun e he => ?_
    rcases s.runPhase_journal c e he with ⟨inst, rfl⟩ | ⟨a, f, text, rfl⟩ | ⟨event, rfl⟩
    · rfl
    · rfl
    · rfl
  rcases s.step_cases with ⟨c, -, hstep⟩ | ⟨c, machine, -, -, hstep⟩ | ⟨-, -, hstep⟩
  · rw [hstep, hphase]
  · rw [hstep, hphase]
  · rw [hstep]
    rfl

theorem advance_operations (s : Session) :
    (∀ s' j, s.advance = .ran s' j → j.operations = []) ∧
      ∀ o s' j, s.advance = .over o s' j → j.operations = [] := by
  have hnone := s.step_operations
  unfold advance
  split
  · next p duration s₂ j₂ hstep =>
    rw [hstep] at hnone
    refine ⟨fun s' j h => ?_, fun o s' j h => (nomatch h)⟩
    cases h
    rw [Journal.operations_append, hnone]
    rfl
  · next s₂ j₂ hstep =>
    rw [hstep] at hnone
    refine ⟨fun s' j h => (nomatch h), fun o s' j h => ?_⟩
    cases h
    rw [Journal.operations_append, hnone]
    rfl

theorem atBoundary_operations (s : Session) :
    (∀ s' j, s.atBoundary = .ran s' j → j.operations = []) ∧
      ∀ o s' j, s.atBoundary = .over o s' j → j.operations = [] := by
  unfold atBoundary
  split
  · exact s.advance_operations
  · split
    · exact s.advance_operations
    · refine ⟨fun s' j h => (nomatch h), fun o s' j h => ?_⟩
      cases h
      rfl
  · refine ⟨fun s' j h => (nomatch h), fun o s' j h => ?_⟩
    cases h
    rfl
  · refine ⟨fun s' j h => (nomatch h), fun o s' j h => ?_⟩
    cases h
    rfl

/-- A clock that never operates a controller acts finitely often. -/
theorem actsFinitely_of_quiet (s : Session) {clock : Clock} (hquiet : ∀ past, clock past = []) :
    s.ActsFinitely clock := by
  have hwithin : ∀ (n : Nat) (s : Session) (past : Journal),
      (runWithin clock n s past).journal.operations = past.operations := by
    intro n
    induction n with
    | zero => exact fun _ _ => rfl
    | succ n ih =>
      intro s past
      have happly : s.applyPending.2.operations = [] := handleAll_operations _ _
      rcases hb : s.applyPending.1.atBoundary with ⟨outcome, s', j⟩ | ⟨s', j⟩
      · have hj := (atBoundary_operations _).2 _ _ _ hb
        rw [runWithin_over hb]
        simp only [Journal.operations_append, happly, hj]
        exact List.append_nil _
      · have hj := (atBoundary_operations _).1 _ _ hb
        rw [runWithin_ran hb, ih, hquiet]
        simp only [Journal.operations_append, operateAll_operations, happly, hj]
        simp only [List.append_nil]
  refine ⟨(s.applyPending.2 ++ s.applyPending.1.startNotice).operations.length, fun n => ?_⟩
  exact Nat.le_of_eq (congrArg List.length (hwithin n _ _))

/-! ### Runs return -/

/-- A boundary at which the host acts uses up some of its operations. One at which it does not
brings the run closer to its end. -/
theorem turn_less {s s' : Session} {j : Journal} {bound : Nat}
    (h : s.applyPending.1.atBoundary = .ran s' j) (past : Journal) (turn : List Control)
    (hbound : (past ++ (s.applyPending.2 ++ j) ++ (s'.operateAll turn).2).operations.length
      ≤ bound) :
    Prod.Lex (· < ·) (Prod.Lex (· < ·) (· < ·))
      (bound - (past ++ (s.applyPending.2 ++ j) ++ (s'.operateAll turn).2).operations.length,
        (s'.operateAll turn).1.link.queue.length, (s'.operateAll turn).1.remaining)
      (bound - past.operations.length, s.link.queue.length, s.remaining) := by
  simp only [Journal.operations_append, operateAll_operations, List.length_append] at hbound ⊢
  cases turn with
  | nil =>
    rw [List.length_nil]
    exact Prod.Lex.right' _ (by omega) (boundary_less h)
  | cons c rest =>
    rw [List.length_cons] at hbound ⊢
    exact Prod.Lex.left _ _ (by omega)

/-- A run under a clock that operates controllers no more than `bound` times comes to an end,
and that end is the end of the run in which the host takes those turns. -/
theorem runWithin_returns (clock : Clock) (bound : Nat) (s : Session) (past : Journal)
    (hbound : ∀ n, (runWithin clock n s past).journal.operations.length ≤ bound) :
    ∃ (enough : Nat) (turns : List (List Control)), ∀ n, enough ≤ n →
      runWithin clock n s past = ⟨some (s.runFrom turns).outcome, (s.runFrom turns).session,
        past ++ (s.runFrom turns).journal⟩ := by
  -- the recursion is that of the run itself, but the measure counts the operations still to come
  rcases hb : s.applyPending.1.atBoundary with ⟨outcome, s', j⟩ | ⟨s', j⟩
  · refine ⟨1, [], fun n hn => ?_⟩
    obtain ⟨k, rfl⟩ := Nat.exists_eq_add_of_le' hn
    rw [runWithin_over hb, runFrom_over hb]
  · let past' := past ++ (s.applyPending.2 ++ j)
    let turn := clock past'
    have hlater : ∀ n, (runWithin clock n (s'.operateAll turn).1
        (past' ++ (s'.operateAll turn).2)).journal.operations.length ≤ bound := by
      intro n
      have hn := hbound (n + 1)
      rwa [runWithin_ran hb] at hn
    obtain ⟨enough, turns, hends⟩ :=
      runWithin_returns clock bound (s'.operateAll turn).1 (past' ++ (s'.operateAll turn).2) hlater
    refine ⟨enough + 1, turn :: turns, fun n hn => ?_⟩
    obtain ⟨k, rfl⟩ : ∃ k, n = k + 1 := ⟨n - 1, by omega⟩
    rw [runWithin_ran hb, hends k (by omega), runFrom_ran hb]
    simp only [RunResult.after, past', turn, List.append_assoc]
termination_by (bound - past.operations.length, s.link.queue.length, s.remaining)
decreasing_by exact turn_less hb _ _ (hlater 0)

end Session

/-! ### After a completed cycle -/

/-- The last phase that ran was a writeback at this address, and no stop was carried out
since. -/
def Journal.Completes (a : Address) (j : Journal) : Prop :=
  ∃ (before since : Journal) (number : UInt64) (content : String) (duration : Milliseconds),
    j = before ++ .event (.phase number .writeback a content duration) :: since ∧
      since.Uninterrupted

/-- A cycle that follows a completed one begins at the next instruction above it, in the memory
as it stands then. Where there is none, no cycle begins, and above the last address there is
none. -/
structure Advances (m : Machine) (j : Journal) (s : Session) : Prop where
  /-- What can begin now. -/
  begins : ∀ a, j.Completes a → s.cycle = none ∧
    ∀ b, s.begin?.map (·.1.address) = some b ↔ s.machine.memory.IsNextAfter a b
  /-- What has begun so far. -/
  fetched : ∀ before number b text duration after a,
    j = before ++ .event (.phase number .fetch b text duration) :: after →
      before.Completes a → (m.replay before).memory.IsNextAfter a b
  atEnd : j.Completes 0xFFFFFFFF → s.step = (.finished, s, [])

namespace Session

/-- The cycle at `a` has been completed, and neither a fetch nor a stop has followed. -/
structure Completed (a : Address) (s : Session) : Prop where
  cycle : s.cycle = none
  last : a + 1 = 0 → s.pastEnd = true
  onward : a + 1 ≠ 0 → s.pastEnd = false ∧ s.machine.pc = a + 1

/-- Where the next cycle begins. -/
theorem begin?_address {s : Session} (hend : s.pastEnd = false) :
    s.begin?.map (·.1.address) = s.machine.memory.nextInstruction? s.machine.pc := by
  cases hbegin : s.begin? with
  | some b => exact (begin?_spec hbegin).2.1.symm
  | none =>
    rcases begin?_eq_none_iff.mp hbegin with hpast | hnone
    · exact absurd (hend.symm.trans hpast) nofun
    · exact hnone.symm

/-- The next cycle begins at the next instruction above a completed one, and nowhere if there
is none. -/
theorem Completed.begins {a : Address} {s : Session} (h : Completed a s) (b : Address) :
    s.begin?.map (·.1.address) = some b ↔ s.machine.memory.IsNextAfter a b := by
  by_cases hlast : a + 1 = 0
  · -- nothing begins, and nothing lies above the last address
    rw [begin?_eq_none_iff.mpr (.inl (h.last hlast))]
    refine ⟨nofun, fun hnext => ?_⟩
    exact absurd hnext.1 (not_lt_of_succ_eq_zero hlast b)
  · obtain ⟨hend, hpc⟩ := h.onward hlast
    rw [begin?_address hend, hpc, Memory.nextInstruction?_eq_some_iff, Memory.IsNextAfter]
    simp only [succ_le_iff hlast]

/-- After the last address there is nothing to do. -/
theorem Completed.step_eq {a : Address} {s : Session} (h : Completed a s) (hlast : a + 1 = 0) :
    s.step = (.finished, s, []) := by
  rw [step, h.cycle, begin?_eq_none_iff.mpr (.inl (h.last hlast))]

/-! ### Every move -/

/-- A fetch comes from a cycle that begins, and a writeback completes the cycle in flight. -/
theorem stride_of_mem {s s' : Session} {j : Journal} {number : UInt64} {p : Phase} {a : Address}
    {content : String} {duration : Milliseconds} (h : Stride s j s') (hs : Coherent s)
    (hmem : .event (.phase number p a content duration) ∈ j) :
    (p = .fetch → j = [.event (.phase number p a content duration)] ∧
        s.begin?.map (·.1.address) = some a) ∧
      (p = .writeback → Completed a s') := by
  have hsingle : ∀ {e : TraceEvent}, Entry.event (.phase number p a content duration) ∈ [.event e] →
      .phase number p a content duration = e := fun h => Entry.event.inj (List.mem_singleton.mp h)
  cases h with
  | quiet h => exact absurd (h.entries _ hmem).1 nofun
  | stop => simp [notice] at hmem
  | drop => simp at hmem
  | fetch hcycle hend hnext =>
    cases hsingle hmem
    refine ⟨fun _ => ⟨rfl, ?_⟩, nofun⟩
    rw [begin?_address hend, hnext]
  | decode =>
    cases hsingle hmem
    exact ⟨nofun, nofun⟩
  | execute =>
    rcases List.mem_cons.mp hmem with hissued | hmem
    · cases hissued
    · rcases List.mem_append.mp hmem with hfault | hevent
      · obtain ⟨f, -, hf⟩ := List.mem_map.mp hfault
        cases hf
      · cases hsingle hevent
        exact ⟨nofun, nofun⟩
  | @writeback c hcycle hnext =>
    cases hsingle hmem
    refine ⟨nofun, fun _ => { cycle := rfl, last := fun hlast => decide_eq_true hlast,
                              onward := fun hlast => ⟨decide_eq_false hlast, ?_⟩ }⟩
    have hpc : s.machine.pc = c.address := (hs.fits c hcycle).address
    show (if s.machine.pc + 1 = 0 then s.machine
      else { s.machine with pc := s.machine.pc + 1 }).pc = c.address + 1
    rw [hpc, if_neg hlast]

/-- Without a phase or a stop a completed cycle stays the latest. -/
theorem Completed.stride {a : Address} {s s' : Session} {j : Journal} (h : Completed a s)
    (hstride : Stride s j s') (hj : j.Uninterrupted) : Completed a s' := by
  cases hstride with
  | quiet hquiet =>
    refine { cycle := hquiet.cycle.trans h.cycle, last := fun hlast => ?_,
             onward := fun hlast => ?_ }
    · rw [hquiet.pastEnd, h.last hlast]
    · rw [hquiet.pastEnd, hquiet.pc]
      exact h.onward hlast
  | stop => exact absurd rfl (hj _ List.mem_cons_self).2
  | drop => exact ⟨rfl, h.last, h.onward⟩
  | fetch => exact absurd (hj _ List.mem_cons_self).1 nofun
  | decode hcycle => exact absurd (h.cycle.symm.trans hcycle) nofun
  | execute hcycle => exact absurd (h.cycle.symm.trans hcycle) nofun
  | writeback hcycle => exact absurd (h.cycle.symm.trans hcycle) nofun

theorem completed_of_reaches {s s' : Session} {j : Journal} (hs : Coherent s)
    (h : s.Reaches j s') : ∀ a, j.Completes a → Completed a s' := by
  induction h with
  | refl =>
    rintro a ⟨before, since, number, content, duration, heq, -⟩
    exact absurd heq Journal.nil_ne_append_cons
  | tail hreach hmove ih =>
    rintro a ⟨before, since, number, content, duration, heq, hsince⟩
    have hcoherent := coherent_of_reaches hs hreach
    have hstride := stride_of_move hcoherent hmove
    -- the writeback lies before this move, which must keep what it left, or is this move
    rcases Journal.append_eq_append_cons heq with ⟨rest, hj, rfl⟩ | ⟨start, -, hj'⟩
    · have hcompleted := ih a ⟨before, rest, number, content, duration, hj,
        fun e he => hsince e (List.mem_append_left _ he)⟩
      exact hcompleted.stride hstride fun e he => hsince e (List.mem_append_right _ he)
    · have hmem : .event (.phase number .writeback a content duration) ∈
          start ++ .event (.phase number .writeback a content duration) :: since :=
        List.mem_append_right _ List.mem_cons_self
      exact (stride_of_mem hstride hcoherent (hj' ▸ hmem)).2 rfl

/-- At every moment the fetches so far are where they should be. -/
theorem fetched_of_reaches {s s' : Session} {j : Journal} (hs : Coherent s)
    (h : s.Reaches j s') : ∀ before number b text duration after a,
      j = before ++ .event (.phase number .fetch b text duration) :: after →
        before.Completes a → (s.machine.replay before).memory.IsNextAfter a b := by
  induction h with
  | refl =>
    intro before number b text duration after a heq
    exact absurd heq Journal.nil_ne_append_cons
  | tail hreach hmove ih =>
    intro before number b text duration after a heq hbefore
    have hcoherent := coherent_of_reaches hs hreach
    rcases Journal.append_eq_append_cons heq with ⟨rest, hj, -⟩ | ⟨start, rfl, hj'⟩
    · exact ih before number b text duration rest a hj hbefore
    · have hmem : .event (.phase number .fetch b text duration) ∈
          start ++ .event (.phase number .fetch b text duration) :: after :=
        List.mem_append_right _ List.mem_cons_self
      obtain ⟨hsingle, hbegin⟩ :=
        (stride_of_mem (stride_of_move hcoherent hmove) hcoherent (hj' ▸ hmem)).1 rfl
      -- the fetch is all that its move adds, so the cycle began after `before`
      rw [hj'] at hsingle
      obtain rfl : start = [] := by
        cases start with
        | nil => rfl
        | cons e rest => simp at hsingle
      rw [List.append_nil] at hbefore ⊢
      rw [← machine_eq_replay hs hreach]
      exact ((completed_of_reaches hs hreach a hbefore).begins b).mp hbegin

theorem advances_of_reaches {s s' : Session} {j : Journal} (hs : Coherent s)
    (h : s.Reaches j s') : Advances s.machine j s' where
  begins a hj := ⟨(completed_of_reaches hs h a hj).cycle, (completed_of_reaches hs h a hj).begins⟩
  fetched := fetched_of_reaches hs h
  atEnd hj := (completed_of_reaches hs h _ hj).step_eq rfl

/-- A run under a clock that acts finitely often comes to the end of the run in which the host
takes the same turns. -/
theorem runUnder_returns {s : Session} {clock : Clock} (h : s.ActsFinitely clock) :
    ∃ (enough : Nat) (turns : List (List Control)), ∀ n, enough ≤ n →
      s.runUnder clock n =
        ⟨some (s.run turns).outcome, (s.run turns).session, (s.run turns).journal⟩ := by
  obtain ⟨bound, hbound⟩ := h
  exact runWithin_returns clock bound _ _ hbound

end Session

/-- Every run under a clock that acts finitely often returns, from whatever session. And
whatever is done to a new session, in any order, is made of moves, and at every moment of any
moves a cycle that follows a completed one is at the next instruction above it. -/
theorem run_returns_and_advances (m : Machine) (timings : Timings) (actions : List Action) :
    (∀ (s : Session) (clock : Clock), s.ActsFinitely clock →
      ∃ (enough : Nat) (turns : List (List Control)), ∀ n, enough ≤ n →
        s.runUnder clock n =
          ⟨some (s.run turns).outcome, (s.run turns).session, (s.run turns).journal⟩) ∧
      (Session.new m timings).Reaches ((Session.new m timings).performAll actions).2
        ((Session.new m timings).performAll actions).1 ∧
      ∀ (j : Journal) (s : Session), (Session.new m timings).Reaches j s → Advances m j s :=
  ⟨fun _ _ h => runUnder_returns h, performAll_reaches _ actions,
    fun _ _ h => advances_of_reaches (coherent_new m timings) h⟩

end ToyCpu
