import ToyCpu.Proofs.Canonical
import ToyCpu.Proofs.Likeness

/-!
# Resuming from a snapshot

A session between two cycles is saved by saving its machine. What is lost that way is the mark
that the last address there is has been run, and nothing else that steers a run: a general
register may come back with another value, but with none that a program can tell from the old
one.

* `Registers.Canonical.alike_reloaded` — registers that have been saved and loaded.
* `Session.playRun` — a session is played and run.
* `Session.Rests.matches_resumed` — it runs as before where the mark does not matter.
* `Session.Rests.not_matches_resumed` — at the end of memory it does.
* `resumed_matches_iff` — so a session is resumed just when the mark does not matter.
-/

namespace ToyCpu

open Session

/-- The text `NaN` is written like the number that it comes back as, and read as that number. -/
theorem Value.Canonical.seen_reloaded {v : Value} (h : v.Canonical) :
    v.reread = v.reloaded.reread ∧ v.display = v.reloaded.display := by
  rcases h.reloaded_cases with hsame | ⟨rfl, hnan⟩
  · rw [hsame]
    exact ⟨rfl, rfl⟩
  · rw [hnan]
    exact ⟨rfl, rfl⟩

theorem Registers.Canonical.alike_reloaded {regs : Registers} (h : regs.Canonical) :
    regs.Alike regs.reloaded where
  reread r := by
    rw [get_reloaded]
    exact (h.general r).seen_reloaded.1
  display r := by
    rw [get_reloaded]
    exact (h.general r).seen_reloaded.2

namespace Session

/-! ### Played and run -/

/-- The session is played and run. -/
def playRun (s : Session) (sleeps : List (List Control)) : RunResult :=
  (s.operate .play).2.1.run sleeps

theorem playRun_reaches (s : Session) (sleeps : List (List Control)) :
    s.Reaches ((s.operate .play).2.2 ++ (s.playRun sleeps).journal) (s.playRun sleeps).session :=
  (s.operate_reaches .play).trans (run_reaches _ sleeps)

/-- A session between two cycles, for which nothing is queued and which can be played. -/
structure Rests (s : Session) : Prop where
  cycle : s.cycle = none
  queue : s.link.queue = []
  controlled : s.link.controllers ≠ 0
  listening : s.link.listening = true

/-- A link that is played, with an empty queue. -/
structure Played (l : Link) : Prop where
  state : l.state = .running
  queue : l.queue = []
  controlled : l.controllers ≠ 0
  listening : l.listening = true

theorem Played.alike {l l' : Link} (h : Played l) (h' : Played l') : l.Alike l' where
  state := h.state.trans h'.state.symm
  queue := h.queue.trans h'.queue.symm
  listening := h.listening.trans h'.listening.symm
  controlled := ⟨h.controlled, h'.controlled⟩

/-- A session at rest that is played and run: after the first message comes the run of the
session with another link. -/
theorem Rests.playRun_eq {s : Session} (h : s.Rests) (sleeps : List (List Control)) :
    ∃ (l : Link) (j : Journal), Played l ∧ j.events = [.notice "Execution started."] ∧
      s.playRun sleeps = ((s.withLink l).runFrom sleeps).after j := by
  have hplayable : s.link.Playable := ⟨by rw [h.queue]; exact nofun, h.controlled⟩
  obtain ⟨hsteered, hrunning⟩ := hplayable.perform_play
  have hlistening := (s.link.perform_listening .play).trans h.listening
  refine ⟨{ (s.link.perform .play).link with queue := [] }, _,
    ⟨hrunning, rfl, hsteered.controlled, hlistening⟩, ?_,
    run_of_wakes (s := (s.operate .play).2.1) hsteered.wakes hrunning sleeps⟩
  rw [Journal.events_append, Journal.events_handled]
  rfl

end Session

/-- Two runs that end for the same reason, report the same, and leave the same memory. -/
structure RunResult.Matches (r r' : RunResult) : Prop where
  outcome : r.outcome = r'.outcome
  events : r.journal.events = r'.journal.events
  memory : r.session.machine.memory = r'.session.machine.memory

theorem Session.RunAlike.matches {r r' : RunResult} (h : RunAlike r r') : r.Matches r' :=
  ⟨h.outcome, h.events, h.session.machine.memory⟩

/-- The last address has been run, and there is an instruction at the program counter, which
would be run once more. -/
def Session.RunsAgain (s : Session) : Prop :=
  s.pastEnd = true ∧ s.machine.memory.nextInstruction? s.machine.pc ≠ none

namespace Session

variable {s : Session}

/-- The session in which a session is resumed. -/
def resumed (s : Session) : Session := Session.new s.machine.reloaded s.timings

theorem resumed_rests (s : Session) : s.resumed.Rests := ⟨rfl, rfl, Nat.one_ne_zero, rfl⟩

/-- What can begin in the session as it is resumed does not depend on the mark. -/
theorem resumed_begin?_eq_none_iff (l : Link) :
    (s.resumed.withLink l).begin? = none ↔
      s.machine.memory.nextInstruction? s.machine.pc = none := by
  rw [begin?_eq_none_iff]
  exact or_iff_right nofun

/-- A session at rest is resumed, unless an instruction would be run once more. -/
theorem Rests.matches_resumed (h : s.Rests) (hregisters : s.machine.registers.Canonical)
    (hnew : ¬s.RunsAgain) {sleeps : List (List Control)}
    (hsleeps : ∀ turn ∈ sleeps, Control.release ∉ turn) :
    (s.playRun sleeps).Matches (s.resumed.playRun sleeps) := by
  obtain ⟨l, j, hl, hj, hrun⟩ := h.playRun_eq sleeps
  obtain ⟨l', j', hl', hj', hrun'⟩ := s.resumed_rests.playRun_eq sleeps
  rw [hrun, hrun']
  by_cases hend : s.pastEnd = true
  · -- nothing is left in either session
    have hnone : s.machine.memory.nextInstruction? s.machine.pc = none := by
      by_contra hsome
      exact hnew ⟨hend, hsome⟩
    have hstep : (s.withLink l).step = (.finished, s.withLink l, []) :=
      step_dry h.cycle (begin?_eq_none_iff.mpr (.inl hend))
    have hstep' : (s.resumed.withLink l').step = (.finished, s.resumed.withLink l', []) :=
      step_dry rfl ((resumed_begin?_eq_none_iff l').mpr hnone)
    rw [runFrom_finished ⟨hl.state, hl.queue⟩ hstep, runFrom_finished ⟨hl'.state, hl'.queue⟩ hstep']
    refine ⟨rfl, ?_, rfl⟩
    rw [RunResult.events_after, RunResult.events_after, hj, hj']
  · -- without the mark the two are alike
    have halike : (s.withLink l).Alike (s.resumed.withLink l') :=
      ⟨⟨hregisters.alike_reloaded, rfl, rfl, rfl⟩, rfl, hl.alike hl', h.cycle,
        Bool.eq_false_iff.mpr hend⟩
    exact ((runFrom_alike halike hsleeps).after (hj.trans hj'.symm)).matches

/-- The events of a run begin with those of its first phase. -/
theorem runFrom_events {s' : Session} {p : Phase} {duration : Milliseconds} {j : Journal}
    (h : s.Undisturbed) (hstep : s.step = (.phase p duration, s', j))
    (sleeps : List (List Control)) :
    ∃ rest, (s.runFrom sleeps).journal.events = j.events ++ rest := by
  refine ⟨((s'.operateAll (sleeps.headD [])).1.runFrom sleeps.tail).journal.events, ?_⟩
  rw [h.runFrom_eq hstep, RunResult.events_after, Journal.events_append, operateAll_events,
    Journal.events_slept, List.append_nil]

/-- A session in which an instruction would be run once more is not resumed: as it is it
finishes at once, and the other fetches the instruction. -/
theorem Rests.not_matches_resumed (h : s.Rests) (hagain : s.RunsAgain)
    (sleeps : List (List Control)) : ¬(s.playRun sleeps).Matches (s.resumed.playRun sleeps) := by
  obtain ⟨hend, hsome⟩ := hagain
  obtain ⟨l, j, hl, hj, hrun⟩ := h.playRun_eq sleeps
  obtain ⟨l', j', hl', hj', hrun'⟩ := s.resumed_rests.playRun_eq sleeps
  have hstep : (s.withLink l).step = (.finished, s.withLink l, []) :=
    step_dry h.cycle (begin?_eq_none_iff.mpr (.inl hend))
  have hbegin' := mt (resumed_begin?_eq_none_iff l').mp hsome
  obtain ⟨⟨c, machine⟩, hbegin'⟩ := Option.ne_none_iff_exists'.mp hbegin'
  obtain ⟨-, -, -, -, -, hfetch⟩ := begin?_spec hbegin'
  have hstep' := (step_begin rfl hbegin').trans (runPhase_fetch _ hfetch)
  obtain ⟨rest, hevents'⟩ := runFrom_events ⟨hl'.state, hl'.queue⟩ hstep' sleeps
  -- after the first message the one has only its last one to report, and the other a fetch
  intro hmatches
  have hevents := hmatches.events
  rw [hrun, hrun', RunResult.events_after, RunResult.events_after, hj, hj', hevents',
    runFrom_finished ⟨hl.state, hl.queue⟩ hstep] at hevents
  cases List.append_cancel_left hevents

end Session

/-- A session that has been run, stepped, edited and steered in any way is saved between two
cycles and resumed in a new one, and both are played and run by hosts that do the same meanwhile.
They end the same way, with the same events and the same memory, unless the last address has been
run and its instruction is still there. Then the one finishes at once, and the other runs that
instruction again. -/
theorem resumed_matches_iff {m : Machine} (hm : m.Reachable) {timings : Timings} {j : Journal}
    {s : Session} (hreach : (Session.new m timings).Reaches j s) (hj : j.EditsEntered)
    (hcycle : s.cycle = none) (hqueue : s.link.queue = []) (hcontrolled : s.link.controllers ≠ 0)
    {sleeps : List (List Control)} (hsleeps : ∀ turn ∈ sleeps, Control.release ∉ turn) :
    ∃ m', Snapshot.load? (Snapshot.save s.machine) = some m' ∧
      ((s.playRun sleeps).Matches ((Session.new m' s.timings).playRun sleeps) ↔ ¬s.RunsAgain) := by
  have hrests : s.Rests := ⟨hcycle, hqueue, hcontrolled, listening_of_reaches hreach⟩
  have hregisters := (hm.session hreach hj).canonical
  refine ⟨s.machine.reloaded, Snapshot.load?_save s.machine, ?_, fun hnew => ?_⟩
  · intro hmatches hagain
    exact hrests.not_matches_resumed hagain sleeps hmatches
  · exact hrests.matches_resumed hregisters hnew hsleeps

/-- A session with one instruction, at the last address there is. -/
def lastSession : Session :=
  Session.new (Machine.new ((Memory.empty .split).set 4294967295 "MOV R1, NaN" .instruction))
    Architecture.split.defaultTimings

/-- After a run of that session the register holds a text, the instruction would be run once more
if the session were resumed, and no request but the one that woke it up has been handled. -/
theorem lastSession_again :
    let r := lastSession.playRun []
    r.session.cycle = none ∧ r.session.link.controllers = 1 ∧
      r.session.machine.registers.get .r1 = .text "NaN" ∧ r.session.RunsAgain ∧
      r.journal.handled = [.wake] := by
  intro r
  unfold r
  rw [lastSession, playRun, run, runFrom_ran_nil rfl, runFrom_ran_nil rfl, runFrom_ran_nil rfl,
    runFrom_ran_nil rfl, runFrom_over rfl]
  exact ⟨rfl, rfl, rfl, ⟨rfl, Option.some_ne_none 4294967295⟩, rfl⟩

/-- So when it is played and run once more it does what the session in which it is resumed does
not. -/
theorem lastSession_not_resumed :
    let s := (lastSession.playRun []).session
    ∃ m', Snapshot.load? (Snapshot.save s.machine) = some m' ∧
      ¬(s.playRun []).Matches ((Session.new m' s.timings).playRun []) := by
  intro s
  obtain ⟨hcycle, hcontrollers, -, hagain, hhandled⟩ := lastSession_again
  have hentered :
      ((lastSession.operate .play).2.2 ++ (lastSession.playRun []).journal).EditsEntered := by
    intro e he
    rcases List.mem_append.mp he with he | he
    · cases List.mem_singleton.mp he
    · have hmem : .edit e ∈ (lastSession.playRun []).journal.handled :=
        List.mem_filterMap.mpr ⟨_, he, rfl⟩
      rw [hhandled] at hmem
      cases List.mem_singleton.mp hmem
  have hcontrolled : s.link.controllers ≠ 0 := by
    rw [hcontrollers]
    decide
  have hkept : ∀ turn ∈ ([] : List (List Control)), Control.release ∉ turn := nofun
  obtain ⟨m', hload, hmatches⟩ := resumed_matches_iff (.new _) (lastSession.playRun_reaches [])
    hentered hcycle (run_queue _ []) hcontrolled hkept
  exact ⟨m', hload, fun hsame => hmatches.mp hsame hagain⟩

end ToyCpu
