import ToyCpu.Proofs.Course

/-!
# Pausing is transparent

A host that only plays, pauses and toggles acts on the link and on nothing else. A run under it
follows the course of the session, to the end or to the boundary between two cycles at which it
is found paused; and whoever plays on from there goes through the rest of the same course.

* `Control.IsSteering` — to play, to pause, or to do the one or the other.
* `Link.Playable`, `Link.Steered` — a link that such operations keep so.
* `Session.Follows` — what a run makes of the course of its session.
* `Session.runFrom_follows` — every run under such a host follows the course.
* `Session.playOut` — runs with pauses in between, up to the end.
* `pausing_transparent` — with pauses or without, the same phases, times and machine.
-/

namespace ToyCpu

open Session

/-- To play, to pause, or to toggle between the two. -/
def Control.IsSteering : Control → Prop
  | .play | .pause | .toggle => True
  | _ => False

namespace Link

/-- There is a controller to play with, and nothing is asked for but to wake up. -/
structure Playable (l : Link) : Prop where
  wakes : ∀ r ∈ l.queue, r = .wake
  controlled : l.controllers ≠ 0

/-- The link of a session that runs, or is to pause. -/
structure Steered (l : Link) : Prop extends l.Playable where
  state : l.state = .running ∨ l.state = .paused

theorem Playable.play {l : Link} (h : l.Playable) :
    l.play.1.Playable ∧ l.play.1.state = .running := by
  unfold Link.play post
  split
  · refine ⟨⟨fun r hr => ?_, h.controlled⟩, rfl⟩
    rcases List.mem_append.mp hr with hr | hr
    · exact h.wakes r hr
    · exact List.mem_singleton.mp hr
  · exact ⟨⟨h.wakes, h.controlled⟩, rfl⟩

theorem perform_of_controlled {l : Link} (h : l.controllers ≠ 0) (c : Control) :
    l.perform c = l.operate c :=
  if_neg h

/-- However the link is left, it can be played on. -/
theorem Playable.perform_play {l : Link} (h : l.Playable) :
    (l.perform .play).link.Steered ∧ (l.perform .play).link.state = .running := by
  rw [perform_of_controlled h.controlled, operate]
  by_cases hrunning : l.state = .running
  · rw [if_pos hrunning]
    exact ⟨⟨h, .inl hrunning⟩, hrunning⟩
  · rw [if_neg hrunning]
    obtain ⟨hplay, hstate⟩ := h.play
    exact ⟨⟨hplay, .inl hstate⟩, hstate⟩

/-- Steering keeps a link steered. -/
theorem Steered.perform {l : Link} (h : l.Steered) {c : Control} (hc : c.IsSteering) :
    (l.perform c).link.Steered := by
  have hpaused : Steered { l with state := .paused } :=
    ⟨⟨h.wakes, h.controlled⟩, .inr rfl⟩
  have hplayed : l.play.1.Steered := ⟨h.play.1, .inl h.play.2⟩
  rw [perform_of_controlled h.controlled]
  cases c with
  | play =>
    rw [operate]
    split
    · exact h
    · exact hplayed
  | pause =>
    rw [operate]
    split
    · exact hpaused
    · exact h
  | toggle =>
    rw [operate]
    split
    · exact hpaused
    · exact hplayed
  | stop | state | send | share | release => exact hc.elim

end Link

namespace Session

/-! ### Steering -/

/-- Steering changes nothing but the link, and writes down no part of a course. -/
theorem operateAll_steered {s : Session} (h : s.link.Steered) {cs : List Control}
    (hcs : ∀ c ∈ cs, c.IsSteering) :
    ∃ l, (s.operateAll cs).1 = s.withLink l ∧ l.Steered ∧ (s.operateAll cs).2.passage = [] := by
  induction cs generalizing s with
  | nil => exact ⟨s.link, rfl, h, rfl⟩
  | cons c rest ih =>
    have hfirst : (s.operate c).2.1.link.Steered := h.perform (hcs c List.mem_cons_self)
    obtain ⟨l, hsession, hlink, hpassage⟩ :=
      ih hfirst fun c hc => hcs c (List.mem_cons_of_mem _ hc)
    refine ⟨l, ?_, hlink, ?_⟩
    · show ((s.operate c).2.1.operateAll rest).1 = s.withLink l
      rw [hsession]
      rfl
    · show Journal.passage ((s.operate c).2.2 ++ ((s.operate c).2.1.operateAll rest).2) = []
      rw [Journal.passage_append, hpassage]
      rfl

/-- A session that is asked for nothing goes on with an empty queue. -/
theorem applyPending_playable {s : Session} (h : s.link.Playable) :
    s.applyPending.1 = s.withQueue [] ∧ s.applyPending.2.passage = [] := by
  have hall : s.applyPending = (s.withQueue [], s.link.queue.map .handled) :=
    handleAll_of_wakes _ h.wakes
  rw [hall]
  exact ⟨rfl, Journal.passage_handled _⟩

/-- At a boundary a steered session runs its next phase, or has none left, or is paused between
two cycles. -/
theorem atBoundary_steered {s : Session} (h : s.link.Steered) :
    (∃ p duration s' j, s.step = (.phase p duration, s', j) ∧
      s.atBoundary = .ran s' (j ++ [.slept duration])) ∨
    (s.step = (.finished, s, []) ∧ s.atBoundary =
      .over .finished (s.withState .stopped) [notice "No more instructions to execute."]) ∨
    (s.link.state = .paused ∧ s.atBoundary = .over .paused s [notice "Execution paused."]) := by
  -- a pause is heeded between two cycles only; in the midst of one the session goes on as if it ran
  have hadvance : s.atBoundary = s.advance ∨
      s.link.state = .paused ∧ s.atBoundary = .over .paused s [notice "Execution paused."] := by
    rw [atBoundary]
    rcases h.state with hstate | hstate
    · rw [hstate]
      exact .inl rfl
    · rw [hstate]
      by_cases hcycle : s.cycle.isSome
      · exact .inl (if_pos hcycle)
      · exact .inr ⟨rfl, if_neg hcycle⟩
  rcases hadvance with hadvance | hpaused
  · rw [hadvance, advance]
    rcases hstep : s.step with ⟨tick, s', j⟩
    cases tick with
    | phase p duration => exact .inl ⟨p, duration, s', j, rfl, rfl⟩
    | finished =>
      obtain ⟨-, -, hfin⟩ := step_eq_finished (congrArg Prod.fst hstep)
      rw [hfin] at hstep
      cases hstep
      exact .inr (.inl ⟨rfl, rfl⟩)
  · exact .inr (.inr hpaused)

/-! ### Runs -/

/-- A run through the whole course of the session that it began with. -/
structure RunsOut (s : Session) (r : RunResult) : Prop where
  outcome : r.outcome = .finished
  passage : r.journal.passage = s.course.1
  session : r.session = s.course.2.withLink r.session.link
  link : r.session.link.Playable

/-- A run that follows the course of the session that it began with. -/
inductive Follows (s : Session) (sleeps : List (List Control)) (r : RunResult) : Prop
  | finished (h : s.RunsOut r)
  /-- The course has been run up to a pause, before which the host has acted. -/
  | paused (outcome : r.outcome = .paused)
      (passage : r.journal.passage ++ r.session.course.1 = s.course.1)
      (session : r.session.course.2 = s.course.2.withLink r.session.link)
      (link : r.session.link.Playable) (cause : s.link.state = .running → sleeps ≠ [])

/-- What is written down before a run and is no part of a course does not matter. -/
theorem Follows.after {s : Session} {sleeps : List (List Control)} {r : RunResult}
    (h : s.Follows sleeps r) {j : Journal} (hj : j.passage = []) : s.Follows sleeps (r.after j) := by
  have hpassage : (r.after j).journal.passage = r.journal.passage := by
    show Journal.passage (j ++ r.journal) = _
    rw [Journal.passage_append, hj, List.nil_append]
  cases h with
  | finished h => exact .finished { h with passage := hpassage.trans h.passage }
  | paused outcome passage session link cause =>
    refine .paused outcome ?_ session link cause
    rw [hpassage]
    exact passage

/-- The link that a run begins with matters only to what has paused it. -/
theorem Follows.withLink {s : Session} {l : Link} {sleeps sleeps' : List (List Control)}
    {r : RunResult} (h : (s.withLink l).Follows sleeps r)
    (hcause : s.link.state = .running → sleeps' = [] → l.state = .running ∧ sleeps = []) :
    s.Follows sleeps' r := by
  have hcourse := s.course_withLink l
  cases h with
  | finished h =>
    obtain ⟨outcome, passage, session, link⟩ := h
    rw [hcourse] at passage session
    exact .finished ⟨outcome, passage, session, link⟩
  | paused outcome passage session link cause =>
    rw [hcourse] at passage session
    refine .paused outcome passage session link fun hrunning hsleeps => ?_
    obtain ⟨hl, hnone⟩ := hcause hrunning hsleeps
    exact cause hl hnone

/-- A phase is run, and the rest of the run follows the rest of the course. -/
theorem Follows.phase {s s' : Session} {p : Phase} {duration : Milliseconds} {j j' : Journal}
    {sleeps : List (List Control)} {r : RunResult} (hstep : s.step = (.phase p duration, s', j))
    (hlink : s'.link = s.link) (hj' : j'.passage = j ++ [.slept duration])
    (h : s'.Follows sleeps r) : s.Follows sleeps (r.after j') := by
  have hcourse := course_phase hstep
  have hpassage : (r.after j').journal.passage = j ++ .slept duration :: r.journal.passage := by
    show Journal.passage (j' ++ r.journal) = _
    rw [Journal.passage_append, hj', List.append_assoc]
    rfl
  cases h with
  | finished h =>
    refine .finished { outcome := h.outcome, passage := ?_, session := ?_, link := h.link }
    · rw [hpassage, hcourse, h.passage]
    · rw [hcourse]
      exact h.session
  | paused outcome passage session link cause =>
    have hrest : (r.after j').session = r.session := rfl
    refine .paused outcome ?_ ?_ link ?_
    · rw [hpassage, hcourse, hrest, List.append_assoc, List.cons_append, passage]
    · rw [hcourse]
      exact session
    · rw [← hlink]
      exact cause

/-- A run under a host that only steers follows the course. -/
theorem runFrom_follows (s : Session) (sleeps : List (List Control)) (h : s.link.Steered)
    (hsleeps : ∀ turn ∈ sleeps, ∀ c ∈ turn, c.IsSteering) : s.Follows sleeps (s.runFrom sleeps) := by
  obtain ⟨happly, hwakes⟩ := applyPending_playable h.toPlayable
  have hplayable : (s.withQueue []).link.Playable := ⟨nofun, h.controlled⟩
  have hsteered : (s.withQueue []).link.Steered := ⟨hplayable, h.state⟩
  -- what is queued is of no account, so the run may as well begin with an empty queue
  suffices hfollows : (s.withQueue []).Follows sleeps (s.runFrom sleeps) from
    Follows.withLink (s := s) (l := (s.withQueue []).link) hfollows
      fun hrunning hnone => ⟨hrunning, hnone⟩
  rcases atBoundary_steered hsteered with
    ⟨p, duration, s', j, hstep, hboundary⟩ | ⟨hstep, hboundary⟩ | ⟨hpaused, hboundary⟩
  · have hlink : s'.link = (s.withQueue []).link := by
      have hkept := (s.withQueue []).step_link
      rwa [hstep] at hkept
    have hpassage : Journal.passage (s.applyPending.2 ++ (j ++ [.slept duration]))
        = j ++ [.slept duration] := by
      have hj := (s.withQueue []).step_passage
      rw [hstep] at hj
      rw [Journal.passage_append, hwakes, Journal.passage_append, hj]
      rfl
    have hs' : s'.link.Steered := hlink ▸ hsteered
    rw [← happly] at hboundary
    cases hnow : sleeps with
    | nil =>
      rw [runFrom_ran_nil hboundary]
      exact (runFrom_follows s' [] hs' nofun).phase hstep hlink hpassage
    | cons turn later =>
      rw [hnow] at hsleeps
      obtain ⟨l, hsession, hl, hquiet⟩ := operateAll_steered hs' (hsleeps turn List.mem_cons_self)
      have hlater := runFrom_follows (s'.withLink l) later hl
        fun turn hturn => hsleeps turn (List.mem_cons_of_mem _ hturn)
      rw [runFrom_ran hboundary, hsession]
      refine Follows.phase hstep hlink ?_ (hlater.withLink nofun)
      rw [Journal.passage_append, hpassage, hquiet, List.append_nil]
  · have hover : s.applyPending.1.atBoundary = .over .finished ((s.withQueue []).withState .stopped)
        [notice "No more instructions to execute."] := by rw [happly, hboundary]
    have hcourse := course_finished hstep
    rw [runFrom_over hover]
    refine .finished ⟨rfl, ?_, ?_, hplayable.wakes, hplayable.controlled⟩
    · rw [hcourse, Journal.passage_append, Journal.passage_append, hwakes]
      rfl
    · rw [hcourse]
      rfl
  · have hover : s.applyPending.1.atBoundary = .over .paused (s.withQueue [])
        [notice "Execution paused."] := by rw [happly, hboundary]
    have hcourse := (s.withQueue []).course_withLink (s.withQueue []).link
    rw [runFrom_over hover]
    refine .paused rfl ?_ (congrArg Prod.snd hcourse) hplayable fun hrunning => ?_
    · rw [Journal.passage_append, Journal.passage_append, hwakes]
      rfl
    · exact absurd (hrunning.symm.trans hpaused) nofun
termination_by (sleeps.length, s.remaining)
decreasing_by
  -- a phase leaves fewer of them to run, and a turn of the host leaves one turn less
  · have hless := step_remaining (congrArg Prod.fst hstep)
    rw [hstep] at hless
    rw [hnow]
    exact Prod.Lex.right _ hless
  · rw [hnow]
    exact Prod.Lex.left _ _ (Nat.lt_succ_self _)

/-- A run of a session that has been played on, under a host that only steers. -/
theorem run_follows (s : Session) (sleeps : List (List Control)) (h : s.link.Steered)
    (hsleeps : ∀ turn ∈ sleeps, ∀ c ∈ turn, c.IsSteering) : s.Follows sleeps (s.run sleeps) := by
  obtain ⟨happly, hwakes⟩ := applyPending_playable h.toPlayable
  have hsteered : (s.withQueue []).link.Steered := ⟨⟨nofun, h.controlled⟩, h.state⟩
  have hfrom : s.Follows sleeps ((s.withQueue []).runFrom sleeps) :=
    (runFrom_follows _ sleeps hsteered hsleeps).withLink (l := (s.withQueue []).link)
      fun hrunning hnone => ⟨hrunning, hnone⟩
  have hstart : (s.applyPending.2 ++ s.applyPending.1.startNotice).passage = [] := by
    rw [Journal.passage_append, hwakes, startNotice]
    split
    · rfl
    · rfl
  have hrun : s.run sleeps =
      (s.applyPending.1.runFrom sleeps).after (s.applyPending.2 ++ s.applyPending.1.startNotice) :=
    rfl
  rw [hrun, happly]
  rw [happly] at hstart
  exact hfrom.after hstart

/-! ### Runs with pauses in between -/

/-- Runs and, for as long as a run ends paused, plays and runs again. Each of the runs has
turns of its own for the host, and after the last of them a run in which the host does
nothing. -/
def playOut (s : Session) : List (List (List Control)) → RunResult
  | [] => s.run []
  | sleeps :: later =>
    let r := s.run sleeps
    match r.outcome with
    | .paused =>
      let (_, s', j) := r.session.operate .play
      (s'.playOut later).after (r.journal ++ j)
    | _ => r

/-- With whatever pauses, the whole course is run in the end. -/
theorem playOut_runsOut {schedule : List (List (List Control))} {s : Session}
    (h : s.link.Steered) (hrunning : s.link.state = .running)
    (hschedule : ∀ sleeps ∈ schedule, ∀ turn ∈ sleeps, ∀ c ∈ turn, c.IsSteering) :
    s.RunsOut (s.playOut schedule) := by
  induction schedule generalizing s with
  | nil =>
    cases s.run_follows [] h nofun with
    | finished hout => exact hout
    | paused _ _ _ _ cause => exact absurd rfl (cause hrunning)
  | cons sleeps later ih =>
    rw [playOut]
    cases s.run_follows sleeps h (hschedule sleeps List.mem_cons_self) with
    | finished hout =>
      simp only [hout.outcome]
      exact hout
    | paused outcome passage session link _ =>
      simp only [outcome]
      -- played on, the session has the rest of the course before it
      obtain ⟨hsteered, hplayed⟩ := link.perform_play
      have hrest := ih (s := ((s.run sleeps).session.operate .play).2.1) hsteered hplayed
        fun sleeps hsleeps => hschedule sleeps (List.mem_cons_of_mem _ hsleeps)
      have hcourse := (s.run sleeps).session.course_withLink
        ((s.run sleeps).session.link.perform .play).link
      refine { outcome := hrest.outcome, passage := ?_, session := ?_, link := hrest.link }
      · show Journal.passage ((s.run sleeps).journal ++ _ ++ _) = _
        rw [Journal.passage_append, Journal.passage_append, hrest.passage, ← passage]
        show _ ++ [] ++ Prod.fst (Session.course (withLink _ _)) = _
        rw [hcourse, List.append_nil]
      · refine hrest.session.trans ?_
        show Session.withLink (Prod.snd (Session.course (withLink _ _))) _ = _
        rw [hcourse, session]
        rfl

/-- Where there is nothing to do a run is over before the host can act. -/
theorem run_of_finished {s : Session} (h : s.link.Playable) (hrunning : s.link.state = .running)
    (hstep : s.step = (.finished, s, [])) (sleeps : List (List Control)) :
    (s.run sleeps).outcome = .finished ∧ (s.run sleeps).journal.passage = [] ∧
      (s.run sleeps).session.machine = s.machine := by
  have hundisturbed : (s.withQueue []).Undisturbed := ⟨hrunning, rfl⟩
  have hstep' : (s.withQueue []).step = (.finished, s.withQueue [], []) := by
    have hkept := s.step_withLink (s.withQueue []).link
    rw [hstep] at hkept
    exact hkept
  rw [run_of_wakes h.wakes hrunning, runFrom_finished hundisturbed hstep']
  refine ⟨rfl, ?_, rfl⟩
  show Journal.passage (s.link.queue.map .handled ++ _ ++ _) = []
  rw [Journal.passage_append, Journal.passage_append, Journal.passage_handled]
  rfl

end Session

/-- Two runs to the end that are the same but for what the host did meanwhile. -/
structure RunResult.SameCourse (r r' : RunResult) : Prop where
  outcome : r.outcome = .finished ∧ r'.outcome = .finished
  phases : r.journal.phases = r'.journal.phases
  issued : r.journal.issued = r'.journal.issued
  durations : r.journal.durations = r'.journal.durations
  machine : r.session.machine = r'.session.machine

/-- Runs out of one session go through the same course. -/
theorem Session.RunsOut.sameCourse {s : Session} {r r' : RunResult} (h : s.RunsOut r)
    (h' : s.RunsOut r') : r.SameCourse r' := by
  have hpassage : r.journal.passage = r'.journal.passage := h.passage.trans h'.passage.symm
  refine { outcome := ⟨h.outcome, h'.outcome⟩, phases := ?_, issued := ?_, durations := ?_,
           machine := ?_ }
  · rw [← Journal.phases_passage, hpassage, Journal.phases_passage]
  · rw [← Journal.issued_passage, hpassage, Journal.issued_passage]
  · rw [← Journal.durations_passage, hpassage, Journal.durations_passage]
  · rw [h.session, h'.session]
    rfl

/-- A session is played and run to its end, with whatever pauses on the way, and after each of
them it is played and run again. That comes to the same phases, the same instructions executed,
the same times in between and the same machine as one run without a pause. To play and run once
more adds no phase. -/
theorem pausing_transparent (s : Session) (schedule : List (List (List Control)))
    (hlink : s.link.Playable)
    (hschedule : ∀ sleeps ∈ schedule, ∀ turn ∈ sleeps, ∀ c ∈ turn, c.IsSteering) :
    let start := (s.operate .play).2.1
    let ended := start.playOut schedule
    ended.SameCourse (start.run []) ∧
      ∀ sleeps, let again := (ended.session.operate .play).2.1.run sleeps
        again.outcome = .finished ∧ again.journal.phases = [] ∧
          again.session.machine = ended.session.machine := by
  intro start ended
  obtain ⟨hsteered, hrunning⟩ := hlink.perform_play
  have hended : start.RunsOut ended := playOut_runsOut hsteered hrunning hschedule
  have hplain : start.RunsOut (start.playOut []) := playOut_runsOut hsteered hrunning nofun
  refine ⟨hended.sameCourse hplain, ?_⟩
  intro sleeps again
  obtain ⟨hsteered', hrunning'⟩ := hended.link.perform_play
  -- what is played on is the session at the end of the course, where there is nothing to do
  have hstep : (ended.session.operate .play).2.1.step =
      (.finished, (ended.session.operate .play).2.1, []) := by
    have hkept := start.course.2.step_withLink (ended.session.link.perform .play).link
    rw [course_ends] at hkept
    have hplayed : (ended.session.operate .play).2.1 =
        start.course.2.withLink (ended.session.link.perform .play).link := by
      show ended.session.withLink _ = _
      rw [hended.session]
      rfl
    rw [hplayed]
    exact hkept
  obtain ⟨houtcome, hpassage, hmachine⟩ :=
    run_of_finished hsteered'.toPlayable hrunning' hstep sleeps
  refine ⟨houtcome, ?_, hmachine⟩
  rw [← Journal.phases_passage, hpassage]
  rfl

/-- A session with the seed program. -/
def seedSession : Session :=
  Session.new (Machine.new (Memory.seeded .unified)) Architecture.unified.defaultTimings

/-- A pause in the first cycle, toggled away and back; then one in the sleep after a writeback. -/
def seedPauses : List (List (List Control)) :=
  [[[.pause], [.toggle, .toggle]], [[], [], [], [.pause, .play, .toggle]]]

/-- The first of these pauses is found at the end of the cycle. -/
theorem seedSession_pauses :
    ((seedSession.operate .play).2.1.run (seedPauses.headD [])).outcome = .paused := by
  rw [seedPauses, List.headD_cons, Session.run, runFrom_ran rfl, runFrom_ran rfl,
    runFrom_ran_nil rfl, runFrom_ran_nil rfl, runFrom_over rfl]
  rfl

/-- The seed program comes to the same with these pauses as without. -/
theorem seedSession_playOut :
    ((seedSession.operate .play).2.1.run (seedPauses.headD [])).outcome = .paused ∧
      seedSession.link.Playable ∧
      (∀ sleeps ∈ seedPauses, ∀ turn ∈ sleeps, ∀ c ∈ turn, c.IsSteering) ∧
      let start := (seedSession.operate .play).2.1
      (start.playOut seedPauses).SameCourse (start.run []) := by
  have hlink : seedSession.link.Playable := ⟨nofun, by decide⟩
  have hschedule : ∀ sleeps ∈ seedPauses, ∀ turn ∈ sleeps, ∀ c ∈ turn, c.IsSteering := by
    simp [seedPauses, Control.IsSteering]
  exact ⟨seedSession_pauses, hlink, hschedule,
    (pausing_transparent seedSession seedPauses hlink hschedule).1⟩

end ToyCpu
