import ToyCpu.Proofs.Frame
import ToyCpu.Session.Interact

/-!
# What can happen to a session

Steps, runs, waits and controllers all act on a session through a handful of moves, and each
move says in the journal what it was. A property of everything that a session can go through
is therefore shown for one move at a time.

* `Move` — one thing that happens to a session, and what the journal says about it.
* `Reaches` — any number of moves, one after the other.
* `Session.step_reaches`, `Session.applyPending_reaches`, `Session.wait_reaches`,
  `Session.run_reaches`, `Session.operate_reaches` — every action is made of moves.
* `Session.performAll_reaches` — so are actions in any order.
* `Session.requests_of_reaches` — each request sent is carried out once, in the order sent.
-/

namespace ToyCpu

/-- Entries that come without any change to the session. A run that ends because it finds the
run state stopped is no such remark, since it drops the cycle in flight. -/
def Entry.IsRemark : Entry → Prop
  | .slept _ | .blocked _ | .said _ | .event (.notice _) => True
  | .ended outcome => outcome ≠ .stopped
  | _ => False

theorem Entry.isRemark_ended (outcome : Outcome) (h : outcome ≠ .stopped) :
    (Entry.ended outcome).IsRemark := h

namespace Session

/-- The session with other requests in its queue. -/
def withQueue (s : Session) (rs : List Request) : Session :=
  { s with link := { s.link with queue := rs } }

/-- The session in another run state. -/
def withState (s : Session) (state : RunState) : Session :=
  { s with link := { s.link with state := state } }

end Session

open Session

/-- One thing that happens to a session, with what the journal says about it. -/
inductive Move : Session → Journal → Session → Prop
  /-- A controller is operated. -/
  | operate (s : Session) (c : Control) : Move s (s.operate c).2.2 (s.operate c).2.1
  /-- The oldest request is taken from the queue and carried out. -/
  | handle {s : Session} {r : Request} {rest : List Request} (h : s.link.queue = r :: rest) :
      Move s ((s.withQueue rest).handle r).2 ((s.withQueue rest).handle r).1
  /-- A cycle begins, and its first phase runs. -/
  | begin {s : Session} {c : Cycle} {machine : Machine} (hcycle : s.cycle = none)
      (h : s.begin? = some (c, machine)) :
      Move s (({ s with machine } : Session).runPhase c).2.2
        (({ s with machine } : Session).runPhase c).2.1
  /-- The next phase of the cycle in flight runs. -/
  | phase {s : Session} {c : Cycle} (h : s.cycle = some c) :
      Move s (s.runPhase c).2.2 (s.runPhase c).2.1
  /-- There is no cycle in flight and none to begin, which stops the session. -/
  | runDry {s : Session} (hcycle : s.cycle = none) (h : s.begin? = none) :
      Move s [notice "No more instructions to execute."] (s.withState .stopped)
  /-- A run finds the session stopped, and drops the cycle in flight. -/
  | drop {s : Session} (h : s.link.state = .stopped) :
      Move s [.ended .stopped] { s with cycle := none }
  /-- Something is remarked on. -/
  | remark (s : Session) (e : Entry) (h : e.IsRemark) : Move s [e] s

/-- What a session can come to by moves, with the journal on the way. -/
inductive Session.Reaches (start : Session) : Journal → Session → Prop
  | refl : Reaches start [] start
  | tail {j j' : Journal} {s s' : Session} (h : Reaches start j s) (hmove : Move s j' s') :
      Reaches start (j ++ j') s'

namespace Session

variable {s s' s'' : Session} {j j' : Journal}

/-- One move is reached at once. -/
theorem Reaches.move (h : Move s j s') : s.Reaches j s' :=
  .tail .refl h

/-- What is reached from what has been reached is reached, and the journals come one after the
other. -/
theorem Reaches.trans (h : s.Reaches j s') (h' : s'.Reaches j' s'') : s.Reaches (j ++ j') s'' := by
  -- the later moves are added one by one to the earlier ones
  induction h' with
  | refl =>
    rw [List.append_nil]
    exact h
  | tail _ hmove ih =>
    rw [← List.append_assoc]
    exact ih.tail hmove

/-! ### Requests -/

theorem operate_reaches (s : Session) (c : Control) :
    s.Reaches (s.operate c).2.2 (s.operate c).2.1 :=
  .move (.operate s c)

/-- A turn of a controller is a move for each operation. -/
theorem operateAll_reaches (s : Session) (cs : List Control) :
    s.Reaches (s.operateAll cs).2 (s.operateAll cs).1 := by
  induction cs generalizing s with
  | nil => exact .refl
  | cons c rest ih => exact (s.operate_reaches c).trans (ih _)

theorem handle_edit (s : Session) (e : Edit) :
    s.handle (.edit e) = ({ s with machine := (s.machine.apply e).1 },
      .handled (.edit e) :: (s.machine.apply e).2.toList.map notice) := rfl

/-- A request is carried out the same whatever is queued behind it. -/
theorem handle_withQueue_nil (s : Session) (r : Request) (rs : List Request) :
    (s.withQueue []).handle r
      = (((s.withQueue rs).handle r).1.withQueue [], ((s.withQueue rs).handle r).2) := by
  cases r with
  | wake => rfl
  | stop => rfl
  | edit e =>
    rw [handle_edit, handle_edit]
    rfl

/-- Taking all requests is taking the first and then all others. -/
theorem applyPending_cons {r : Request} {rest : List Request} (h : s.link.queue = r :: rest) :
    s.applyPending
      = (((s.withQueue rest).handle r).1.applyPending.1,
        ((s.withQueue rest).handle r).2 ++ ((s.withQueue rest).handle r).1.applyPending.2) := by
  -- all requests are taken before the first is carried out, which the request does not notice
  have hfirst := s.handle_withQueue_nil r rest
  have hrest : ((s.withQueue rest).handle r).1.link.queue = rest := by
    rw [handle_link]
    rfl
  simp only [applyPending, h, hrest, handleAll]
  simp only [clearQueue, withQueue] at hfirst ⊢
  rw [hfirst]

/-- A wait takes the oldest request, and leaves the others queued. -/
theorem wait_cons {r : Request} {rest : List Request} (h : s.link.queue = r :: rest) :
    s.wait = (.heard, (s.withQueue rest).handle r) := by
  simp only [wait, h, withQueue]

/-- Without a request a wait blocks while there is a controller, and is over when there is none. -/
theorem wait_nil (h : s.link.queue = []) :
    s.wait = if s.link.controllers = 0 then (.deserted, s, [])
      else (.pending, s, [.blocked s.link.state]) := by
  simp only [wait, h]

/-- All requests are taken by as many moves. -/
theorem applyPending_reaches (s : Session) : s.Reaches s.applyPending.2 s.applyPending.1 := by
  -- by induction on the queue as it stands now: nothing that is carried out adds to it
  generalize hq : s.link.queue = rs
  induction rs generalizing s with
  | nil =>
    rw [applyPending_of_queue_nil s hq]
    exact .refl
  | cons r rest ih =>
    rw [applyPending_cons hq]
    refine (Reaches.move (.handle hq)).trans (ih _ ?_)
    rw [handle_link]
    rfl

/-- A wait is a move, or none where every controller is gone. -/
theorem wait_reaches (s : Session) : s.Reaches s.wait.2.2 s.wait.2.1 := by
  cases hq : s.link.queue with
  | cons r rest =>
    rw [wait_cons hq]
    exact .move (.handle hq)
  | nil =>
    rw [wait_nil hq]
    split
    · exact .refl
    · exact .move (.remark s _ trivial)

/-! ### Phases -/

/-- A step runs a phase of the cycle in flight, or begins a cycle, or finds nothing to do. -/
theorem step_cases (s : Session) :
    (∃ c, s.cycle = some c ∧ s.step = s.runPhase c) ∨
    (∃ c machine, s.cycle = none ∧ s.begin? = some (c, machine) ∧
      s.step = ({ s with machine } : Session).runPhase c) ∨
    (s.cycle = none ∧ s.begin? = none ∧ s.step = (.finished, s, [])) := by
  cases hcycle : s.cycle with
  | some c => exact .inl ⟨c, rfl, by rw [step, hcycle]⟩
  | none =>
    cases hbegin : s.begin? with
    | some b => exact .inr (.inl ⟨b.1, b.2, rfl, rfl, by rw [step, hcycle, hbegin]⟩)
    | none => exact .inr (.inr ⟨rfl, rfl, by rw [step, hcycle, hbegin]⟩)

theorem step_inFlight {s : Session} {c : Cycle} (h : s.cycle = some c) : s.step = s.runPhase c := by
  rw [step, h]

theorem step_begin {s : Session} {c : Cycle} {machine : Machine} (hcycle : s.cycle = none)
    (hbegin : s.begin? = some (c, machine)) :
    s.step = ({ s with machine } : Session).runPhase c := by
  rw [step, hcycle, hbegin]

theorem step_dry {s : Session} (hcycle : s.cycle = none) (hbegin : s.begin? = none) :
    s.step = (.finished, s, []) := by
  rw [step, hcycle, hbegin]

/-- A step is the move of its phase. -/
theorem step_reaches (s : Session) : s.Reaches s.step.2.2 s.step.2.1 := by
  rcases s.step_cases with ⟨c, hcycle, hstep⟩ | ⟨c, machine, hcycle, hbegin, hstep⟩ | ⟨-, -, hstep⟩
  · rw [hstep]
    exact .move (.phase hcycle)
  · rw [hstep]
    exact .move (.begin hcycle hbegin)
  · rw [hstep]
    exact .refl

/-- A step that finds nothing to do leaves the session as it is. -/
theorem step_eq_finished (h : s.step.1 = .finished) :
    s.cycle = none ∧ s.begin? = none ∧ s.step = (.finished, s, []) := by
  rcases s.step_cases with ⟨c, -, hstep⟩ | ⟨c, machine, -, -, hstep⟩ | hstep
  · rw [hstep] at h
    cases h
  · rw [hstep] at h
    cases h
  · exact hstep

/-! ### Runs -/

/-- A phase is a move and the sleep after it another, and so are the end of the program and the end
of the run. -/
theorem advance_reaches (s : Session) :
    (∀ s' j, s.advance = .ran s' j → s.Reaches j s') ∧
      (∀ o s' j, s.advance = .over o s' j → s.Reaches (j ++ [.ended o]) s') := by
  unfold advance
  split
  · next p duration s₂ j₂ hstep =>
    refine ⟨fun s' j h => ?_, fun o s' j h => nomatch h⟩
    cases h
    have hreach := s.step_reaches
    rw [hstep] at hreach
    exact hreach.tail (.remark _ (.slept duration) trivial)
  · next s₂ j₂ hstep =>
    refine ⟨fun s' j h => (nomatch h), fun o s' j h => ?_⟩
    cases h
    -- a step that finds nothing to do changes nothing, so only the run state is new
    obtain ⟨hcycle, hbegin, hfin⟩ := step_eq_finished (congrArg Prod.fst hstep)
    rw [hfin] at hstep
    cases hstep
    exact (Reaches.move (.runDry hcycle hbegin)).tail
      (.remark _ _ (Entry.isRemark_ended .finished (by decide)))

/-- Whatever a run finds at a boundary, it goes on or ends by moves. -/
theorem atBoundary_reaches (s : Session) :
    (∀ s' j, s.atBoundary = .ran s' j → s.Reaches j s') ∧
      (∀ o s' j, s.atBoundary = .over o s' j → s.Reaches (j ++ [.ended o]) s') := by
  unfold atBoundary
  split
  · exact s.advance_reaches
  · split
    · exact s.advance_reaches
    · refine ⟨fun s' j h => (nomatch h), fun o s' j h => ?_⟩
      cases h
      exact (Reaches.move (.remark s (notice "Execution paused.") trivial)).tail
        (.remark s _ (Entry.isRemark_ended .paused (by decide)))
  · next hstate =>
    refine ⟨fun s' j h => (nomatch h), fun o s' j h => ?_⟩
    cases h
    exact .move (.drop hstate)
  · refine ⟨fun s' j h => (nomatch h), fun o s' j h => ?_⟩
    cases h
    exact .move (.remark s _ (Entry.isRemark_ended .idle (by decide)))

/-- The rest of a run is made of moves, with the turns of the host among them. -/
theorem runFrom_reaches (s : Session) (sleeps : List (List Control)) :
    s.Reaches (s.runFrom sleeps).journal (s.runFrom sleeps).session := by
  -- one case for each end of a round: the run is over, goes on by itself, or lets the host act
  -- first
  fun_induction runFrom s sleeps with
  | case1 s sleeps outcome s' j h =>
    rw [List.append_assoc]
    exact s.applyPending_reaches.trans (s.applyPending.1.atBoundary_reaches.2 _ _ _ h)
  | case2 s s' j h ih =>
    exact (s.applyPending_reaches.trans (s.applyPending.1.atBoundary_reaches.1 _ _ h)).trans ih
  | case3 s s' j h turn later ih =>
    exact ((s.applyPending_reaches.trans (s.applyPending.1.atBoundary_reaches.1 _ _ h)).trans
      (s'.operateAll_reaches turn)).trans ih

theorem startNotice_reaches (s : Session) : s.Reaches s.startNotice s := by
  unfold startNotice
  split
  · exact .move (.remark s _ trivial)
  · exact .refl

theorem run_reaches (s : Session) (sleeps : List (List Control)) :
    s.Reaches (s.run sleeps).journal (s.run sleeps).session :=
  (s.applyPending_reaches.trans (startNotice_reaches _)).trans (runFrom_reaches _ sleeps)

/-! ### Actions -/

/-- Every action is made of moves. -/
theorem perform_reaches (s : Session) (a : Action) :
    s.Reaches (s.perform a).2.2 (s.perform a).2.1 := by
  cases a with
  | operate c => exact s.operate_reaches c
  | step => exact s.step_reaches
  | applyPending => exact s.applyPending_reaches
  | wait => exact s.wait_reaches
  | run sleeps => exact s.run_reaches sleeps

/-- Whatever is done to a session from outside, in any order, is made of moves. -/
theorem performAll_reaches (s : Session) (actions : List Action) :
    s.Reaches (s.performAll actions).2 (s.performAll actions).1 := by
  induction actions generalizing s with
  | nil => exact .refl
  | cons a rest ih => exact (s.perform_reaches a).trans (ih _)

/-! ### Every request once, in the order sent -/

end Session

/-- The request that an entry put into the queue. -/
def Entry.sent? : Entry → Option Request
  | .operated _ _ sent => sent
  | _ => none

/-- The request that an entry took from the queue. -/
def Entry.handled? : Entry → Option Request
  | .handled r => some r
  | _ => none

namespace Journal

/-- The requests sent, in order. -/
def sent (j : Journal) : List Request := j.filterMap Entry.sent?

/-- The requests carried out, in order. -/
def handled (j : Journal) : List Request := j.filterMap Entry.handled?

theorem sent_append (j j' : Journal) : (j ++ j').sent = j.sent ++ j'.sent :=
  List.filterMap_append

theorem handled_append (j j' : Journal) : (j ++ j').handled = j.handled ++ j'.handled :=
  List.filterMap_append

/-- Entries that neither send nor take a request. -/
def Unrequesting (j : Journal) : Prop := ∀ e ∈ j, e.sent? = none ∧ e.handled? = none

/-- In such entries nothing is sent or carried out. -/
theorem Unrequesting.sent_eq {j : Journal} (h : j.Unrequesting) : j.sent = [] :=
  List.filterMap_eq_nil_iff.mpr fun e he => (h e he).1

theorem Unrequesting.handled_eq {j : Journal} (h : j.Unrequesting) : j.handled = [] :=
  List.filterMap_eq_nil_iff.mpr fun e he => (h e he).2

end Journal

namespace Link

/-- An operation sets the run state and the number of controllers, or it sets the run state and
posts a request. Without a request none sets the run state to running. -/
theorem perform_cases (l : Link) (c : Control) :
    (∃ state controllers, (l.perform c).link = { l with state, controllers } ∧
      (l.perform c).sent = none ∧ (state = .running → l.state = .running)) ∨
    (∃ state r, (l.perform c).link = (post { l with state } r).1 ∧
      (l.perform c).sent = (post { l with state } r).2) := by
  unfold perform
  split
  · cases c <;> exact .inl ⟨l.state, l.controllers, rfl, rfl, id⟩
  · cases c with
    | play =>
      -- while it runs there is nobody to wake up, so nothing is sent
      by_cases hrunning : l.state = .running
      · rw [operate, if_pos hrunning]
        exact .inl ⟨l.state, l.controllers, rfl, rfl, id⟩
      · rw [operate, if_neg hrunning]
        exact .inr ⟨.running, .wake, rfl, rfl⟩
    | pause =>
      by_cases hrunning : l.state = .running
      · rw [operate, if_pos hrunning]
        exact .inl ⟨.paused, l.controllers, rfl, rfl, nofun⟩
      · rw [operate, if_neg hrunning]
        exact .inl ⟨l.state, l.controllers, rfl, rfl, id⟩
    | toggle =>
      by_cases hrunning : l.state = .running
      · rw [operate, if_pos hrunning]
        exact .inl ⟨.paused, l.controllers, rfl, rfl, nofun⟩
      · rw [operate, if_neg hrunning]
        exact .inr ⟨.running, .wake, rfl, rfl⟩
    | stop => exact .inr ⟨.stopped, .stop, rfl, rfl⟩
    | send r => exact .inr ⟨l.state, r, rfl, rfl⟩
    | state => exact .inl ⟨l.state, l.controllers, rfl, rfl, id⟩
    | share => exact .inl ⟨l.state, l.controllers + 1, rfl, rfl, id⟩
    | release => exact .inl ⟨l.state, l.controllers - 1, rfl, rfl, id⟩

/-- A request is posted last in the queue, and nothing else changes. -/
theorem post_eq (l : Link) (r : Request) :
    (l.post r).1 = { l with queue := l.queue ++ (l.post r).2.toList } := by
  unfold post
  split
  · rfl
  · show l = { l with queue := l.queue ++ [] }
    rw [List.append_nil]

/-- What an operation sends is last in the queue. -/
theorem perform_queue (l : Link) (c : Control) :
    (l.perform c).link.queue = l.queue ++ (l.perform c).sent.toList := by
  rcases l.perform_cases c with ⟨state, controllers, hlink, hsent, -⟩ | ⟨state, r, hlink, hsent⟩
  · rw [hlink, hsent]
    exact (List.append_nil _).symm
  · rw [hlink, hsent, post_eq]

/-- No operation hangs up. -/
theorem perform_listening (l : Link) (c : Control) :
    (l.perform c).link.listening = l.listening := by
  rcases l.perform_cases c with ⟨state, controllers, hlink, -⟩ | ⟨state, r, hlink, -⟩
  · rw [hlink]
  · rw [hlink, post_eq]

end Link

namespace Session

/-- An account of an execution: the instruction issued, and its faults. -/
theorem phaseResult_journal (m : Machine) (c : Cycle) :
    ∀ e ∈ (phaseResult m c).journal,
      (∃ inst, e = .issued inst) ∨ ∃ a f text, e = .fault a f text := by
  intro e he
  unfold phaseResult at he
  split at he
  · cases he
  · cases he
  · unfold executePhase at he
    dsimp only at he
    split at he
    · rcases List.mem_cons.mp he with rfl | he
      · exact .inl ⟨_, rfl⟩
      · obtain ⟨f, -, rfl⟩ := List.mem_map.mp he
        exact .inr ⟨_, _, _, rfl⟩
    · rcases List.mem_cons.mp he with rfl | he
      · exact .inl ⟨_, rfl⟩
      · obtain rfl := List.mem_singleton.mp he
        exact .inr ⟨_, _, _, rfl⟩
  · unfold writebackPhase at he
    split at he <;> cases he

/-- A phase writes down its execution and, last, its own event. -/
theorem runPhase_journal (s : Session) (c : Cycle) :
    ∀ e ∈ (s.runPhase c).2.2,
      (∃ inst, e = .issued inst) ∨ (∃ a f text, e = .fault a f text) ∨
        ∃ event, e = .event event := by
  intro e he
  rcases List.mem_append.mp he with he | he
  · exact (phaseResult_journal s.machine c e he).imp_right .inl
  · exact .inr (.inr ⟨_, List.mem_singleton.mp he⟩)

/-- No phase sends or takes a request. -/
theorem runPhase_unrequesting (s : Session) (c : Cycle) :
    Journal.Unrequesting (s.runPhase c).2.2 := by
  intro e he
  rcases s.runPhase_journal c e he with ⟨inst, rfl⟩ | ⟨a, f, text, rfl⟩ | ⟨event, rfl⟩
  · exact ⟨rfl, rfl⟩
  · exact ⟨rfl, rfl⟩
  · exact ⟨rfl, rfl⟩

/-- Carrying out a request sends none, and no other is carried out with it. -/
theorem handle_journal (s : Session) (r : Request) :
    ∃ messages : List String, (s.handle r).2 = .handled r :: messages.map notice := by
  cases r with
  | wake => exact ⟨[], rfl⟩
  | stop => exact ⟨["Execution stopped and registers reset (memory preserved)."], rfl⟩
  | edit e => exact ⟨(s.machine.apply e).2.toList, congrArg Prod.snd (handle_edit s e)⟩

/-- What carrying out a request records: the request, and notices. -/
theorem handle_entries (s : Session) (r : Request) :
    ∀ e ∈ (s.handle r).2, e = .handled r ∨ ∃ message, e = notice message := by
  intro e he
  obtain ⟨messages, hj⟩ := s.handle_journal r
  rw [hj] at he
  rcases List.mem_cons.mp he with rfl | he
  · exact .inl rfl
  · obtain ⟨message, -, rfl⟩ := List.mem_map.mp he
    exact .inr ⟨message, rfl⟩

/-- Many requests record nothing else either. -/
theorem handleAll_entries (s : Session) (rs : List Request) :
    ∀ e ∈ (s.handleAll rs).2, (∃ r, e = .handled r) ∨ ∃ message, e = notice message := by
  induction rs generalizing s with
  | nil => exact fun e he => absurd he List.not_mem_nil
  | cons r rest ih =>
    intro e he
    rcases List.mem_append.mp he with he | he
    · exact (s.handle_entries r e he).imp_left fun heq => ⟨r, heq⟩
    · exact ih (s.handle r).1 e he

theorem notices_unrequesting (messages : List String) :
    Journal.Unrequesting (messages.map notice) := by
  intro e he
  obtain ⟨message, -, rfl⟩ := List.mem_map.mp he
  exact ⟨rfl, rfl⟩

theorem handle_sent (s : Session) (r : Request) : (s.handle r).2.sent = [] := by
  obtain ⟨messages, hj⟩ := s.handle_journal r
  rw [hj]
  exact (notices_unrequesting messages).sent_eq

/-- Carrying out a request takes just that one. -/
theorem handle_handled (s : Session) (r : Request) : (s.handle r).2.handled = [r] := by
  obtain ⟨messages, hj⟩ := s.handle_journal r
  rw [hj]
  exact congrArg (r :: ·) (notices_unrequesting messages).handled_eq

theorem unrequesting_of_isRemark {e : Entry} (h : e.IsRemark) : Journal.Unrequesting [e] := by
  intro e' he'
  obtain rfl := List.mem_singleton.mp he'
  cases e' with
  | operated | handled => cases h
  | _ => exact ⟨rfl, rfl⟩

/-- What is queued before and sent meanwhile is what is carried out meanwhile and still queued
after, in the same order. -/
theorem move_requests {s s' : Session} {j : Journal} (h : Move s j s') :
    s.link.queue ++ j.sent = j.handled ++ s'.link.queue := by
  -- most moves leave the queue and have nothing to do with requests
  have hquiet : ∀ {j : Journal} {q q' : List Request}, j.Unrequesting → q = q' →
      q ++ j.sent = j.handled ++ q' := by
    intro j q q' hj hq
    rw [hj.sent_eq, hj.handled_eq, hq, List.append_nil, List.nil_append]
  cases h with
  | operate c =>
    show s.link.queue ++ _ = [] ++ (s.link.perform c).link.queue
    rw [Link.perform_queue, List.nil_append]
    -- one entry, with at most one request in it
    show s.link.queue ++ List.filterMap id [(s.link.perform c).sent] = _
    cases (s.link.perform c).sent <;> rfl
  | @handle r rest hq =>
    rw [handle_sent, handle_handled, handle_link, hq]
    exact List.append_nil _
  | begin => exact hquiet (runPhase_unrequesting _ _) rfl
  | phase => exact hquiet (runPhase_unrequesting _ _) rfl
  | runDry => exact hquiet (unrequesting_of_isRemark trivial) rfl
  | drop =>
    refine hquiet (fun e he => ?_) rfl
    obtain rfl := List.mem_singleton.mp he
    exact ⟨rfl, rfl⟩
  | remark e he => exact hquiet (unrequesting_of_isRemark he) rfl

/-- Requests are carried out in the order sent, each once, and none is lost. -/
theorem requests_of_reaches {s s' : Session} {j : Journal} (h : s.Reaches j s') :
    s.link.queue ++ j.sent = j.handled ++ s'.link.queue := by
  induction h with
  | refl => simp [Journal.sent, Journal.handled]
  | tail _ hmove ih =>
    -- what is still queued in the middle is what the last move begins with
    rw [Journal.sent_append, Journal.handled_append, ← List.append_assoc, ih, List.append_assoc,
      move_requests hmove, List.append_assoc]

/-! ### Who takes requests -/

/-- No move hangs up on the controllers. -/
theorem listening_of_move {s s' : Session} {j : Journal} (h : Move s j s') :
    s'.link.listening = s.link.listening := by
  cases h with
  | operate c => exact s.link.perform_listening c
  | handle =>
    rw [handle_link]
    rfl
  | begin | phase | runDry | drop | remark => rfl

theorem listening_of_reaches {s s' : Session} {j : Journal} (h : s.Reaches j s') :
    s'.link.listening = s.link.listening := by
  induction h with
  | refl => rfl
  | tail _ hmove ih => exact (listening_of_move hmove).trans ih

end Session

end ToyCpu
