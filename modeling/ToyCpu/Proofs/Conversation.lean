import ToyCpu.Proofs.RunStates

/-!
# Conversations lose nothing

A host reaches a session in two ways, by the run state and by the queue of requests. A
conversation looks at the one while it runs and at the other while it waits. Still it misses
neither, because whoever sets the run state to running leaves a request behind, and between that
request and the next wait there is a run.

* `Link.Wakeful` — a link that never says to run without a request to wake up for.
* `Session.Talks` — moves that heed the run state and leave no request behind.
* `Session.interact_talks`, `Session.await_talks` — a conversation is made of such moves.
* `Session.handled_prefix` — requests are carried out in the order sent, none before it is sent.
* `conversation_loses_nothing` — every request is carried out, and no wait misses the start.
-/

namespace ToyCpu

open Session

/-! ### Links that wake up who waits -/

/-- Requests are taken, and the link does not say to run while there is none to wake up for. -/
structure Link.Wakeful (l : Link) : Prop where
  listening : l.listening = true
  awake : l.state = .running → l.queue ≠ []

/-- Every operation keeps a link wakeful: to set the run state to running is to send a request. -/
theorem Link.Wakeful.perform {l : Link} (h : l.Wakeful) (c : Control) :
    (l.perform c).link.Wakeful where
  listening := (l.perform_listening c).trans h.listening
  awake hrunning := by
    rcases l.perform_cases c with ⟨state, controllers, hlink, -, hstate⟩ | ⟨state, r, hlink, -⟩
    · rw [hlink] at hrunning ⊢
      exact h.awake (hstate hrunning)
    · rw [hlink, post, if_pos h.listening]
      exact List.append_ne_nil_of_right_ne_nil _ (List.cons_ne_nil r [])

namespace Session

variable {s s' s'' : Session} {j j' : Journal}

theorem operateAll_wakeful (h : s.link.Wakeful) (cs : List Control) :
    (s.operateAll cs).1.link.Wakeful := by
  induction cs generalizing s with
  | nil => exact h
  | cons c rest ih => exact ih (s := (s.operate c).2.1) (h.perform c)

/-- A run leaves the link wakeful, since it does not end while the session is running. -/
theorem run_wakeful (h : s.link.listening = true) (sleeps : List (List Control)) :
    (s.run sleeps).session.link.Wakeful where
  listening := (listening_of_reaches (s.run_reaches sleeps)).trans h
  awake hrunning := absurd hrunning (s.run_justified sleeps).session.not_running

/-! ### Conversations -/

/-- Moves that heed the run state, after which no request is left. -/
structure Talks (s : Session) (j : Journal) (s' : Session) : Prop extends s.Heedful j s' where
  queue : s'.link.queue = []

/-- What came before may leave requests behind, if what follows takes them. -/
theorem Heedful.talks (h : s.Heedful j s') (h' : s'.Talks j' s'') : s.Talks (j ++ j') s'' where
  toHeedful := h.trans h'.toHeedful
  queue := h'.queue

/-- No wait begins while the session is running. -/
theorem wait_heedful (h : s.link.Wakeful) : s.Heedful s.wait.2.2 s.wait.2.1 := by
  have hreaches := s.wait_reaches
  cases hq : s.link.queue with
  | cons r rest =>
    rw [wait_cons hq] at hreaches ⊢
    refine heedful_of_isSteady hreaches (handle_isSteady _ r) ?_
    rw [handle_link]
    rfl
  | nil =>
    rw [wait_nil hq] at hreaches ⊢
    split
    · exact .refl s
    · next hcontrolled =>
      rw [if_neg hcontrolled] at hreaches
      -- a wakeful link with an empty queue does not say to run
      exact { reaches := hreaches, heeds := ⟨⟨rfl, fun hrunning => h.awake hrunning hq⟩, trivial⟩,
              state := rfl }

/-- What is said changes nothing. -/
theorem saying_heedful (s : Session) (lines : List String) : s.Heedful (saying lines) s := by
  induction lines with
  | nil => exact .refl s
  | cons line rest ih =>
    have hsaid : s.Heedful [.said line] s :=
      { reaches := .move (.remark s _ trivial), heeds := ⟨trivial, trivial⟩, state := rfl }
    exact hsaid.trans ih

mutual

/-- A conversation from a run on. -/
theorem interact_talks (s : Session) (sleeps gaps : List (List Control)) (turns : List Turn)
    (hs : Coherent s) (hlistening : s.link.listening = true) :
    s.Talks (s.interact sleeps gaps turns).2 (s.interact sleeps gaps turns).1 := by
  have hrun := run_heedful hs sleeps
  have hcoherent := coherent_of_reaches hs hrun.reaches
  have hwakeful := run_wakeful hlistening sleeps
  cases hgaps : gaps with
  | nil =>
    rw [interact]
    exact hrun.talks (await_talks _ _ [] turns hcoherent hwakeful (run_queue s sleeps))
  | cons gap later =>
    -- between the run and the wait the host may do something, which the wait then finds
    have hgap := hrun.trans ((s.run sleeps).session.operateAll_heedful gap)
    have hwakeful' := operateAll_wakeful hwakeful gap
    rw [interact]
    dsimp only
    split
    · next hqueue =>
      exact hgap.talks (await_talks _ _ later turns (coherent_of_reaches hs hgap.reaches)
        hwakeful' hqueue)
    · have hwait := hgap.trans (wait_heedful hwakeful')
      exact hwait.talks (interact_talks _ _ later turns (coherent_of_reaches hs hwait.reaches)
        ((listening_of_reaches (wait_reaches _)).trans hwakeful'.listening))
termination_by (gaps.length + turns.length, 1)

/-- A conversation from a wait on. -/
theorem await_talks (s : Session) (sleeps gaps : List (List Control)) (turns : List Turn)
    (hs : Coherent s) (hwakeful : s.link.Wakeful) (hqueue : s.link.queue = []) :
    s.Talks (s.await sleeps gaps turns).2 (s.await sleeps gaps turns).1 := by
  have hwait := wait_heedful hwakeful
  by_cases hdeserted : s.link.controllers = 0
  · have hwaited : s.wait = (.deserted, s, []) := by rw [wait_nil hqueue, if_pos hdeserted]
    rw [await, hwaited]
    exact { toHeedful := .refl s, queue := hqueue }
  · -- the host acts only once the wait has begun, and wakes it up if it sends something
    have hwaited : s.wait = (.pending, s, [.blocked s.link.state]) := by
      rw [wait_nil hqueue, if_neg hdeserted]
    rw [hwaited] at hwait
    cases hturns : turns with
    | nil =>
      rw [await, hwaited]
      exact { toHeedful := hwait, queue := hqueue }
    | cons turn later =>
      have hturn := (hwait.trans (saying_heedful s turn.said)).trans
        (s.operateAll_heedful turn.controls)
      have hwakeful' := operateAll_wakeful hwakeful turn.controls
      rw [await, hwaited]
      dsimp only
      split
      · next hqueue' =>
        exact hturn.talks (await_talks _ sleeps gaps later (coherent_of_reaches hs hturn.reaches)
          hwakeful' hqueue')
      · have hheard := hturn.trans (wait_heedful hwakeful')
        exact hheard.talks (interact_talks _ sleeps gaps later
          (coherent_of_reaches hs hheard.reaches)
          ((listening_of_reaches (wait_reaches _)).trans hwakeful'.listening))
termination_by (gaps.length + turns.length, 0)

end

/-- A conversation heeds the run state, and leaves no request behind. -/
theorem converse_talks (hs : Coherent s) (hlistening : s.link.listening = true) (host : Host) :
    s.Talks (s.converse host).2 (s.converse host).1 :=
  interact_talks s host.sleeps host.gaps host.turns hs hlistening

end Session

/-! ### What becomes of a request -/

/-- A controller is told that a request was sent exactly if it was. -/
def Entry.Acknowledges : Entry → Prop
  | .operated (.send r) reply sent => reply = .flag true ↔ sent = some r
  | _ => True

/-- The reply of a controller tells whether its request was sent. -/
theorem Link.perform_acknowledges (l : Link) (c : Control) :
    (Entry.operated c (l.perform c).reply (l.perform c).sent).Acknowledges := by
  cases c with
  | send r =>
    show (l.perform (.send r)).reply = .flag true ↔ (l.perform (.send r)).sent = some r
    unfold perform
    split
    · simp
    · by_cases hlistening : l.listening = true
      · simp [operate, post, hlistening]
      · simp [operate, post, hlistening]
  | _ => trivial

namespace Session

variable {s s' : Session} {j : Journal}

theorem acknowledges_of_move (h : Move s j s') : ∀ e ∈ j, e.Acknowledges := by
  intro e he
  -- nothing that a phase records is an operation
  have hphase : ∀ (s : Session) (c : Cycle), e ∈ (s.runPhase c).2.2 → e.Acknowledges := by
    intro s c he
    rcases s.runPhase_journal c e he with ⟨inst, rfl⟩ | ⟨a, f, text, rfl⟩ | ⟨event, rfl⟩
    · trivial
    · trivial
    · trivial
  cases h with
  | operate c =>
    obtain rfl := List.mem_singleton.mp he
    exact s.link.perform_acknowledges c
  | @handle r =>
    rcases handle_entries _ r e he with rfl | ⟨message, rfl⟩
    · trivial
    · trivial
  | begin | phase => exact hphase _ _ he
  | runDry | drop =>
    obtain rfl := List.mem_singleton.mp he
    trivial
  | remark e' hremark =>
    obtain rfl := List.mem_singleton.mp he
    cases e with
    | operated => cases hremark
    | _ => trivial

theorem acknowledges_of_reaches (h : s.Reaches j s') : ∀ e ∈ j, e.Acknowledges := by
  induction h with
  | refl => exact fun e he => absurd he List.not_mem_nil
  | tail _ hmove ih =>
    intro e he
    rcases List.mem_append.mp he with he | he
    · exact ih e he
    · exact acknowledges_of_move hmove e he

/-- A move carries out at most the oldest request. -/
theorem handled_of_move (h : Move s j s') : j.handled <+: s.link.queue := by
  have hnone : j.Unrequesting → j.handled <+: s.link.queue := by
    intro hj
    rw [hj.handled_eq]
    exact List.nil_prefix
  cases h with
  | operate c => exact List.nil_prefix
  | @handle r rest hq =>
    rw [handle_handled, hq]
    exact ⟨rest, rfl⟩
  | begin | phase => exact hnone (runPhase_unrequesting _ _)
  | runDry => exact hnone (unrequesting_of_isRemark trivial)
  | drop => exact List.nil_prefix
  | remark e he => exact hnone (unrequesting_of_isRemark he)

/-- At every moment the requests carried out so far are the first ones that were queued or sent
so far. -/
theorem handled_prefix (h : s.Reaches j s') {before after : Journal} (hj : j = before ++ after) :
    before.handled <+: s.link.queue ++ before.sent := by
  induction h generalizing before after with
  | refl =>
    obtain ⟨rfl, -⟩ := List.nil_eq_append_iff.mp hj
    exact List.nil_prefix
  | @tail j₁ j₂ s₁ s₂ hreach hmove ih =>
    rcases List.append_eq_append_iff.mp hj with ⟨later, rfl, hj₂⟩ | ⟨later, hj₁, -⟩
    · -- within a move only the oldest request is carried out, which the moves before it left
      have hlater : Journal.handled later <+: s₁.link.queue := by
        refine List.IsPrefix.trans ?_ (handled_of_move hmove)
        rw [hj₂, Journal.handled_append]
        exact List.prefix_append _ _
      rw [Journal.sent_append, Journal.handled_append, ← List.append_assoc,
        requests_of_reaches hreach, List.append_assoc]
      exact (List.prefix_append_right_inj _).mpr (hlater.trans (List.prefix_append _ _))
    · exact ih hj₁

end Session

/-- A session is made, whatever is done with it first, and then talked with. By the time the
conversation is over every request that a controller was told to be sent has been carried out,
each once and in the order sent, none before it was sent, and no request is left. And whenever
the conversation waits with an empty queue, the run state is not running. -/
theorem conversation_loses_nothing (m : Machine) (timings : Timings) (actions : List Action)
    (host : Host) :
    let before := (Session.new m timings).performAll actions
    let talk := before.1.converse host
    let j := before.2 ++ talk.2
    (∀ (r : Request) (reply : Reply) (sent : Option Request),
      .operated (.send r) reply sent ∈ j → (reply = .flag true ↔ sent = some r)) ∧
      j.sent = j.handled ∧ talk.1.link.queue = [] ∧
      (∀ j₁ j₂ : Journal, j = j₁ ++ j₂ → j₁.handled <+: j₁.sent) ∧
      ∀ (j₁ j₂ : Journal) (state : RunState), talk.2 = j₁ ++ .blocked state :: j₂ →
        state = j₁.runState before.1.link.state ∧ state ≠ .running := by
  intro before talk j
  have hbefore : (Session.new m timings).Reaches before.2 before.1 := performAll_reaches _ actions
  have htalk : before.1.Talks talk.2 talk.1 :=
    converse_talks (coherent_of_reaches (coherent_new m timings) hbefore)
      (listening_of_reaches hbefore) host
  have hj : (Session.new m timings).Reaches j talk.1 := hbefore.trans htalk.reaches
  refine ⟨?_, ?_, htalk.queue, ?_, ?_⟩
  · intro r reply sent he
    exact acknowledges_of_reaches hj _ he
  · have hrequests := requests_of_reaches hj
    rw [htalk.queue, List.append_nil] at hrequests
    exact hrequests
  · intro j₁ j₂ hsplit
    exact handled_prefix hj hsplit
  · intro j₁ j₂ state hsplit
    obtain ⟨hstate, hrunning⟩ := htalk.heeds.isDue hsplit
    exact ⟨hstate, hstate ▸ hrunning⟩

/-- The program's own conversation begins so, with the input at one more controller. -/
example (m : Machine) (timings : Timings) :
    ((Session.new m timings).performAll [.operate .share, .operate .play, .operate .release]).1 =
      ((Session.new m timings).operateAll [.share, .play, .release]).1 := rfl

end ToyCpu
