import ToyCpu.Machine

/-!
# The link between host and sequencer

Hosts steer a session through controllers. All controllers share one link: the
run state, which they set directly, and a queue of requests, which the
sequencer takes in the order sent.

* `RunState`, `Request` — what travels over the link.
* `Link` — the run state, the queue and who is at its ends.
* `Control`, `Link.perform` — the operations of a controller, and their replies.
-/

namespace ToyCpu

/-- Whether the host wants the program to run. -/
inductive RunState where
  | idle | running | paused | stopped
  deriving DecidableEq, Repr

/-- What a controller asks of the sequencer. -/
inductive Request where
  /-- Nothing but that a sequencer that waits goes on. -/
  | wake
  /-- Abandon the cycle in flight, and reset the program counter and the registers. -/
  | stop
  | edit (e : Edit)

/-- The state shared by the controllers and the sequencer. -/
structure Link where
  state : RunState
  /-- The requests sent and not yet taken, the oldest first. -/
  queue : List Request
  /-- How many controllers there are. -/
  controllers : Nat
  /-- Whether there still is a sequencer that takes requests. -/
  listening : Bool

/-- An operation of a controller. -/
inductive Control where
  /-- Start, resume or restart. -/
  | play
  | pause
  /-- Pause when running, and play otherwise. -/
  | toggle
  | stop
  /-- Ask for the run state. -/
  | state
  | send (r : Request)
  /-- Make one more controller. -/
  | share
  /-- Give up one controller. -/
  | release

/-- What an operation of a controller answers. -/
inductive Reply where
  | flag (b : Bool)
  | state (s : RunState)
  | done
  /-- How many controllers there are afterwards. -/
  | controllers (n : Nat)
  /-- There is no controller to operate. -/
  | absent
  deriving DecidableEq, Repr

/-- An operation's effect on the link: its reply, and the request that it put into the queue. -/
structure Performed where
  link : Link
  reply : Reply
  sent : Option Request := none

namespace Link

/-- A fresh link with one controller. -/
def new : Link := ⟨.idle, [], 1, true⟩

/-- The link without a sequencer; what is still queued is never taken. -/
def hangUp (l : Link) : Link := { l with listening := false }

/-- Puts a request into the queue, if anybody takes it. -/
def post (l : Link) (r : Request) : Link × Option Request :=
  if l.listening then ({ l with queue := l.queue ++ [r] }, some r) else (l, none)

/-- Sets the run state to running and wakes the sequencer. -/
def play (l : Link) : Link × Option Request := post { l with state := .running } .wake

/-- An operation of a controller that exists. -/
def operate (l : Link) : Control → Performed
  | .play =>
    if l.state = .running then ⟨l, .flag false, none⟩
    else
      let (link, sent) := l.play
      ⟨link, .flag true, sent⟩
  | .pause =>
    if l.state = .running then ⟨{ l with state := .paused }, .flag true, none⟩
    else ⟨l, .flag false, none⟩
  | .toggle =>
    if l.state = .running then ⟨{ l with state := .paused }, .state .paused, none⟩
    else
      let (link, sent) := l.play
      ⟨link, .state .running, sent⟩
  | .stop =>
    let (link, sent) := post { l with state := .stopped } .stop
    ⟨link, .done, sent⟩
  | .state => ⟨l, .state l.state, none⟩
  | .send r =>
    let (link, sent) := l.post r
    ⟨link, .flag sent.isSome, sent⟩
  | .share => ⟨{ l with controllers := l.controllers + 1 }, .controllers (l.controllers + 1), none⟩
  | .release => ⟨{ l with controllers := l.controllers - 1 }, .controllers (l.controllers - 1), none⟩

/-- An operation, which needs a controller. Where none is left there is nothing to operate,
to copy or to give up. -/
def perform (l : Link) (c : Control) : Performed :=
  if l.controllers = 0 then
    match c with
    | .share | .release => ⟨l, .controllers 0, none⟩
    | _ => ⟨l, .absent, none⟩
  else l.operate c

end Link

end ToyCpu
