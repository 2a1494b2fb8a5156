import ToyCpu.Execute
import ToyCpu.Session.Link
import ToyCpu.Trace

/-!
# Sessions

A session runs a machine's program, one phase after the other. Requests are
taken only between phases, so a phase that has begun ends against the state it
began with. Everything that happens is written into a journal.

* `Cycle` — the instruction in flight.
* `Session` — machine, timings, link and the cycle in flight.
* `Outcome` — why a run ended.
* `Entry` — what a journal records.
* `Session.step` — one phase.
* `Session.applyPending`, `Session.wait` — requests taken from the queue.
-/

namespace ToyCpu

/-- An instruction in flight: the text that its cell had when the cycle began, and the phase
that comes next. -/
structure Cycle where
  /-- The number of the instruction, from 1. -/
  number : UInt64
  address : Address
  text : String
  next : Phase
  decoded : Option Instruction

/-- A machine with the program running on it. -/
structure Session where
  machine : Machine
  timings : Timings
  link : Link
  cycle : Option Cycle
  /-- The last address there is has been run; nothing follows until a stop. -/
  pastEnd : Bool

/-- Why a run ended. -/
inductive Outcome where
  | paused | stopped | finished | idle
  deriving DecidableEq, Repr

/-- What happens in a session. -/
inductive Entry where
  /-- A controller's operation, its reply, and the request it queued. -/
  | operated (c : Control) (reply : Reply) (sent : Option Request)
  /-- A request was taken from the queue and carried out. -/
  | handled (r : Request)
  /-- An instruction was handed to the execution unit. -/
  | issued (inst : Instruction)
  /-- A fault of the instruction with the given address and text. -/
  | fault (a : Address) (f : Fault) (text : String)
  /-- Something to report. -/
  | event (e : TraceEvent)
  /-- Time passed between two phases. -/
  | slept (duration : Milliseconds)
  /-- A run ended. -/
  | ended (outcome : Outcome)
  /-- The session waits for a request, in this run state. -/
  | blocked (state : RunState)
  /-- The host tells its user something. -/
  | said (line : String)

/-- What happened, in order. -/
abbrev Journal := List Entry

/-- What one step was. -/
inductive Tick where
  /-- A phase ran, and this much time is to pass before the next. -/
  | phase (p : Phase) (duration : Milliseconds)
  /-- There is nothing to run from the program counter on. -/
  | finished
  deriving DecidableEq, Repr

/-- What waiting for a request came to. -/
inductive Waited where
  /-- A request was taken. -/
  | heard
  /-- None is queued and no controller is left to send one. -/
  | deserted
  /-- None is queued, but one may still be sent. -/
  | pending
  deriving DecidableEq, Repr

namespace Session

/-- A session at the start of a machine's program, with one controller. -/
def new (machine : Machine) (timings : Timings) : Session where
  machine := machine
  timings := timings
  link := .new
  cycle := none
  pastEnd := false

/-- The phase that the cycle in flight runs next. -/
def pendingPhase (s : Session) : Option Phase := s.cycle.map (·.next)

/-! ### Requests -/

/-- A message as it is recorded. -/
def notice (message : String) : Entry := .event (.notice message)

/-- Carries out a request. -/
def handle (s : Session) : Request → Session × Journal
  | .wake => (s, [.handled .wake])
  | .stop =>
    ({ s with machine := s.machine.reset, cycle := none, pastEnd := false },
      [.handled .stop, notice "Execution stopped and registers reset (memory preserved)."])
  | .edit e =>
    let (machine, message) := s.machine.apply e
    ({ s with machine }, .handled (.edit e) :: message.toList.map notice)

/-- Carries out requests in order. -/
def handleAll (s : Session) : List Request → Session × Journal
  | [] => (s, [])
  | r :: rest =>
    let (s₁, j₁) := s.handle r
    let (s₂, j₂) := s₁.handleAll rest
    (s₂, j₁ ++ j₂)

/-- The session with an empty queue. -/
def clearQueue (s : Session) : Session :=
  { s with link := { s.link with queue := [] } }

/-- Takes and carries out every request in the queue. -/
def applyPending (s : Session) : Session × Journal :=
  s.clearQueue.handleAll s.link.queue

/-- Takes and carries out the oldest request. Without one the session waits, unless nobody is
left to send one. -/
def wait (s : Session) : Waited × Session × Journal :=
  match s.link.queue with
  | r :: rest =>
    let (s', j) := { s with link := { s.link with queue := rest } }.handle r
    (.heard, s', j)
  | [] => if s.link.controllers = 0 then (.deserted, s, []) else (.pending, s, [.blocked s.link.state])

/-! ### Phases -/

/-- The next cycle and the machine with that cycle's instruction counted. -/
def begin? (s : Session) : Option (Cycle × Machine) := do
  if s.pastEnd then none
  else
    let a ← s.machine.memory.nextInstruction? s.machine.pc
    let text ← s.machine.memory.fetch? a
    let number := s.machine.started + 1
    return (⟨number, a, text, .fetch, none⟩, { s.machine with started := number })

/-- What a phase leaves behind. -/
structure PhaseResult where
  /-- What was done, for the trace. -/
  content : String
  machine : Machine
  decoded : Option Instruction := none
  /-- The program counter has no address to go on to. -/
  pastEnd : Bool := false
  /-- What is recorded besides the phase itself. -/
  journal : Journal := []

/-- Fetch: the program counter and the fetch registers are set. -/
def fetchPhase (m : Machine) (c : Cycle) : PhaseResult where
  content := c.text
  machine := { m with
    pc := c.address
    registers := { m.registers with mar := some c.address, ir := c.text, mdr := c.text } }

/-- Decode: the text of the cycle is taken apart. -/
def decodePhase (m : Machine) (c : Cycle) : PhaseResult :=
  let inst := Instruction.decode c.text
  { content := "Decoded: " ++ inst.display, machine := m, decoded := some inst }

/-- Execute: the decoded instruction is carried out. A fault is reported and leaves the
machine as it is. -/
def executePhase (m : Machine) (c : Cycle) : PhaseResult :=
  let inst := c.decoded.getD (Instruction.decode c.text)
  match execute inst m.registers m.memory with
  | .ok done =>
    { content := done.effect.details
      machine := { m with registers := done.registers, memory := done.memory }
      journal := .issued inst :: done.effect.warning.toList.map (.fault c.address · c.text) }
  | .error f =>
    { content := f.message, machine := m, journal := [.issued inst, .fault c.address f c.text] }

/-- Writeback: the program counter moves past the instruction, unless that is at the last
address there is. -/
def writebackPhase (m : Machine) (c : Cycle) : PhaseResult :=
  if c.address + 1 = 0 then
    { content := "PC -> end of memory", machine := m, pastEnd := true }
  else
    { content := "PC -> " ++ addressText (c.address + 1), machine := { m with pc := c.address + 1 } }

/-- The cycle's next phase, run on a machine. -/
def phaseResult (m : Machine) (c : Cycle) : PhaseResult :=
  match c.next with
  | .fetch => fetchPhase m c
  | .decode => decodePhase m c
  | .execute => executePhase m c
  | .writeback => writebackPhase m c

/-- Runs the next phase of a cycle. -/
def runPhase (s : Session) (c : Cycle) : Tick × Session × Journal :=
  let r := phaseResult s.machine c
  let duration := s.timings.of c.next
  (.phase c.next duration,
    { s with
      machine := r.machine
      cycle := c.next.next?.map fun p => { c with next := p, decoded := r.decoded }
      pastEnd := s.pastEnd || r.pastEnd },
    r.journal ++ [.event (.phase c.number c.next c.address r.content duration)])

/-- Runs one phase, of a new cycle if none is in flight. The run state does not matter here. -/
def step (s : Session) : Tick × Session × Journal :=
  match s.cycle with
  | some c => s.runPhase c
  | none =>
    match s.begin? with
    | some (c, machine) => { s with machine }.runPhase c
    | none => (.finished, s, [])

/-! ### The host -/

/-- Carries out a controller's operation. -/
def operate (s : Session) (c : Control) : Reply × Session × Journal :=
  let done := s.link.perform c
  (done.reply, { s with link := done.link }, [.operated c done.reply done.sent])

/-- Carries out controllers' operations in order. -/
def operateAll (s : Session) : List Control → Session × Journal
  | [] => (s, [])
  | c :: rest =>
    let (_, s₁, j₁) := s.operate c
    let (s₂, j₂) := s₁.operateAll rest
    (s₂, j₁ ++ j₂)

end Session

end ToyCpu
