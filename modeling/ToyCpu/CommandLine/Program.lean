import ToyCpu.CommandLine.Command
import ToyCpu.CommandLine.Options
import ToyCpu.Config
import ToyCpu.Session.Log

/-!
# The program

What the command line does, from the options to the last line written. Files and input are
given, and what is written is a list, so that a run is a function.

* `Output`, `Ending`, `Report` — what a run of the program leaves.
* `Program.setUp` — the configuration and the machine to start with.
* `Program.conduct` — the session, as long as the input steers it.
* `Program.run` — all of it.
-/

namespace ToyCpu

/-- What is written, and when. -/
inductive Output where
  /-- A line of the result. -/
  | result (line : String)
  /-- A line beside the result. -/
  | remark (line : String)
  /-- Nothing, for a time. -/
  | pause (duration : Milliseconds)
  deriving DecidableEq, Repr

/-- How the program ends. -/
inductive Ending where
  | done
  | failed (e : HostError)
  /-- The text is still to be written to a file. If it can be, a last line says so. -/
  | saves (path text : String)

/-- What a run of the program leaves. -/
structure Report where
  output : List Output
  ending : Ending

namespace Program

/-- The contents of files by name, where there is a file and it holds text. -/
abbrev Files := String → Option String

/-- A line of the log. -/
def logged (text : String) : Output := .remark ("> " ++ text)

/-! ### Setting up -/

/-- The text of a file. -/
def readFile (files : Files) (path : String) : Except HostError String :=
  match files path with
  | some text => .ok text
  | none => .error .unreadable

/-- The configuration: the file's, if there is one, with what the options choose. -/
def configure (o : Options) (files : Files) : Except HostError Config := do
  let config ← match o.config with
    | some path => Config.read (← readFile files path)
    | none => .ok {}
  return { config with
    architecture := o.arch.getD config.architecture
    policy := o.policy <|> config.policy }

/-- The machine of a snapshot. -/
def restore (o : Options) (files : Files) (path : String) : Except HostError Machine := do
  match Snapshot.load? (← readFile files path) with
  | none => .error .malformed
  | some m =>
    match o.arch with
    | some arch =>
      if arch = m.memory.architecture then .ok m
      else .error (.otherLayout m.memory.architecture arch)
    | none => .ok m

/-- A new machine, with the seed program and data unless the options want none. -/
def fresh (o : Options) (arch : Architecture) : Machine :=
  .new (if o.startsEmpty then .empty arch else .seeded arch)

/-- The machine with a load policy. -/
def withPolicy (m : Machine) (policy : LoadPolicy) : Machine :=
  { m with memory := { m.memory with policy } }

/-- Applies edits in order, and logs their messages. -/
def applyAll (m : Machine) : List Edit → Machine × List Output
  | [] => (m, [])
  | e :: rest =>
    let (m₁, message) := m.apply e
    let (m₂, output) := applyAll m₁ rest
    (m₂, message.toList.map logged ++ output)

/-- The times for the phases and the machine to start with. A snapshot keeps its load policy
unless one is asked for, and decides the layout. -/
def setUp (o : Options) (files : Files) :
    Except HostError (Timings × Machine × List Output) := do
  let config ← configure o files
  let (config, machine) ← match o.state with
    | some path => do
      let m ← restore o files path
      pure ({ config with architecture := m.memory.architecture },
        match config.policy with
        | some policy => withPolicy m policy
        | none => m)
    | none => pure (config, withPolicy (fresh o config.architecture) config.effectivePolicy)
  let program ← match o.program with
    | some path => do pure [Edit.loadProgram (← readFile files path)]
    | none => pure []
  let (machine, output) := applyAll machine (program ++ o.data.map .setData)
  return (config.effectiveTimings, machine, output)

/-! ### The session -/

/-- What is written for an entry of the journal. Faults are always logged; the trace goes
into the log or, as JSON, into the result. -/
def entryOutput (o : Options) : Entry → List Output
  | .event e => if o.jsonTrace then [.result e.line] else [logged e.logged.text]
  | .fault a f text => [logged (f.logged a text).text]
  | .said line => [.remark line]
  | .slept duration => if o.instant then [] else [.pause duration]
  | _ => []

/-- The session: played once or, when interactive, for as long as the lines of input steer it. -/
def conduct (o : Options) (timings : Timings) (machine : Machine) (lines : List String) :
    Machine × List Output :=
  let s := Session.new machine timings
  if o.interactive then
    let (s₁, _) := s.operateAll [.share, .play, .release]
    let (last, journal) := s₁.converse { turns := Command.turns lines }
    (last.machine, .remark Command.helpText :: journal.flatMap (entryOutput o))
  else
    let (s₁, _) := s.operateAll [.play, .release]
    let result := s₁.run []
    (result.session.machine, result.journal.flatMap (entryOutput o))

/-! ### The result -/

/-- A kind in the listing of cells. -/
def kindTitle : CellKind → String
  | .instruction => "Instruction"
  | .data => "Data"

/-- A cell on a line. -/
def cellLine (a : Address) (cell : Cell) : String :=
  "[" ++ addressText a ++ "] " ++ Text.padRight 11 (kindTitle cell.kind) ++ " " ++ cell.text

/-- The state of a machine: its registers, its cells and the count of instructions. -/
def stateLines (m : Machine) : List String :=
  ["PC  = " ++ addressText m.pc]
    ++ Register.all.map (fun r => r.name ++ "  = " ++ (m.registers.get r).display)
    ++ ["ACC = " ++ (m.registers.acc.map Value.display).getD "", "IR  = " ++ m.registers.ir]
    ++ m.memory.listing.map (fun (a, cell) => cellLine a cell)
    ++ [Nat.repr m.started.toNat ++ " instruction(s) executed"]

/-- The line that says that a snapshot was written. -/
def savedLine (path : String) : Output := logged ("state saved to " ++ path)

/-- Runs the program. -/
def run (o : Options) (files : Files) (lines : List String) : Report :=
  match setUp o files with
  | .error e => ⟨[], .failed e⟩
  | .ok (timings, machine, launched) =>
    let (final, played) := conduct o timings machine lines
    let state := if o.jsonTrace then [] else (stateLines final).map .result
    { output := launched ++ played ++ state
      ending := match o.exportTo with
        | none => .done
        | some path => .saves path (Snapshot.save final) }

end Program

end ToyCpu
