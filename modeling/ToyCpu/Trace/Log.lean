import ToyCpu.Fault
import ToyCpu.Trace.Line

/-!
# Logs

Events reported in two ways: as lines of a log for people, and as JSON lines for programs.

* `Level`, `LogLine` — the lines of a log.
* `TraceEvent.logged` — an event in the log.
* `TraceEvent.emit`, `TraceEvent.jsonLines` — events as JSON lines.
-/

namespace ToyCpu

/-- How much a log line matters. -/
inductive Level where
  | error | warn | info
  deriving DecidableEq, Repr

/-- A level in a log. -/
def Level.name : Level → String
  | .error => "ERROR"
  | .warn => "WARN"
  | .info => "INFO"

/-- A line of a log. -/
structure LogLine where
  level : Level
  text : String
  deriving DecidableEq, Repr

/-- A fault with the address and the text of its instruction, as a warning. -/
def Fault.logged (a : Address) (f : Fault) (text : String) : LogLine :=
  ⟨.warn, "[" ++ addressText a ++ "] " ++ f.message ++ ": " ++ text⟩

namespace TraceEvent

/-- An event as information. -/
def logged (e : TraceEvent) : LogLine := ⟨.info, e.logLine⟩

/-- An event as a JSON line: what is written and, where nothing can be written for some
reason, what is logged instead. -/
def emit (failure : Option String) (e : TraceEvent) : String × List LogLine :=
  match failure with
  | none => (e.line ++ "\n", [])
  | some reason => ("", [⟨.error, "failed to write trace event: " ++ reason⟩])

/-- The text that events are written to. -/
def jsonLines (failure : Option String) (events : List TraceEvent) : String :=
  String.join (events.map fun e => (e.emit failure).1)

end TraceEvent

end ToyCpu
