import ToyCpu.Session.Basic
import ToyCpu.Trace.Log

/-!
# What a journal reports

* `Journal.events` — the events of a session.
* `Journal.log` — its faults and events as the lines of a log.
-/

namespace ToyCpu

/-- An entry's event. -/
def Entry.event? : Entry → Option TraceEvent
  | .event e => some e
  | _ => none

/-- An entry of a journal as a log line, if it belongs into a log. -/
def Entry.logged? : Entry → Option LogLine
  | .fault a f text => some (f.logged a text)
  | .event e => some e.logged
  | _ => none

/-- The events of a journal, in order. -/
def Journal.events (j : Journal) : List TraceEvent := j.filterMap Entry.event?

/-- The log of a journal. -/
def Journal.log (j : Journal) : List LogLine := j.filterMap Entry.logged?

end ToyCpu
