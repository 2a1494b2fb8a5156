import ToyCpu.Phase

/-!
# Traces

What a session reports to whoever watches it.

* `TraceEvent` — a phase that ran, or a notice.
* `TraceEvent.logLine` — an event as a line of a log.
-/

namespace ToyCpu

/-- What is reported about a session. -/
inductive TraceEvent where
  /-- A phase that ran: the number of the instruction, the phase, the instruction's address,
  what was done, and the time for it. -/
  | phase (number : UInt64) (p : Phase) (address : Address) (content : String)
      (duration : Milliseconds)
  /-- A message about the run as a whole. -/
  | notice (message : String)
  deriving DecidableEq, Repr

/-- An event as a line of a log, in columns. -/
def TraceEvent.logLine : TraceEvent → String
  | phase number p address content duration =>
    "#" ++ Text.padRight 3 (Nat.repr number.toNat) ++ " " ++ Text.padRight 9 p.name
      ++ " [" ++ addressText address ++ "] " ++ content ++ " (" ++ Nat.repr duration.toNat ++ "ms)"
  | notice message => message

end ToyCpu
