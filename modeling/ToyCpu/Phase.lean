import ToyCpu.Memory.Basic

/-!
# Phases

An instruction's cycle has four phases, and each phase takes a time.

* `Phase` — the phases and their order.
* `Timings` — the time for each phase, by default that of the memory's layout.
-/

namespace ToyCpu

/-- A time in milliseconds. -/
abbrev Milliseconds := UInt64

/-- The phases of an instruction's cycle. -/
inductive Phase where
  | fetch | decode | execute | writeback
  deriving DecidableEq, Repr

namespace Phase

/-- All phases, in order. -/
def all : List Phase := [fetch, decode, execute, writeback]

/-- The phase after this one in a cycle. -/
def next? : Phase → Option Phase
  | fetch => some decode
  | decode => some execute
  | execute => some writeback
  | writeback => none

/-- A phase in reports. -/
def name : Phase → String
  | fetch => "FETCH"
  | decode => "DECODE"
  | execute => "EXECUTE"
  | writeback => "WRITEBACK"

end Phase

/-- The least time spent in each phase. -/
structure Timings where
  fetch : Milliseconds
  decode : Milliseconds
  execute : Milliseconds
  writeback : Milliseconds
  deriving DecidableEq, Repr

/-- The time for a phase. -/
def Timings.of (t : Timings) : Phase → Milliseconds
  | .fetch => t.fetch
  | .decode => t.decode
  | .execute => t.execute
  | .writeback => t.writeback

/-- The times for a layout. A split memory is fetched from and written to over separate paths,
so its phases are shorter. -/
def Architecture.defaultTimings : Architecture → Timings
  | .unified => ⟨900, 700, 900, 250⟩
  | .split => ⟨600, 450, 600, 150⟩

end ToyCpu
