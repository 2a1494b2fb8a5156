import ToyCpu.HostError
import ToyCpu.Snapshot.Basic

/-!
# Configurations

* `Config` — the layout, and what is chosen beside it.
* `Config.read` — the configuration in a JSON text.
* `Config.effectiveTimings`, `Config.effectivePolicy` — with the layout's defaults filled in.
-/

namespace ToyCpu

/-- How a machine is set up. What is not chosen comes from the layout. -/
structure Config where
  architecture : Architecture := .unified
  timings : Option Timings := none
  policy : Option LoadPolicy := none
  deriving DecidableEq, Repr

/-- Times for the phases as JSON. -/
def Timings.toJson (t : Timings) : Json :=
  .record [("fetch_ms", .ofNat t.fetch.toNat), ("decode_ms", .ofNat t.decode.toNat),
    ("execute_ms", .ofNat t.execute.toNat), ("writeback_ms", .ofNat t.writeback.toNat)]

/-- The times for the phases that JSON says. -/
def Timings.ofJson? (j : Json) : Option Timings := do
  let fields ← Json.fields? ["fetch_ms", "decode_ms", "execute_ms", "writeback_ms"] j
  let fetch ← (fields "fetch_ms").required countOfJson?
  let decode ← (fields "decode_ms").required countOfJson?
  let execute ← (fields "execute_ms").required countOfJson?
  let writeback ← (fields "writeback_ms").required countOfJson?
  return { fetch, decode, execute, writeback }

/-- The longest time for a phase. -/
def longestPhase : Milliseconds := 60000

namespace Config

/-- The times for the phases. -/
def effectiveTimings (config : Config) : Timings :=
  config.timings.getD config.architecture.defaultTimings

/-- How programs are loaded. -/
def effectivePolicy (config : Config) : LoadPolicy :=
  config.policy.getD config.architecture.defaultPolicy

/-- A configuration as JSON. -/
def toJson (config : Config) : Json :=
  .record [("architecture", .ofText config.architecture.name),
    ("timings", match config.timings with | none => .null | some t => t.toJson),
    ("load_policy", match config.policy with | none => .null | some p => .ofText p.name)]

/-- The configuration that JSON says. Everything may be left out. -/
def ofJson? (j : Json) : Option Config := do
  let fields ← Json.fields? ["architecture", "timings", "load_policy"] j
  let architecture ← (fields "architecture").orElse .unified
    (Json.choice? Architecture.names .direct)
  let timings ← (fields "timings").orElse none (Json.nullable? Timings.ofJson?)
  let policy ← (fields "load_policy").orElse none
    (Json.nullable? (Json.choice? LoadPolicy.names .direct))
  return { architecture, timings, policy }

/-- The first phase that takes too long. -/
def tooLong? (config : Config) : Option Phase :=
  config.timings.bind fun t => Phase.all.find? fun p => longestPhase < t.of p

/-- The configuration in a text. No phase in it may take too long. -/
def read (text : String) : Except HostError Config :=
  match (Json.parse? text).bind ofJson? with
  | none => .error .malformed
  | some config =>
    match config.tooLong? with
    | some p => .error (.phaseTooLong p)
    | none => .ok config

end Config

end ToyCpu
