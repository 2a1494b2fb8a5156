import ToyCpu.Json.Parser
import ToyCpu.Json.Printer
import ToyCpu.Snapshot.Scalar
import ToyCpu.Trace

/-!
# Traces as JSON lines

* `TraceEvent.toJson`, `TraceEvent.ofJson?` — an event as a tree.
* `TraceEvent.line`, `TraceEvent.ofLine?` — an event as a line of text.
-/

namespace ToyCpu

/-- The phases by name. -/
def Phase.names : List (String × Phase) :=
  [("fetch", .fetch), ("decode", .decode), ("execute", .execute), ("writeback", .writeback)]

/-- The name of a phase. -/
def Phase.key : Phase → String
  | .fetch => "fetch"
  | .decode => "decode"
  | .execute => "execute"
  | .writeback => "writeback"

namespace TraceEvent

/-- An event as JSON. -/
def toJson : TraceEvent → Json
  | .phase number p address content duration =>
    .record [("event", .ofText "phase"), ("instruction", .ofNat number.toNat),
      ("phase", .ofText p.key), ("address", .ofNat address.toNat), ("content", .ofText content),
      ("duration_ms", .ofNat duration.toNat)]
  | .notice message => .record [("event", .ofText "notice"), ("message", .ofText message)]

/-- The event of a kind that the rest of its fields say. -/
def ofFields? (kind : String) (rest : Json) : Option TraceEvent :=
  match kind with
  | "phase" => do
    let fields ← Json.fields? ["instruction", "phase", "address", "content", "duration_ms"] rest
    let number ← (fields "instruction").required countOfJson?
    let p ← (fields "phase").required (Json.choice? Phase.names .setAside)
    let address ← (fields "address").required addressOfJson?
    let content ← (fields "content").required Json.text?
    let duration ← (fields "duration_ms").required countOfJson?
    return .phase number p address content duration
  | "notice" => do
    let fields ← Json.fields? ["message"] rest
    let message ← (fields "message").required Json.text?
    return .notice message
  | _ => none

/-- The event that JSON says: its kind under the key `event`, or as the first item of an
array, and its fields beside that. -/
def ofJson? (j : Json) : Option TraceEvent :=
  if !j.isSound Json.depthLimit then none
  else
    match j with
    | .array (kind :: rest) => do ofFields? (← kind.text?) (.array rest)
    | .object members =>
      match members.partition fun (key, _) => Json.unescape? key == some "event".toList with
      | ([(_, kind)], rest) => do ofFields? (← kind.text?) (.object rest)
      | _ => none
    | _ => none

/-- An event as a line, without its end. -/
def line (e : TraceEvent) : String := e.toJson.compact

/-- The event that a line says. -/
def ofLine? (text : String) : Option TraceEvent := (Json.parse? text).bind ofJson?

end TraceEvent

end ToyCpu
