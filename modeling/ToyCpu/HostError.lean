import ToyCpu.Decimal.Style
import ToyCpu.Phase

/-!
# Errors of the host

What keeps a session from being set up or saved. Nothing that a program does ends here; that
is a `Fault`.
-/

namespace ToyCpu

/-- What went wrong outside the machine. -/
inductive HostError where
  /-- A file is missing, cannot be written or does not hold text. -/
  | unreadable
  /-- A text is not JSON, or not JSON of the kind that is due. -/
  | malformed
  /-- A configuration gives a phase more than the longest time there is for one. -/
  | phaseTooLong (p : Phase)
  | speedOutOfRange (speed : Float)
  /-- A snapshot was taken from another layout than the one asked for. -/
  | otherLayout (found asked : Architecture)

/-- Speeds in messages are written in full, with the shortest digits. -/
def plainStyle : Decimal.Style where
  tie := .up
  isPlain _ := true
  keepsPoint := false
  keepsZeroSign := true
  infinity := "inf"
  nan := "NaN"

/-- A layout in messages. -/
def Architecture.title : Architecture → String
  | .unified => "Unified"
  | .split => "Split"

/-- What is wrong with a configuration, if that is the error. -/
def HostError.configReason? : HostError → Option String
  | unreadable => none
  | malformed => none
  | phaseTooLong p => some (p.name ++ " phase longer than 60s")
  | speedOutOfRange speed => some ("speed " ++ plainStyle.write speed ++ " outside 0.01..=1000")
  | otherLayout found asked => some ("snapshot is " ++ found.title ++ ", not " ++ asked.title)

/-- The report of an error. -/
def HostError.message (e : HostError) : String :=
  match e.configReason? with
  | some reason => "invalid configuration: " ++ reason
  | none =>
    match e with
    | malformed => "serialize error: not JSON of the kind that is due"
    | _ => "io error: cannot read or write a file"

/-- The last line of a program that ends with an error. -/
def HostError.lastLine (e : HostError) : String :=
  match e.configReason? with
  | some reason => "Error: Config(\"" ++ reason ++ "\")"
  | none => "Error: " ++ e.message

end ToyCpu
