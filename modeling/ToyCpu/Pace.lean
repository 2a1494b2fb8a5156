import ToyCpu.HostError

/-!
# Pace

How fast a session goes in real time.
-/

namespace ToyCpu

/-- The factor on the time between two phases. -/
structure Pace where
  scale : Float := 1

/-- The speeds there are, from a hundredth to a thousand. -/
def Pace.allows (speed : Float) : Bool := 0.01 ≤ speed && speed ≤ 1000

/-- The pace of a speed: twice the speed is half the time. -/
def Pace.ofSpeed (speed : Float) : Except HostError Pace :=
  if Pace.allows speed then .ok ⟨1 / speed⟩ else .error (.speedOutOfRange speed)

end ToyCpu
