/-!
# Faults

What can be wrong with an instruction. A fault stops nothing: it is reported
and the next instruction follows.
-/

namespace ToyCpu

/-- Why an instruction was refused, or what was wrong with one that was not. -/
inductive Fault where
  | unknownInstruction (instruction : String)
  | invalidDestination (token : String)
  | missingOperand
  | addressNotFound (token : String)
  | invalidStore (source address : String)
  | divisionByZero
  deriving DecidableEq, Repr

/-- The report of a fault. -/
def Fault.message : Fault → String
  | unknownInstruction instruction => "Unknown instruction: " ++ instruction
  | invalidDestination token => "Invalid destination " ++ token
  | missingOperand => "Missing operand"
  | addressNotFound token => "LOAD failed: address " ++ token ++ " not found"
  | invalidStore source address =>
    "STORE failed: invalid source " ++ source ++ " or address " ++ address
  | divisionByZero => "Division by zero"

end ToyCpu
