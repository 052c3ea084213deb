namespace SccDispatch

inductive Trap
  | segmentation
  | bus
  | illegal
  | arithmetic
  deriving DecidableEq, Repr

namespace Trap

def name : Trap → String
  | segmentation => "segmentation fault"
  | bus => "bus error"
  | illegal => "illegal instruction"
  | arithmetic => "arithmetic exception"

def number : Trap → String
  | segmentation => "0xb"
  | bus => "0x7"
  | illegal => "0x4"
  | arithmetic => "0x8"

end Trap

inductive Cause
  | message (text : String)
  /-- The code gave up with something that is not text. -/
  | unnamed
  | hardware (trap : Trap)
  deriving DecidableEq, Repr

namespace Cause

def text : Cause → String
  | message s => s
  | unnamed => "unknown fault"
  | hardware trap => trap.name ++ " (code " ++ trap.number ++ ")"

end Cause

/-- A fault contained at the boundary: which operation ran, and what is known of the cause. -/
structure Fault where
  operation : String
  message : String
  deriving DecidableEq, Repr, Inhabited

namespace Fault

def of (operation : String) (cause : Cause) : Fault := ⟨operation, cause.text⟩

def text (f : Fault) : String :=
  "source control provider faulted during " ++ f.operation ++ ": " ++ f.message

end Fault

/-- Runs at the boundary: a cause becomes a fault of the operation. -/
def contained {α : Type} (operation : String) (outcome : Except Cause α) : Except Fault α :=
  outcome.mapError (Fault.of operation)

end SccDispatch
