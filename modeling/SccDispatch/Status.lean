namespace SccDispatch

inductive Status
  | error
  | notControlled
  | checkedOut
  | checkedOutByUser
  | checkedIn
  deriving DecidableEq, Repr

namespace Status

def checkedOutBit : Int32 := 0x0002

def deletedBit : Int32 := 0x0040

def outByUserBit : Int32 := 0x1000

/-- A deleted or empty mask is not controlled; then the user's own check out wins over any other. -/
def ofMask (mask : Int32) : Status :=
  if mask &&& deletedBit ≠ 0 ∨ mask = 0 then .notControlled
  else if mask &&& outByUserBit ≠ 0 then .checkedOutByUser
  else if mask &&& checkedOutBit ≠ 0 then .checkedOut
  else .checkedIn

def isCheckedOut : Status → Bool
  | .checkedOut | .checkedOutByUser => true
  | _ => false

def text : Status → String
  | .error => "error"
  | .notControlled => "not controlled"
  | .checkedOut => "checked out"
  | .checkedOutByUser => "checked out by user"
  | .checkedIn => "checked in"

end Status

end SccDispatch
