namespace SccDispatch

structure ResultCode where
  value : Int32
  deriving DecidableEq, Repr, Inhabited

namespace ResultCode

def ok : ResultCode := ⟨0⟩

def initializeFailed : ResultCode := ⟨-1⟩

def opNotSupported : ResultCode := ⟨-14⟩

def invalidFilePath : ResultCode := ⟨-24⟩

/-- The code under which a contained fault is reported. -/
def unknownError : ResultCode := ⟨-30⟩

def isOk (code : ResultCode) : Bool := decide (0 ≤ code.value.toInt)

def isError (code : ResultCode) : Bool := decide (code.value.toInt < 0)

def isWarning (code : ResultCode) : Bool := decide (0 < code.value.toInt)

def describe (code : ResultCode) : String :=
  match code.value.toInt with
  | 0 => "success"
  | -1 => "initialization failed"
  | -2 => "unknown project"
  | -3 => "could not create project"
  | -4 => "file is not checked out"
  | -5 => "file is already checked out"
  | -6 => "file is locked"
  | -7 => "file is checked out exclusively"
  | -8 => "access failure"
  | -9 => "check in conflict"
  | -10 => "file already exists"
  | -11 => "file is not under source control"
  | -12 => "file is checked out"
  | -13 => "no specified version"
  | -14 => "operation not supported"
  | -15 => "nonspecific error"
  | -16 => "operation not performed"
  | -17 => "type not supported"
  | -18 => "verify merge"
  | -19 => "fix merge"
  | -20 => "shell failure"
  | -21 => "invalid user"
  | -22 => "project already open"
  | -23 => "project syntax error"
  | -24 => "invalid file path"
  | -25 => "project not open"
  | -26 => "not authorized"
  | -27 => "file syntax error"
  | -28 => "file does not exist"
  | -29 => "connection failure"
  | -30 => "unknown error"
  | -31 => "background get in progress"
  | n => if 0 < n then "completed with warnings" else "unrecognized error"

def text (code : ResultCode) : String :=
  code.describe ++ " (" ++ toString code.value.toInt ++ ")"

end ResultCode

end SccDispatch
