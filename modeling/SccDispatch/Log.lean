import SccDispatch.Text.Terminal

namespace SccDispatch

/-- On which side of the dispatcher something happens. -/
inductive Thread
  | worker
  | caller
  deriving DecidableEq, Repr

inductive Level
  | debug
  | info
  | warn
  | error
  deriving DecidableEq, Repr

structure LogLine where
  level : Level
  text : String
  thread : Thread := .caller
  deriving DecidableEq, Repr

def Level.text : Level → String
  | .debug => "DEBUG"
  | .info => "INFO"
  | .warn => "WARN"
  | .error => "ERROR"

def LogLine.line (l : LogLine) : String :=
  l.level.text ++ " " ++ Text.harmless l.text ++ "\n"

end SccDispatch
