import SccDispatch.Duration
import SccDispatch.Text.Fixed

namespace SccDispatch

structure Metrics where
  /-- Commands put into the worker's queue. -/
  dispatched : UInt64 := 0
  /-- Commands the worker has finished, faulted ones included. -/
  completed : UInt64 := 0
  /-- Commands during which the provider faulted. -/
  faulted : UInt64 := 0
  /-- Commands refused because no worker was running. -/
  rejected : UInt64 := 0
  /-- Commands that ended with a negative code. -/
  providerErrors : UInt64 := 0
  directQueries : UInt64 := 0
  /-- Microseconds spent inside the provider. -/
  providerMicros : UInt64 := 0
  deriving DecidableEq, Repr, Inhabited

namespace Metrics

def recordDispatched (m : Metrics) : Metrics := { m with dispatched := m.dispatched + 1 }

def countCompleted (m : Metrics) : Metrics := { m with completed := m.completed + 1 }

def addTime (m : Metrics) (elapsed : Duration) : Metrics :=
  { m with providerMicros := m.providerMicros + elapsed.micros }

def recordCompleted (m : Metrics) (elapsed : Duration) : Metrics :=
  m.countCompleted.addTime elapsed

def recordFault (m : Metrics) : Metrics := { m with faulted := m.faulted + 1 }

def recordRejected (m : Metrics) : Metrics := { m with rejected := m.rejected + 1 }

def recordProviderError (m : Metrics) : Metrics := { m with providerErrors := m.providerErrors + 1 }

def recordDirectQuery (m : Metrics) : Metrics := { m with directQueries := m.directQueries + 1 }

/-- Average time of a finished command in milliseconds; zero before the first. -/
def averageMillis (m : Metrics) : Float :=
  if m.completed = 0 then 0 else m.providerMicros.toFloat / m.completed.toFloat / 1000

def commandsLine (m : Metrics) : String :=
  s!"Commands: {m.dispatched.toNat} dispatched, {m.completed.toNat} completed, " ++
  s!"{m.faulted.toNat} faulted, {m.rejected.toNat} rejected"

def errorsLine (m : Metrics) : String :=
  s!"Provider errors: {m.providerErrors.toNat}, direct status queries: {m.directQueries.toNat}"

def timeLine (m : Metrics) : String :=
  "Provider time: " ++ Text.fixed 2 (m.providerMicros.toFloat / 1000000) ++ "s (avg: " ++
  Text.fixed 2 m.averageMillis ++ "ms per call)"

def summary (m : Metrics) : List String :=
  ["=== Source Control Dispatch Summary ===", m.commandsLine, m.errorsLine, m.timeLine]

end Metrics

end SccDispatch
