import SccDispatch.Command
import SccDispatch.Metrics
import SccDispatch.Session

namespace SccDispatch

structure Journal where
  session : Session := {}
  metrics : Metrics := {}
  log : Array LogLine := #[]

namespace Journal

def write (j : Journal) (level : Level) (text : String) (thread : Thread := .caller) : Journal :=
  { j with log := j.log.push ⟨level, text, thread⟩ }

def writePath (j : Journal) : Option String → Journal
  | some path => j.write .info ("Loading source control provider module " ++ path) .worker
  | none => j

def setPhase (j : Journal) (phase : Phase) : Journal :=
  { j with session := (j.session.setPhase phase).2 }

def bound (j : Journal) (name : String) : Journal :=
  { j with session := (j.session.providerBound name).2 }

def opened (j : Journal) (p : Project) : Journal :=
  { j with session := (j.session.projectOpened p).2 }

def closed (j : Journal) : Journal := { j with session := j.session.projectClosed.2 }

def reset (j : Journal) : Journal := { j with session := j.session.reset.2 }

def count (j : Journal) (f : Metrics → Metrics) : Journal := { j with metrics := f j.metrics }

/-- A contained fault goes into the log, the counters and the session. -/
def fault (j : Journal) (f : Fault) (thread : Thread) : Journal :=
  let j := (j.write .error f.text thread).count .recordFault
  { j with session := (j.session.recordFault f).2 }

/-- What the worker writes down after a command; a fault is not counted as an error as well. -/
def account (j : Journal) (name : String) (elapsed : Duration) (out : Output) : Journal :=
  let j := j.count (·.recordCompleted elapsed)
  match out with
  | .faulted f => j.fault f .worker
  | out =>
    if out.resultCode.isError then
      (j.count .recordProviderError).write .warn
        (name ++ " failed: " ++ out.resultCode.text) .worker
    else j

def summarize (j : Journal) : Journal := j.metrics.summary.foldl (fun j s => j.write .info s) j

end Journal

end SccDispatch
