import SccDispatch.Channel
import SccDispatch.Fault
import SccDispatch.Project

namespace SccDispatch

inductive Phase
  | unloaded
  | loading
  | ready
  | projectOpen
  | unloading
  deriving DecidableEq, Repr, Inhabited

structure SessionState where
  phase : Phase := .unloaded
  provider : Option String := none
  project : Option Project := none
  /-- Faults contained so far, in a word that wraps. -/
  faults : UInt64 := 0
  deriving DecidableEq, Repr, Inhabited

inductive Event
  | phaseChanged (before after : Phase)
  | providerBound (name : String)
  | projectOpened (name : String)
  | projectClosed
  | faulted (operation message : String)
  deriving DecidableEq, Repr

namespace SessionState

def phaseEvents (old new : SessionState) : List Event :=
  if old.phase = new.phase then [] else [.phaseChanged old.phase new.phase]

def providerEvents (old new : SessionState) : List Event :=
  if old.provider = new.provider then []
  else
    match new.provider with
    | some name => [.providerBound name]
    | none => []

def projectEvents (old new : SessionState) : List Event :=
  if old.project = new.project then []
  else
    match new.project with
    | some p => [.projectOpened p.name]
    | none => [.projectClosed]

def changes (old new : SessionState) : List Event :=
  phaseEvents old new ++ providerEvents old new ++ projectEvents old new

def bound (s : SessionState) (name : String) : SessionState :=
  { s with phase := .ready, provider := some name }

def opened (s : SessionState) (p : Project) : SessionState :=
  { s with phase := .projectOpen, project := some p }

/-- Only an open project brings the phase back to ready. -/
def closed (s : SessionState) : SessionState :=
  { s with phase := if s.phase = .projectOpen then .ready else s.phase, project := none }

/-- Back to the start, except for the faults counted. -/
def cleared (s : SessionState) : SessionState := { faults := s.faults }

end SessionState

structure Session where
  state : SessionState := {}
  events : Channel Event := { capacity := 128 }

namespace Session

def emit (s : Session) (es : List Event) : Session :=
  { s with events := es.foldl Channel.send s.events }

/-- Changes the state, sends the events that tell the change, and returns them. -/
def update (s : Session) (f : SessionState → SessionState) : List Event × Session :=
  let es := SessionState.changes s.state (f s.state)
  (es, { s with state := f s.state }.emit es)

def setPhase (s : Session) (phase : Phase) : List Event × Session :=
  s.update fun st => { st with phase }

def providerBound (s : Session) (name : String) : List Event × Session := s.update (·.bound name)

def projectOpened (s : Session) (p : Project) : List Event × Session := s.update (·.opened p)

def projectClosed (s : Session) : List Event × Session := s.update (·.closed)

def reset (s : Session) : List Event × Session := s.update (·.cleared)

/-- Counts a contained fault and tells it. -/
def recordFault (s : Session) (f : Fault) : List Event × Session :=
  let (es, s') := s.update fun st => { st with faults := st.faults + 1 }
  let e := Event.faulted f.operation f.message
  (es ++ [e], s'.emit [e])

def subscribe (s : Session) : Receiver := s.events.subscribe

end Session

end SccDispatch
