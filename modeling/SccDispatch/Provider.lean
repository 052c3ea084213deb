import SccDispatch.Capabilities
import SccDispatch.Duration
import SccDispatch.Fault
import SccDispatch.Log
import SccDispatch.Project
import SccDispatch.ResultCode

namespace SccDispatch

structure ProviderInfo where
  code : ResultCode := .ok
  name : String := ""
  capabilities : Capabilities := .empty
  auxLabel : String := ""
  checkOutCommentLimit : Int32 := 0
  commentLimit : Int32 := 0
  /-- Status queries may run beside the worker. -/
  threadsafeQuery : Bool := false
  deriving DecidableEq, Repr, Inhabited

/-- Answer to a status query: a mask for each file, as many as the provider gave. -/
structure StatusReply where
  code : ResultCode := .ok
  masks : List Int32 := []
  deriving DecidableEq, Repr, Inhabited

structure ProjectChoice where
  code : ResultCode := .ok
  project : Project := {}
  isNew : Bool := false
  deriving DecidableEq, Repr, Inhabited

inductive Call
  /-- Initializes the provider; nothing else is asked before. -/
  | start (window : Window) (caller : String)
  /-- Uninitializes it; nothing else is asked afterwards. -/
  | stop
  | threadsafeQuery
  | openProject (window : Window) (project : Project) (comment : String) (flags : Int32)
  | closeProject
  | chooseProject (window : Window) (project : Project) (mayChange : Bool)
  | checkOut (window : Window) (files : List String) (comment : String)
  | undoCheckOut (window : Window) (files : List String)
  | checkIn (window : Window) (files : List String) (comment : String) (flags : Int32)
  | add (window : Window) (files : List String) (comment : String)
  | remove (window : Window) (files : List String) (comment : String)
  | diff (window : Window) (file : String)
  | history (window : Window) (files : List String)
  | properties (window : Window) (file : String)
  | queryStatus (files : List String)
  deriving DecidableEq, Repr

/-- What a provider answers; most calls are answered by a result code alone. -/
abbrev Call.Answer : Call → Type
  | .start .. => ProviderInfo
  | .threadsafeQuery => Bool
  | .chooseProject .. => ProjectChoice
  | .queryStatus .. => StatusReply
  | _ => ResultCode

class Provider (π : Type) where
  respond : π → Thread → (call : Call) → Except Cause call.Answer × π
  /-- The time that it has spent on calls so far. -/
  spent : π → Duration := fun _ => {}

export Provider (respond spent)

/-- The time that a provider has spent on coming from one state to another. -/
def elapsed {π : Type} [Provider π] (old new : π) : Duration := (spent new).since (spent old)

def createMissing : Int32 := 0x0001

/-- Flag of a check in after which the files stay checked out. -/
def keepCheckedOut : Int32 := 0x1000

end SccDispatch
