import SccDispatch.Log

namespace SccDispatch

/-- Where a handle to a provider is kept. -/
inductive Holder
  | worker
  /-- The output of the command that started it. -/
  | output
  | binding
  deriving DecidableEq, Repr

/-- The handles to a provider. Its worker's thread begins with the only one. -/
structure Handles where
  held : List Holder := [.worker]
  /-- The thread that dropped the last handle, and the provider with it. -/
  releasedBy : Option Thread := none
  deriving DecidableEq, Repr

namespace Handles

def share (h : Handles) (place : Holder) : Handles := { h with held := place :: h.held }

/-- The handle that is kept in one place is moved to another. -/
def move (h : Handles) (old new : Holder) : Handles := { h with held := h.held.replace old new }

/-- A thread drops the handle that is kept in a place, if there is one. -/
def drop (h : Handles) (place : Holder) (on : Thread) : Handles :=
  match h.held, h.held.erase place with
  | _ :: _, [] => { held := [], releasedBy := some on }
  | _, held => { h with held }

end Handles

end SccDispatch
