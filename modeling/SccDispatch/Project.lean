namespace SccDispatch

structure Project where
  user : String := ""
  name : String := ""
  localPath : String := ""
  auxPath : String := ""
  deriving DecidableEq, Repr, Inhabited

namespace Project

/-- No project has been chosen; the user alone does not make one. -/
def isEmpty (p : Project) : Bool := p.name == "" && p.localPath == ""

end Project

/-- A native window handle, passed through unread. -/
structure Window where
  handle : Int64
  deriving DecidableEq, Repr, Inhabited

namespace Window

def none : Window := ⟨0⟩

def isNone (w : Window) : Bool := w == none

end Window

end SccDispatch
