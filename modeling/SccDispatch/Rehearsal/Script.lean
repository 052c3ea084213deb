import SccDispatch.Native.Entry
import SccDispatch.Provider

namespace SccDispatch.Rehearsal

open Native (EntryPoint)

def entryOf : Call → EntryPoint
  | .start .. => .start
  | .stop => .stop
  | .threadsafeQuery => .extendedCapability
  | .openProject .. => .openProject
  | .closeProject => .closeProject
  | .chooseProject .. => .projectPath
  | .checkOut .. => .checkOut
  | .undoCheckOut .. => .undoCheckOut
  | .checkIn .. => .checkIn
  | .add .. => .add
  | .remove .. => .remove
  | .diff .. => .diff
  | .history .. => .history
  | .properties .. => .properties
  | .queryStatus .. => .queryInfo

structure Script (ρ : Type) where
  stock : List (EntryPoint × List ρ) := []

namespace Script

variable {ρ : Type}

def replies (s : Script ρ) (e : EntryPoint) : List ρ :=
  match s.stock.find? (·.1 == e) with
  | some (_, rs) => rs
  | none => []

def setReplies (s : Script ρ) (e : EntryPoint) (rs : List ρ) : Script ρ :=
  ⟨(e, rs) :: s.stock.filter (·.1 != e)⟩

/-- Takes the next reply; the last one is given again and again. -/
def take (s : Script ρ) (e : EntryPoint) : Option ρ × Script ρ :=
  match s.replies e with
  | [] => (none, s)
  | [r] => (some r, s)
  | r :: rest => (some r, s.setReplies e rest)

end Script

end SccDispatch.Rehearsal
