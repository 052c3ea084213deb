import SccDispatch.Rehearsal.Script

namespace SccDispatch.Rehearsal

structure ScriptedReply where
  ending : Except Cause Int32 := .ok 0
  project : Option Project := none
  isNew : Bool := false
  masks : Option (List Int32) := none

structure Scripted where
  info : ProviderInfo := {}
  threadsafe : Bool := false
  statuses : List (String × Int32) := []
  otherStatus : Int32 := 0
  script : Script ScriptedReply := {}
  calls : Array (Thread × Call) := #[]

namespace Scripted

def mask (s : Scripted) (file : String) : Int32 :=
  ((s.statuses.find? (·.1 == file)).map Prod.snd).getD s.otherStatus

def read (s : Scripted) (r : ScriptedReply) (code : ResultCode) : (call : Call) → call.Answer
  | .start .. => { s.info with code }
  | .threadsafeQuery => s.threadsafe
  | .chooseProject _ project _ => ⟨code, r.project.getD project, r.isNew⟩
  | .queryStatus files => ⟨code, r.masks.getD (files.map s.mask)⟩
  | .stop | .openProject .. | .closeProject | .checkOut .. | .undoCheckOut .. | .checkIn ..
  | .add .. | .remove .. | .diff .. | .history .. | .properties .. => code

def respond (s : Scripted) (on : Thread) (call : Call) : Except Cause call.Answer × Scripted :=
  let (reply, script) := s.script.take (entryOf call)
  let r := reply.getD {}
  (r.ending.map fun code => s.read r ⟨code⟩ call,
    { s with script, calls := s.calls.push (on, call) })

instance : Provider Scripted where
  respond := respond

end Scripted

end SccDispatch.Rehearsal
