import SccDispatch.Dispatcher
import SccDispatch.Rehearsal.Module
import SccDispatch.Rehearsal.Scripted
import SccDispatch.Rehearsal.Workplace

namespace SccDispatch.Rehearsal

open Native

inductive Player
  | scripted (s : Scripted)
  | native (p : NativeProvider ScriptedModule)

inductive Heard
  | call (on : Thread) (call : Call)
  | entry (on : Thread) (call : EntryCall)

namespace Player

def respond (p : Player) (on : Thread) (call : Call) : Except Cause call.Answer × Player :=
  match p with
  | scripted s =>
    let (r, s) := s.respond on call
    (r, scripted s)
  | native p =>
    let (r, p) := p.answerTo on call
    (r, native p)

def spent : Player → Duration
  | scripted s => Provider.spent s
  | native p => Provider.spent p

instance : Provider Player := ⟨respond, spent⟩

def heard : Player → List Heard
  | scripted s => s.calls.toList.map fun c => .call c.1 c.2
  | native p => p.code.calls.toList.map fun c => .entry c.1 c.2

def setScript (script : Script ModuleReply) : Player → Player
  | scripted s => scripted s
  | native p => native { p with code := { p.code with script } }

/-- The script as the last provider left it; all modules share one. -/
def scriptLeft (script : Script ModuleReply) : Option Player → Script ModuleReply
  | some (native p) => p.code.script
  | _ => script

end Player

/-- Loads the module at a path, which answers from a script. -/
def loadModule (path : String) (script : Script ModuleReply) : Loader Player where
  path := some path
  load last :=
    .ok <|
      match load workplace path ({ script := Player.scriptLeft script last } : ScriptedModule) with
      | .ok p => .ok (.native p)
      | .error e => .error (e.bindError path)

def loadScripted (s : Scripted) : Loader Player := { load := fun _ => .ok (.ok (.scripted s)) }

def loadFailing (e : BindError) : Loader Player := { load := fun _ => .ok (.error e) }

def loadFaulting (cause : Cause) : Loader Player := { load := fun _ => .error cause }

def allHeard (d : Dispatcher Player) : List Heard :=
  d.retired.flatMap (fun r => r.provider.heard) ++
    match d.binding with
    | some b => b.worker.provider.heard
    | none => []

def setScripts (d : Dispatcher Player) (script : Script ModuleReply) : Dispatcher Player :=
  { d.mapProvider (Player.setScript script) with
    retired := d.retired.map fun r => { r with provider := r.provider.setScript script } }

def installed : NameMap :=
  .ofList
    [("Full", "./providers/full.so"), ("Minimal", "./providers/minimal.so"),
     ("FULL", "./providers/initfail.so"), ("Broken", "./providers/no_SccAdd.so"),
     ("Absent", "./providers/absent.so"), ("Ünïcode", "./providers/noexcap.so")]

def registry : Registry := Registry.empty.merge installed

end SccDispatch.Rehearsal
