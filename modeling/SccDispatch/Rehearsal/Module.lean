import SccDispatch.Native.Provider
import SccDispatch.Rehearsal.Script

namespace SccDispatch.Rehearsal

open Native

structure ModuleReply where
  ending : Except Cause Int32 := .ok 0
  context : Int64 := 0
  name : Option (List UInt8) := none
  auxLabel : Option (List UInt8) := none
  capabilities : Int32 := 0
  checkOutCommentLimit : Int32 := 0
  commentLimit : Int32 := 0
  supported : Int32 := 0
  user : Option (List UInt8) := none
  project : Option (List UInt8) := none
  localPath : Option (List UInt8) := none
  auxPath : Option (List UInt8) := none
  isNew : Int32 := 0
  masks : List Int32 := []

structure ScriptedModule where
  script : Script ModuleReply := {}
  calls : Array (Thread × EntryCall) := #[]

def writeText {n : Nat} (b : Buffer n) : Option (List UInt8) → Buffer n
  | some bs => b.write (bs ++ [0])
  | none => b

/-- The first `n` masks, zeros where there are no more. -/
def fitMasks (n : Nat) (ms : List Int32) : List Int32 :=
  (List.range n).map fun i => ms[i]?.getD 0

theorem length_fitMasks (n : Nat) (ms : List Int32) : (fitMasks n ms).length = n := by
  simp [fitMasks]

namespace ModuleReply

def start (r : ModuleReply) (code : Int32) : StartAnswer where
  code
  context := ⟨r.context⟩
  name := writeText (.ofText _ "") r.name
  capabilities := r.capabilities
  auxLabel := writeText (.ofText _ "") r.auxLabel
  checkOutCommentLimit := r.checkOutCommentLimit
  commentLimit := r.commentLimit

def path (r : ModuleReply) (code : Int32) (b : ProjectBuffers) : PathAnswer where
  code
  project := ⟨writeText b.user r.user, writeText b.name r.project,
    writeText b.localPath r.localPath, writeText b.auxPath r.auxPath⟩
  isNew := r.isNew

/-- What a reply with that code leaves behind after a call. -/
def read (r : ModuleReply) (code : Int32) : (call : EntryCall) → call.Answer
  | .start .. => r.start code
  | .projectPath _ _ b _ => r.path code b
  | .queryInfo _ _ _ masks => ⟨code, fitMasks masks.length r.masks, length_fitMasks _ _⟩
  | .extendedCapability .. => ⟨code, r.supported⟩
  | .stop .. | .openProject .. | .closeProject .. | .checkOut .. | .undoCheckOut .. | .checkIn ..
  | .add .. | .remove .. | .diff .. | .history .. | .properties .. => code

end ModuleReply

def ScriptedModule.enter (m : ScriptedModule) (on : Thread) (call : EntryCall) :
    Except Cause call.Answer × ScriptedModule :=
  let (reply, script) := m.script.take call.entry
  let r := reply.getD {}
  (r.ending.map fun code => r.read code call, { script, calls := m.calls.push (on, call) })

instance : ModuleCode ScriptedModule where
  enter := ScriptedModule.enter

end SccDispatch.Rehearsal
