import SccDispatch.Dispatcher
import SccDispatch.Rehearsal.Module
import SccDispatch.Rehearsal.Workplace
import SccDispatch.Text.Leading

namespace SccDispatch.Rehearsal

open Native

structure Echo where
  startCode : Int32 := 0
  lines : Array String := #[]

namespace Echo

def shown (s : CString) : String := Text.lossy s.bytes

def field (label value : String) : String := " " ++ label ++ "=[" ++ value ++ "]"

def filesField (count : Int32) (fs : List CString) : String :=
  " n=" ++ toString count ++ String.join (fs.map fun f => " [" ++ shown f ++ "]")

def fileLine (e : EntryPoint) (flags : Int32) (comment : String) (f : FileCall) : String :=
  e.symbol ++ " flags=" ++ toString flags ++ field "comment" comment ++ filesField f.count f.files

def line (call : EntryCall) : String :=
  let symbol := call.entry.symbol
  match call with
  | .start w caller => symbol ++ field "caller" (shown caller) ++ " window=" ++ toString w.handle
  | .stop c => symbol ++ " context=" ++ toString c.value
  | .openProject _ _ user name localPath aux comment flags =>
    symbol ++ field "user" user.text ++ field "project" (shown name) ++
      field "local" (shown localPath) ++ field "aux" aux.text ++ field "comment" (shown comment) ++
      " flags=" ++ toString flags
  | .closeProject _ => symbol
  | .projectPath _ _ b _ => symbol ++ field "project" b.name.text
  | .checkOut f c flags | .checkIn f c flags | .remove f c flags =>
    fileLine call.entry flags (shown c) f
  | .add f c _ => fileLine call.entry 0 (shown c) f
  | .undoCheckOut f flags | .history f flags => fileLine call.entry flags "" f
  | .diff _ _ file flags => symbol ++ " flags=" ++ toString flags ++ " [" ++ shown file ++ "]"
  | .properties _ _ file => symbol ++ " [" ++ shown file ++ "]"
  | .queryInfo _ count fs _ => symbol ++ filesField count fs
  | .extendedCapability _ n => symbol ++ " " ++ toString n

def number (s : CString) : Int32 := Text.leading false (shown s)

def firstNumber (fs : List CString) : Int32 :=
  match fs with
  | f :: _ => number f
  | [] => 0

def query (fs : List CString) (files : Nat) : QueryAnswer files where
  code := if fs.head?.any fun f => shown f == "fail" then -15 else 0
  masks := fitMasks files (fs.map fun f => Text.leading true (shown f))
  length_eq := length_fitMasks _ _

def answer (m : Echo) : (call : EntryCall) → call.Answer
  | .start .. =>
    { code := m.startCode, context := ⟨1⟩, name := .ofText _ "Default Fake", capabilities := 0x8c,
      auxLabel := .ofText _ "", checkOutCommentLimit := 0, commentLimit := 0 }
  | .stop _ | .closeProject _ => (0 : Int32)
  | .openProject _ _ _ name .. => number name
  | .projectPath _ _ b _ => { code := 0, project := b, isNew := 0 }
  | .checkOut f .. | .checkIn f .. | .add f .. | .remove f .. | .undoCheckOut f _
  | .history f _ => firstNumber f.files
  | .diff _ _ file _ | .properties _ _ file => number file
  | .queryInfo _ _ fs masks => query fs masks.length
  | .extendedCapability .. => { code := 0, supported := 1 }

def enter (m : Echo) (_ : Thread) (call : EntryCall) : Except Cause call.Answer × Echo :=
  (.ok (m.answer call), { m with lines := m.lines.push (line call) })

instance : ModuleCode Echo where
  enter := enter

/-- The module at a path; some are known for how they start. -/
def ofPath (t : FileTree) (path : String) : Echo :=
  match loadable? t path with
  | some (.module "initfail") => { startCode := -1 }
  | some (.module "warninit") => { startCode := 7 }
  | _ => {}

def loader (t : FileTree) (p : Installed) : Loader (NativeProvider Echo) where
  path := some p.path
  load _ := .ok ((load t p.path (ofPath t p.path)).mapError fun e => e.bindError p.path)

def linesOf (d : Dispatcher (NativeProvider Echo)) : List String :=
  d.retired.flatMap fun r => r.provider.code.lines.toList

end Echo

end SccDispatch.Rehearsal
