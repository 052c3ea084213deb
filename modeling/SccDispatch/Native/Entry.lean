import SccDispatch.Duration
import SccDispatch.Fault
import SccDispatch.Log
import SccDispatch.Native.Buffer
import SccDispatch.Project

namespace SccDispatch.Native

inductive EntryPoint
  | start
  | stop
  | openProject
  | closeProject
  | projectPath
  | checkOut
  | undoCheckOut
  | checkIn
  | add
  | remove
  | diff
  | history
  | queryInfo
  | properties
  | extendedCapability
  deriving DecidableEq, Repr

namespace EntryPoint

def symbol : EntryPoint → String
  | start => "SccInitialize"
  | stop => "SccUninitialize"
  | openProject => "SccOpenProject"
  | closeProject => "SccCloseProject"
  | projectPath => "SccGetProjPath"
  | checkOut => "SccCheckout"
  | undoCheckOut => "SccUncheckout"
  | checkIn => "SccCheckin"
  | add => "SccAdd"
  | remove => "SccRemove"
  | diff => "SccDiff"
  | history => "SccHistory"
  | queryInfo => "SccQueryInfo"
  | properties => "SccProperties"
  | extendedCapability => "SccGetExtendedCapabilities"

/-- Every module has to export these; they are looked up in this order. -/
def required : List EntryPoint :=
  [start, stop, openProject, closeProject, projectPath, checkOut, undoCheckOut, checkIn, add,
   remove, diff, history, queryInfo]

def all : List EntryPoint := required ++ [properties, extendedCapability]

end EntryPoint

/-- Value by which a module knows one initialization; zero is none. -/
structure Context where
  value : Int64
  deriving DecidableEq, Repr, Inhabited

def Context.none : Context := ⟨0⟩

def nameCapacity : Nat := 31

def labelCapacity : Nat := 31

def userCapacity : Nat := 31

def projectCapacity : Nat := 300

def pathCapacity : Nat := 260

structure ProjectBuffers where
  user : Buffer userCapacity
  name : Buffer projectCapacity
  localPath : Buffer pathCapacity
  auxPath : Buffer projectCapacity
  deriving DecidableEq

namespace ProjectBuffers

def ofProject (p : Project) : ProjectBuffers :=
  ⟨.ofText _ p.user, .ofText _ p.name, .ofText _ p.localPath, .ofText _ p.auxPath⟩

def project (b : ProjectBuffers) : Project :=
  ⟨b.user.text, b.name.text, b.localPath.text, b.auxPath.text⟩

end ProjectBuffers

structure FileCall where
  context : Context
  window : Window
  /-- The number of files, in a word that wraps. -/
  count : Int32
  files : List CString
  deriving DecidableEq

inductive EntryCall
  | start (window : Window) (caller : CString)
  | stop (context : Context)
  | openProject (context : Context) (window : Window) (user : Buffer userCapacity)
      (name localPath : CString) (auxPath : Buffer projectCapacity) (comment : CString)
      (flags : Int32)
  | closeProject (context : Context)
  | projectPath (context : Context) (window : Window) (project : ProjectBuffers)
      (mayChange : Bool)
  | checkOut (call : FileCall) (comment : CString) (flags : Int32)
  | undoCheckOut (call : FileCall) (flags : Int32)
  | checkIn (call : FileCall) (comment : CString) (flags : Int32)
  /-- One option for each file says what kind of file it is. -/
  | add (call : FileCall) (comment : CString) (options : List Int32)
  | remove (call : FileCall) (comment : CString) (flags : Int32)
  | diff (context : Context) (window : Window) (file : CString) (flags : Int32)
  | history (call : FileCall) (flags : Int32)
  /-- The module writes over `masks`, which has one for each file. -/
  | queryInfo (context : Context) (count : Int32) (files : List CString) (masks : List Int32)
  | properties (context : Context) (window : Window) (file : CString)
  | extendedCapability (context : Context) (capability : Int32)
  deriving DecidableEq

def EntryCall.entry : EntryCall → EntryPoint
  | .start .. => .start
  | .stop .. => .stop
  | .openProject .. => .openProject
  | .closeProject .. => .closeProject
  | .projectPath .. => .projectPath
  | .checkOut .. => .checkOut
  | .undoCheckOut .. => .undoCheckOut
  | .checkIn .. => .checkIn
  | .add .. => .add
  | .remove .. => .remove
  | .diff .. => .diff
  | .history .. => .history
  | .queryInfo .. => .queryInfo
  | .properties .. => .properties
  | .extendedCapability .. => .extendedCapability

structure StartAnswer where
  code : Int32
  context : Context
  name : Buffer nameCapacity
  capabilities : Int32
  auxLabel : Buffer labelCapacity
  checkOutCommentLimit : Int32
  commentLimit : Int32
  deriving DecidableEq

structure PathAnswer where
  code : Int32
  project : ProjectBuffers
  isNew : Int32
  deriving DecidableEq

structure QueryAnswer (files : Nat) where
  code : Int32
  masks : List Int32
  length_eq : masks.length = files
  deriving DecidableEq

structure CapabilityAnswer where
  code : Int32
  supported : Int32
  deriving DecidableEq

abbrev EntryCall.Answer : EntryCall → Type
  | .start .. => StartAnswer
  | .projectPath .. => PathAnswer
  | .queryInfo _ _ _ masks => QueryAnswer masks.length
  | .extendedCapability .. => CapabilityAnswer
  | _ => Int32

/-- The code of a module, with whatever it remembers between calls. -/
class ModuleCode (μ : Type) where
  enter : μ → Thread → (call : EntryCall) → Except Cause call.Answer × μ
  /-- The time that it has spent on calls so far. -/
  spent : μ → Duration := fun _ => {}

export ModuleCode (enter)

end SccDispatch.Native
