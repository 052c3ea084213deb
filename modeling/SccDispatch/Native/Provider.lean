import SccDispatch.Native.Entry
import SccDispatch.Provider

namespace SccDispatch.Native

def threadsafeQueryCapability : Int32 := 8

/-- A loaded module, the entry points it lacks, and the context it gave. -/
structure NativeProvider (μ : Type) where
  code : μ
  hasProperties : Bool
  hasExtendedCapability : Bool
  context : Context := .none

namespace NativeProvider

variable {μ : Type} [ModuleCode μ]

def call {α : Type} (p : NativeProvider μ) (on : Thread) (c : EntryCall) (read : c.Answer → α) :
    Except Cause α × NativeProvider μ :=
  let (answer, code) := enter p.code on c
  (answer.map read, { p with code })

def answer {α : Type} (p : NativeProvider μ) (a : α) : Except Cause α × NativeProvider μ :=
  (.ok a, p)

def withFiles (p : NativeProvider μ) (on : Thread) (window : Window) (files : List String)
    (c : FileCall → EntryCall) (read : ∀ f, (c f).Answer → ResultCode) :
    Except Cause ResultCode × NativeProvider μ :=
  match CString.ofTexts? files with
  | some fs => p.call on (c ⟨p.context, window, .ofNat fs.length, fs⟩) (read _)
  | none => p.answer .invalidFilePath

def withComment (p : NativeProvider μ) (on : Thread) (window : Window) (files : List String)
    (comment : String) (c : FileCall → CString → EntryCall)
    (read : ∀ f s, (c f s).Answer → ResultCode) : Except Cause ResultCode × NativeProvider μ :=
  match CString.ofText? comment with
  | some s => p.withFiles on window files (c · s) (read · s)
  | none => p.answer .invalidFilePath

def startInfo (a : StartAnswer) : ProviderInfo where
  code := ⟨a.code⟩
  name := a.name.text
  capabilities := .ofMask a.capabilities
  auxLabel := a.auxLabel.text
  checkOutCommentLimit := a.checkOutCommentLimit
  commentLimit := a.commentLimit

/-- Keeps the context that the module gave; a call that does not return gives none. -/
def start (p : NativeProvider μ) (on : Thread) (window : Window) (caller : String) :
    Except Cause ProviderInfo × NativeProvider μ :=
  match CString.ofText? caller with
  | none => p.answer { code := .initializeFailed }
  | some caller =>
    match p.call on (.start window caller) id with
    | (.ok a, p) => (.ok (startInfo a), { p with context := a.context })
    | (.error cause, p) => (.error cause, p)

/-- The context is gone as soon as the call is made. -/
def stop (p : NativeProvider μ) (on : Thread) : Except Cause ResultCode × NativeProvider μ :=
  { p with context := .none }.call on (.stop p.context) ResultCode.mk

def threadsafeQuery (p : NativeProvider μ) (on : Thread) : Except Cause Bool × NativeProvider μ :=
  if p.hasExtendedCapability then
    p.call on (.extendedCapability p.context threadsafeQueryCapability)
      fun a => decide (0 ≤ a.code.toInt) && a.supported != 0
  else p.answer false

/-- User and aux path go in buffers, so they are cut where the other texts are refused. -/
def openProject (p : NativeProvider μ) (on : Thread) (window : Window) (project : Project)
    (comment : String) (flags : Int32) : Except Cause ResultCode × NativeProvider μ :=
  match CString.ofText? project.name, CString.ofText? project.localPath,
      CString.ofText? comment with
  | some name, some localPath, some comment =>
    p.call on
      (.openProject p.context window (.ofText _ project.user) name localPath
        (.ofText _ project.auxPath) comment flags)
      ResultCode.mk
  | _, _, _ => p.answer .invalidFilePath

def chooseProject (p : NativeProvider μ) (on : Thread) (window : Window) (project : Project)
    (mayChange : Bool) : Except Cause ProjectChoice × NativeProvider μ :=
  p.call on (.projectPath p.context window (.ofProject project) mayChange)
    fun a => ⟨⟨a.code⟩, a.project.project, a.isNew != 0⟩

def diff (p : NativeProvider μ) (on : Thread) (window : Window) (file : String) :
    Except Cause ResultCode × NativeProvider μ :=
  match CString.ofText? file with
  | some file => p.call on (.diff p.context window file 0) ResultCode.mk
  | none => p.answer .invalidFilePath

/-- A module without the entry point is not asked, whatever the file is called. -/
def properties (p : NativeProvider μ) (on : Thread) (window : Window) (file : String) :
    Except Cause ResultCode × NativeProvider μ :=
  if p.hasProperties then
    match CString.ofText? file with
    | some file => p.call on (.properties p.context window file) ResultCode.mk
    | none => p.answer .invalidFilePath
  else p.answer .opNotSupported

def queryStatus (p : NativeProvider μ) (on : Thread) (files : List String) :
    Except Cause StatusReply × NativeProvider μ :=
  match CString.ofTexts? files with
  | some fs =>
    p.call on (.queryInfo p.context (.ofNat fs.length) fs (List.replicate files.length 0))
      fun a => ⟨⟨a.code⟩, a.masks⟩
  | none => p.answer { code := .invalidFilePath }

/-- Every added file leaves its kind to the provider. -/
def add (p : NativeProvider μ) (on : Thread) (window : Window) (files : List String)
    (comment : String) : Except Cause ResultCode × NativeProvider μ :=
  p.withComment on window files comment
    (fun f s => .add f s (List.replicate f.files.length 0)) fun _ _ => ResultCode.mk

def answerTo (p : NativeProvider μ) (on : Thread) :
    (call : Call) → Except Cause call.Answer × NativeProvider μ
  | .start window caller => p.start on window caller
  | .stop => p.stop on
  | .threadsafeQuery => p.threadsafeQuery on
  | .openProject window project comment flags => p.openProject on window project comment flags
  | .closeProject => p.call on (.closeProject p.context) ResultCode.mk
  | .chooseProject window project mayChange => p.chooseProject on window project mayChange
  | .checkOut window files comment =>
    p.withComment on window files comment (.checkOut · · 0) fun _ _ => ResultCode.mk
  | .undoCheckOut window files =>
    p.withFiles on window files (.undoCheckOut · 0) fun _ => ResultCode.mk
  | .checkIn window files comment flags =>
    p.withComment on window files comment (.checkIn · · flags) fun _ _ => ResultCode.mk
  | .add window files comment => p.add on window files comment
  | .remove window files comment =>
    p.withComment on window files comment (.remove · · 0) fun _ _ => ResultCode.mk
  | .diff window file => p.diff on window file
  | .history window files => p.withFiles on window files (.history · 0) fun _ => ResultCode.mk
  | .properties window file => p.properties on window file
  | .queryStatus files => p.queryStatus on files

instance : Provider (NativeProvider μ) := ⟨answerTo, fun p => ModuleCode.spent p.code⟩

end NativeProvider

/-- Binds a module that exports `exported`, or tells the first entry point that is missing. -/
def resolve {μ : Type} (exported : List EntryPoint) (code : μ) :
    Except EntryPoint (NativeProvider μ) :=
  match EntryPoint.required.find? (!exported.contains ·) with
  | some missing => .error missing
  | none =>
    .ok { code, hasProperties := exported.contains .properties,
          hasExtendedCapability := exported.contains .extendedCapability }

end SccDispatch.Native
