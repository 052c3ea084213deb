import SccDispatch.Config.Reading
import SccDispatch.Config.Writing
import SccDispatch.Files.Store
import SccDispatch.Log

namespace SccDispatch

inductive ConfigError
  | noDirectory (path : String)
  | unreadable (path : String)
  | malformed (path : String)
  | unwritable (path : String)
  | noLogDirectory (path : String)
  /-- Log lines go elsewhere already. -/
  | logTaken
  deriving DecidableEq, Repr

def ConfigError.text : ConfigError → String
  | noDirectory path => "Failed to create config directory: " ++ path
  | unreadable path => "Failed to read config: " ++ path
  | malformed path => "Failed to parse config: " ++ path
  | unwritable path => "Failed to write config: " ++ path
  | noLogDirectory path => "Failed to create log directory: " ++ path
  | logTaken => "Failed to install tracing subscriber"

def settingsFile : String := "Decoda SCC.yaml"

/-- The path of something in a directory; the empty path stands for the directory one is in. -/
def joinPath (directory name : String) : String :=
  if directory == "" || directory.endsWith "/" then directory ++ name
  else directory ++ "/" ++ name

structure ConfigDirectory where
  path : String
  deriving DecidableEq, Repr

section

variable {m : Type → Type} [Monad m] [FileStore m]

namespace ConfigDirectory

def file (d : ConfigDirectory) : String := joinPath d.path settingsFile

def enter (path : String) : m (Except ConfigError ConfigDirectory) := do
  match ← FileStore.settle path with
  | .nothing => return .error (.noDirectory path)
  | _ => return .ok ⟨path⟩

def settingsOf (path : String) (found : Found) : Except ConfigError Settings × List LogLine :=
  if found = .nothing then
    (.ok {},
      [{ level := .warn,
         text := "Source control config not found at " ++ path ++ ", using defaults" }])
  else
    match found.text? with
    | none => (.error (.unreadable path), [])
    | some text =>
      match Settings.ofText? text with
      | none => (.error (.malformed path), [])
      | some s =>
        (.ok s, [{ level := .info, text := "Loaded source control config from " ++ path }])

theorem settingsOf_content {bytes : List UInt8} {path text : String} {s : Settings}
    (hb : Text.decode? bytes = some text) (hs : Settings.ofText? text = some s) :
    settingsOf path (.content bytes) = (.ok s,
      [{ level := .info, text := "Loaded source control config from " ++ path }]) := by
  rw [settingsOf, if_neg nofun]
  simp only [Found.text?, hb, hs]

def load (d : ConfigDirectory) : m (Except ConfigError Settings × List LogLine) :=
  settingsOf d.file <$> FileStore.read d.file

def save (d : ConfigDirectory) (s : Settings) : m (Except ConfigError Unit × List LogLine) := do
  if ← FileStore.write d.file (Text.bytes s.toText) then
    return (.ok (), [{ level := .info, text := "Saved source control config to " ++ d.file }])
  else return (.error (.unwritable d.file), [])

end ConfigDirectory

inductive ManifestError
  | unreadable
  | malformed
  deriving DecidableEq, Repr

def ManifestError.reason : ManifestError → String
  | unreadable => "it is no file of text"
  | malformed => "it is no mapping of names to paths"

def ManifestError.text (path : String) : ManifestError → String
  | unreadable => "Failed to read provider manifest " ++ path
  | malformed => "Failed to parse provider manifest " ++ path

/-- A manifest that cannot be read is reported and lists nothing. -/
def manifestOf (path : String) (found : Found) : NameMap × List LogLine :=
  let problem (e : ManifestError) : NameMap × List LogLine :=
    (.empty, [{ level := .warn, text := e.text path ++ ": " ++ e.reason }])
  match found.text? with
  | none => problem .unreadable
  | some text =>
    match manifestOfText? text with
    | none => problem .malformed
    | some m => (m, [])

def loadManifest (path : String) : m (NameMap × List LogLine) :=
  manifestOf path <$> FileStore.read path

def mergeLogged (r : Registry) (entries : NameMap) : Registry × List LogLine :=
  (r.merge entries,
    (r.passedOver entries.entries).map fun name =>
      { level := .debug, text := "Ignoring duplicate provider entry " ++ name })

def discover (manifest : Option String) : m (Registry × List LogLine) := do
  match manifest with
  | none => return (.empty, [])
  | some path =>
    let (entries, log) ← loadManifest path
    let (registry, more) := mergeLogged .empty entries
    return (registry, log ++ more)

inductive LogStart
  | ready
  | refused (e : ConfigError)
  /-- The directory cannot hold the file, or it is no directory. -/
  | broken
  deriving DecidableEq, Repr

def logFile (name : String) : String := name ++ ".YYYY-MM-DD"

/-- Begins a log of that name in a directory, which is made if need be, unless there is a log
already. -/
def startLog (taken : Bool) (name path : String) : m LogStart := do
  match ← FileStore.settle path with
  | .nothing => return .refused (.noLogDirectory path)
  | .file => return .broken
  | .directory =>
    return if Route.isNoPath (joinPath path (logFile name)) then .broken
      else if taken then .refused .logTaken
      else .ready

end

end SccDispatch
