import SccDispatch.CommandLine.Help
import SccDispatch.Config.Store
import SccDispatch.Text.Pad

namespace SccDispatch.CommandLine

structure Ended (π : Type) where
  /-- Zero if all went well. -/
  exit : Nat := 0
  output : String := ""
  errors : String := ""
  /-- The dispatcher that was used, if it came to that. -/
  dispatcher : Option (Dispatcher π) := none

namespace Ended

variable {π : Type}

def failed (reason : String) (dispatcher : Option (Dispatcher π) := none) : Ended π :=
  { exit := 1, errors := "Error: " ++ reason ++ "\n", dispatcher }

def misused (e : UsageError) : Ended π := { exit := 2, errors := "error: " ++ e.text ++ "\n" }

def log (e : Ended π) (before : List LogLine) : List LogLine :=
  match e.dispatcher with
  | some d => before ++ d.journal.log.toList
  | none => before

/-- Shows the log with the errors, the given lines first. Not all of it is shown unless `all`. -/
def withLog (e : Ended π) (all : Bool) (before : List LogLine) : Ended π :=
  let shown := (e.log before).filter fun l => all || l.level ≠ .debug
  { e with errors := String.join (shown.map LogLine.line) ++ e.errors }

end Ended

inductive SessionError
  | noProvider (settings : String)
  | notFound (name : String)
  | notStarted (p : Installed)
  deriving DecidableEq, Repr

def SessionError.text : SessionError → String
  | noProvider settings => "No source control provider configured in " ++ settings
  | notFound name => "Source control provider not found: " ++ name
  | notStarted p => "Failed to initialize source control provider " ++ p.text

def providerLines (r : Registry) : String :=
  String.join <| r.entries.zipIdx.map fun e => toString e.2 ++ ": " ++ e.1.text ++ "\n"

def statusLine (file : String) (s : Status) : String :=
  (Text.Field.mk 20 none .right ' ').set s.text ++ "  " ++ file ++ "\n"

def replyLines (r : Request) : Reply → String
  | .statuses ss => String.join ((r.files.zip ss).map fun e => statusLine e.1 e.2)
  | _ => ""

def Reply.succeeded : Reply → Bool
  | .done b => b
  | _ => true

section

variable {π : Type} [Provider π]

/-- The name of the provider to bind: the one asked for, or else the one of the settings. -/
def wanted (settings : Settings) (asked : Option String) : String := asked.getD settings.provider

def choose (settings : Settings) (installed : Registry) (file : String) (asked : Option String) :
    Except SessionError Installed :=
  let name := wanted settings asked
  if name == "" then .error (.noProvider file)
  else
    match (settings.registry installed).find? name with
    | some p => .ok p
    | none => .error (.notFound name)

/-- Opens the project of the settings, if they name one. It is no failure if that cannot be done. -/
def openConfigured (d : Dispatcher π) (p : Project) : Dispatcher π :=
  if p.isEmpty then d
  else
    let (opened, d) := d.openProject p
    if opened then d
    else d.write .warn ("Could not open project " ++ p.name ++ ", continuing without one")

def session (settings : Settings) (load : Installed → Loader π) (p : Installed) (r : Request) :
    Ended π :=
  match ({ options := settings.options } : Dispatcher π).rebind p.name (load p) .none with
  | (false, d) => .failed (SessionError.notStarted p).text (some d)
  | (true, d) =>
    let (reply, d) := (openConfigured d settings.project).request r
    let d := d.shutdown
    if Reply.succeeded reply then { output := replyLines r reply, dispatcher := some d }
    else .failed "Source control operation failed, see the log for details" (some d)

variable {m : Type → Type} [Monad m] [FileStore m]

def findInstalled (settings : Settings) (manifest : Option String) :
    m (Registry × List LogLine) := do
  let (installed, log) ← discover manifest
  let count := "Discovered " ++ toString installed.size ++ " source control provider(s)"
  let (_, more) := mergeLogged installed settings.extraProviders
  return (installed, log ++ [{ level := .info, text := count }] ++ more)

def perform (settings : Settings) (file : String) (load : m (Installed → Loader π))
    (manifest : Option String) (a : Arguments) : m (Ended π × List LogLine) := do
  match a.task with
  | .listProviders =>
    let (installed, log) ← findInstalled settings manifest
    return ({ output := providerLines (settings.registry installed) }, log)
  | .request r =>
    let (installed, log) ←
      if wanted settings a.provider == "" then pure (.empty, [])
      else findInstalled settings manifest
    match choose settings installed file a.provider with
    | .error e => return (.failed e.text, log)
    | .ok p => return (session settings (← load) p r, log)

def openingLines (settings : Settings) (verbose : Bool) : List LogLine :=
  [{ level := .info
     text := "Logging initialized: dir=" ++ settings.logDirectory ++ ", prefix=" ++ programName ++
       ", debug=" ++ boolText settings.debug ++ ", console=" ++ boolText verbose },
    { level := .info, text := "Starting " ++ programName ++ " v" ++ programVersion }]

/-- Does what was asked for, with the settings in the directory that was asked for. A log that
cannot be begun ends the program as it stands. Modules are looked for when the log is there. -/
def runArguments (load : m (Installed → Loader π)) (manifest : Option String) (a : Arguments) :
    m (Ended π) := do
  match ← ConfigDirectory.enter a.configDirectory with
  | .error e => return .failed e.text
  | .ok d =>
    match ← d.load with
    | (.error e, _) => return .failed e.text
    | (.ok settings, _) =>
      match ← startLog false programName settings.logDirectory with
      | .refused e => return .failed e.text
      | .broken => return { exit := 101 }
      | .ready =>
        let (ended, log) ← perform settings d.file load manifest a
        let before := openingLines settings a.verbose ++ log
        return if a.verbose then ended.withLog settings.debug before else ended

def run (load : m (Installed → Loader π)) (manifest : Option String) (words : List String) :
    m (Ended π) :=
  match read words with
  | .error e => return .misused e
  | .ok (.run a) => runArguments load manifest a
  | .ok .help => return { output := describeProgram }
  | .ok (.commandHelp c) => return { output := describeCommand c }
  | .ok .helpHelp => return { output := describeHelp }
  | .ok .version => return { output := versionLine }
  | .ok .nothing => return { exit := 2, errors := describeProgram }

end

end SccDispatch.CommandLine
