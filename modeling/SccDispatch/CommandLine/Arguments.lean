import SccDispatch.CommandLine.Grammar
import SccDispatch.Request

namespace SccDispatch.CommandLine

def programName : String := "decoda-scc"

def programVersion : String := "1.16.0"

def helpFlag : Flag := ⟨"help", 'h', .showsHelp, "Print help", none⟩

def configFlag : Flag :=
  ⟨"config-dir", 'c', .takes "CONFIG_DIR",
    "Configuration directory containing \x60Decoda SCC.yaml\x60", some "Decoda Data"⟩

def providerFlag : Flag :=
  ⟨"provider", 'p', .takes "PROVIDER", "Provider to bind, overriding the configured one", none⟩

def verboseFlag : Flag := ⟨"verbose", 'v', .switchesOn, "Also log to stderr", none⟩

def versionFlag : Flag := ⟨"version", 'V', .showsVersion, "Print version", none⟩

def commentFlag : Flag := ⟨"comment", 'c', .takes "COMMENT", "", some ""⟩

def keepFlag : Flag :=
  ⟨"keep", 'k', .switchesOn, "Leave the files checked out after checking in", none⟩

def program : Grammar where
  name := programName
  about := "Drive a source control provider the way the debugger does"
  flags := [configFlag, providerFlag, verboseFlag, helpFlag, versionFlag]

inductive Task
  | listProviders
  | request (r : Request)
  deriving DecidableEq, Repr

inductive Command
  | providers
  | status
  | checkOut
  | checkIn
  | undo
  | add
  | remove
  | diff
  | history
  deriving DecidableEq, Repr

namespace Command

def all : List Command :=
  [providers, status, checkOut, checkIn, undo, add, remove, diff, history]

def grammar : Command → Grammar
  | providers => ⟨"providers", "List installed source control providers", [helpFlag], .none⟩
  | status => ⟨"status", "Show the status of files", [helpFlag], .many "FILES"⟩
  | checkOut => ⟨"checkout", "Check files out", [commentFlag, helpFlag], .many "FILES"⟩
  | checkIn => ⟨"checkin", "Check files in", [commentFlag, keepFlag, helpFlag], .many "FILES"⟩
  | undo => ⟨"undo", "Undo a check out", [helpFlag], .many "FILES"⟩
  | add => ⟨"add", "Add files to source control", [commentFlag, helpFlag], .many "FILES"⟩
  | remove =>
    ⟨"remove", "Remove files from source control", [commentFlag, helpFlag], .many "FILES"⟩
  | diff => ⟨"diff", "Show the provider's diff for a file", [helpFlag], .one "FILE"⟩
  | history => ⟨"history", "Show the provider's history for files", [helpFlag], .many "FILES"⟩

def ofName? (name : String) : Option Command := all.find? fun c => c.grammar.name == name

def task (c : Command) (w : Words) : Task :=
  let files := w.operands
  let comment := (w.value? commentFlag.long).getD ""
  match c with
  | providers => .listProviders
  | status => .request (.fileStatuses files)
  | checkOut => .request (.checkOut files comment)
  | checkIn => .request (.checkIn files comment (w.has keepFlag.long))
  | undo => .request (.undoCheckOut files)
  | add => .request (.add files comment)
  | remove => .request (.remove files comment)
  | diff => .request (.diff (files.head?.getD ""))
  | history => .request (.history files)

end Command

structure Arguments where
  configDirectory : String
  /-- The provider to bind instead of the one in the settings. -/
  provider : Option String
  verbose : Bool
  task : Task
  deriving DecidableEq, Repr

def Arguments.of (w : Words) (task : Task) : Arguments where
  configDirectory := (w.value? configFlag.long).getD (configFlag.default.getD "")
  provider := w.value? providerFlag.long
  verbose := w.has verboseFlag.long
  task

inductive Asked
  | run (a : Arguments)
  | help
  | commandHelp (c : Command)
  | helpHelp
  | version
  | nothing
  deriving DecidableEq, Repr

def helpWord : String := "help"

def describe : List String → Except UsageError Asked
  | [] => .ok .help
  | word :: rest =>
    match Command.ofName? word, rest with
    | some c, [] => .ok (.commandHelp c)
    | some _, next :: _ => .error (.unknownCommand next)
    | none, [] => if word == helpWord then .ok .helpHelp else .error (.unknownCommand word)
    | none, next :: _ => .error (.unknownCommand (if word == helpWord then next else word))

def halted : Halt → Except UsageError Asked
  | .usage e => .error e
  | .help => .ok .help
  | .version => .ok .version

def readCommand (r : Reading) (c : Command) (words : List String) : Except UsageError Asked :=
  match c.grammar.read words with
  | .error .help => .ok (.commandHelp c)
  | .error e => halted e
  | .ok w =>
    match r.settle with
    | .error e => halted e
    | .ok r => .ok (.run (.of r.words (c.task w)))

/-- A word that is neither an option nor the value of one names a command. -/
def namesCommand (r : Reading) (word : String) : Bool :=
  r.verbatim || (!r.awaits && !(word.startsWith "-" && word != "-"))

/-- A word that should name a command and does not. After two dashes no word names one. -/
def notACommand (r : Reading) (word : String) : UsageError :=
  if r.verbatim && (word == helpWord || (Command.ofName? word).isSome) then .unexpected word
  else .unknownCommand word

def readFrom (r : Reading) : List String → Except UsageError Asked
  | [] =>
    match r.settle with
    | .error e => halted e
    | .ok r => if r.words.given.isEmpty then .ok .nothing else .error .noCommand
  | word :: rest =>
    if namesCommand r word then
      if r.verbatim then .error (notACommand r word)
      else if word == helpWord then describe rest
      else
        match Command.ofName? word with
        | some c => readCommand r c rest
        | none => .error (notACommand r word)
    else
      match r.meetWord program word with
      | .error e => halted e
      | .ok r => readFrom r rest

def read (words : List String) : Except UsageError Asked := readFrom {} words

end SccDispatch.CommandLine
