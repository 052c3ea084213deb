import SccDispatch.Provider
import SccDispatch.Text.Quoted

namespace SccDispatch

inductive Command
  | start (window : Window) (caller : String)
  | stop
  | selectProject (window : Window) (project : Project) (mayChange : Bool)
  | openProject (window : Window) (project : Project) (comment : String) (flags : Int32)
  | closeProject
  | queryStatus (files : List String)
  | checkOut (window : Window) (files : List String) (comment : String)
  | checkIn (window : Window) (files : List String) (comment : String) (flags : Int32)
  | undoCheckOut (window : Window) (files : List String)
  | add (window : Window) (files : List String) (comment : String)
  | remove (window : Window) (files : List String) (comment : String)
  | diff (window : Window) (file : String)
  | history (window : Window) (files : List String)
  | properties (window : Window) (file : String)
  deriving DecidableEq, Repr

def Command.name : Command → String
  | .start .. => "initialize"
  | .stop => "uninitialize"
  | .selectProject .. => "select project"
  | .openProject .. => "open project"
  | .closeProject => "close project"
  | .queryStatus .. => "query status"
  | .checkOut .. => "check out"
  | .checkIn .. => "check in"
  | .undoCheckOut .. => "undo check out"
  | .add .. => "add"
  | .remove .. => "remove"
  | .diff .. => "diff"
  | .history .. => "history"
  | .properties .. => "properties"

inductive Output
  | code (code : ResultCode)
  /-- `concurrent` tells that the caller was given the provider for its own status queries. -/
  | initialized (info : ProviderInfo) (concurrent : Bool)
  | status (reply : StatusReply)
  | projectPath (choice : ProjectChoice)
  | faulted (fault : Fault)
  deriving DecidableEq, Repr

namespace Output

/-- The provider's result code; a fault counts as an unknown error. -/
def resultCode : Output → ResultCode
  | .code c => c
  | .initialized info _ => info.code
  | .status reply => reply.code
  | .projectPath choice => choice.code
  | .faulted _ => .unknownError

def fault? : Output → Option Fault
  | .faulted f => some f
  | _ => none

def isFault (o : Output) : Bool := o.fault?.isSome

/-- The caller was given a handle to the provider. -/
def concurrent : Output → Bool
  | .initialized _ concurrent => concurrent
  | _ => false

def succeeded (o : Output) : Bool := !o.isFault && o.resultCode.isOk

end Output

section Execute

variable {π : Type} [Provider π]

def ask (p : π) (on : Thread) (call : Call) (read : call.Answer → Output) :
    Except Cause Output × π :=
  ((respond p on call).1.map read, (respond p on call).2)

/-- Initializes the provider; only one that succeeded is asked about status queries. -/
def start (p : π) (on : Thread) (shares : Bool) (window : Window) (caller : String) :
    Except Cause Output × π :=
  match respond p on (.start window caller) with
  | (.error cause, p) => (.error cause, p)
  | (.ok info, p) =>
    if info.code.isOk then
      ask p on .threadsafeQuery fun threadsafe =>
        .initialized { info with threadsafeQuery := threadsafe } (shares && threadsafe)
    else (.ok (.initialized info (shares && info.threadsafeQuery)), p)

def perform (p : π) (on : Thread) (shares : Bool) : Command → Except Cause Output × π
  | .start window caller => start p on shares window caller
  | .stop => ask p on .stop .code
  | .selectProject window project mayChange =>
    ask p on (.chooseProject window project mayChange) .projectPath
  | .openProject window project comment flags =>
    ask p on (.openProject window project comment flags) .code
  | .closeProject => ask p on .closeProject .code
  | .queryStatus files => ask p on (.queryStatus files) .status
  | .checkOut window files comment => ask p on (.checkOut window files comment) .code
  | .checkIn window files comment flags => ask p on (.checkIn window files comment flags) .code
  | .undoCheckOut window files => ask p on (.undoCheckOut window files) .code
  | .add window files comment => ask p on (.add window files comment) .code
  | .remove window files comment => ask p on (.remove window files comment) .code
  | .diff window file => ask p on (.diff window file) .code
  | .history window files => ask p on (.history window files) .code
  | .properties window file => ask p on (.properties window file) .code

def Output.ofOutcome (name : String) : Except Cause Output → Output
  | .ok out => out
  | .error cause => .faulted (.of name cause)

/-- Runs a command; `shares` lets the caller have the provider for its own status queries. -/
def execute (p : π) (on : Thread) (shares : Bool) (command : Command) : Output × π :=
  let (outcome, p) := perform p on shares command
  (.ofOutcome command.name outcome, p)

end Execute

namespace ResultCode

def debugText (code : ResultCode) : String := "SccCode(" ++ toString code.value.toInt ++ ")"

end ResultCode

def recordText (name : String) (parts : List (String × String)) : String :=
  name ++ " \x7b " ++ ", ".intercalate (parts.map fun p => p.1 ++ ": " ++ p.2) ++ " \x7d"

def boolText (b : Bool) : String := if b then "true" else "false"

def Project.debugText (p : Project) : String :=
  recordText "ProjectContext"
    [("user", Text.quoted p.user), ("project_name", Text.quoted p.name),
     ("local_path", Text.quoted p.localPath), ("aux_project_path", Text.quoted p.auxPath)]

def ProviderInfo.debugText (info : ProviderInfo) : String :=
  recordText "PluginInfo"
    [("code", info.code.debugText), ("provider_name", Text.quoted info.name),
     ("capabilities", info.capabilities.text), ("aux_path_label", Text.quoted info.auxLabel),
     ("checkout_comment_len", toString info.checkOutCommentLimit.toInt),
     ("comment_len", toString info.commentLimit.toInt),
     ("threadsafe_query_info", boolText info.threadsafeQuery)]

def StatusReply.debugText (reply : StatusReply) : String :=
  recordText "QueryResult"
    [("code", reply.code.debugText),
     ("raw", "[" ++ ", ".intercalate (reply.masks.map fun m => toString m.toInt) ++ "]")]

def ProjectChoice.debugText (choice : ProjectChoice) : String :=
  recordText "ProjectPathResult"
    [("code", choice.code.debugText), ("project", choice.project.debugText),
     ("is_new", boolText choice.isNew)]

def Fault.debugText (f : Fault) : String :=
  recordText "PluginFault"
    [("operation", Text.quoted f.operation), ("message", Text.quoted f.message)]

def Output.debugText : Output → String
  | .code c => "Code(" ++ c.debugText ++ ")"
  | .initialized info concurrent =>
    recordText "Initialized" [("info", info.debugText), ("concurrent", boolText concurrent)]
  | .status reply => "Status(" ++ reply.debugText ++ ")"
  | .projectPath choice => "ProjectPath(" ++ choice.debugText ++ ")"
  | .faulted f => "Faulted(" ++ f.debugText ++ ")"

end SccDispatch
