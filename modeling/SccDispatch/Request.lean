import SccDispatch.Command
import SccDispatch.Status

namespace SccDispatch

inductive Request
  | checkOut (files : List String) (comment : String)
  | checkIn (files : List String) (comment : String) (keep : Bool)
  | undoCheckOut (files : List String)
  | add (files : List String) (comment : String)
  | remove (files : List String) (comment : String)
  | history (files : List String)
  | diff (file : String)
  | properties (file : String)
  | fileStatus (file : String)
  | fileStatuses (files : List String)
  deriving DecidableEq, Repr

inductive Reply
  | done (success : Bool)
  | status (status : Status)
  /-- One status for each file asked about, in order. -/
  | statuses (statuses : List Status)
  deriving DecidableEq, Repr

def resize {α : Type} (n : Nat) (a : α) (l : List α) : List α :=
  l.take n ++ List.replicate (n - l.length) a

def statusesOf (n : Nat) : Option Output → List Status
  | some (.status reply) =>
    if reply.code.isOk then resize n .error (reply.masks.map .ofMask)
    else List.replicate n .error
  | _ => List.replicate n .error

namespace Request

def files : Request → List String
  | checkOut files _ | checkIn files _ _ | undoCheckOut files | add files _ | remove files _
  | history files | fileStatuses files => files
  | diff file | properties file | fileStatus file => [file]

def isQuery : Request → Bool
  | fileStatus _ | fileStatuses _ => true
  | _ => false

def command (r : Request) (window : Window) : Command :=
  match r with
  | checkOut files comment => .checkOut window files comment
  | checkIn files comment keep =>
    .checkIn window files comment (if keep then keepCheckedOut else 0)
  | undoCheckOut files => .undoCheckOut window files
  | add files comment => .add window files comment
  | remove files comment => .remove window files comment
  | history files => .history window files
  | diff file => .diff window file
  | properties file => .properties window file
  | fileStatus file => .queryStatus [file]
  | fileStatuses files => .queryStatus files

def reply (r : Request) (out : Option Output) : Reply :=
  match r with
  | fileStatus _ => .status ((statusesOf 1 out).head?.getD .error)
  | fileStatuses files => .statuses (statusesOf files.length out)
  | _ => .done (out.any Output.succeeded)

/-- The answer when no command is needed: nothing was asked of any file. -/
def idle? (r : Request) : Option Reply :=
  if r.files.isEmpty then some (if r.isQuery then .statuses [] else .done true) else none

/-- A query that ran and gave no statuses is worth a warning. -/
def warning? (r : Request) (out : Option Output) : Option String :=
  match r.isQuery, out with
  | true, some (.status reply) =>
    if reply.code.isOk then none else some ("Status query failed: " ++ reply.code.text)
  | true, some out => some ("Status query failed: " ++ out.resultCode.text)
  | _, _ => none

end Request

end SccDispatch
