import SccDispatch.Text.Utf8

namespace SccDispatch

inductive PathEnd
  | name
  /-- With a slash: only a directory can be meant. -/
  | slash
  /-- With a dot for the directory itself, and maybe slashes: it has to be there already. -/
  | dot
  deriving DecidableEq, Repr

structure Route where
  parts : List String
  ending : PathEnd
  deriving DecidableEq, Repr

namespace Route

def isNoPath (path : String) : Bool :=
  path == "" || path.toList.contains '\x00' || 4096 ≤ (Text.bytes path).length

def up : String := ".."

/-- The names between slashes; `done` holds the one being read, last character first. -/
def names (done : List Char) : List Char → List String
  | [] => if done.isEmpty then [] else [String.ofList done.reverse]
  | c :: cs =>
    if c == '/' then
      if done.isEmpty then names [] cs else String.ofList done.reverse :: names [] cs
    else names (c :: done) cs

def ofText? (path : String) : Option Route :=
  if isNoPath path then none
  else
    let cs := path.toList
    let parts := names [] cs
    let ending :=
      if parts.getLast? == some "." then .dot
      else if cs.getLast? == some '/' then .slash
      else .name
    let steps := parts.filter (· != ".")
    some ⟨if cs.head? == some '/' then up :: steps else steps, ending⟩

end Route

def isLongName (name : String) : Bool := 255 < (Text.bytes name).length

inductive Entry
  | file (content : List UInt8)
  | directory (entries : List (String × Entry))
  deriving Inhabited

namespace Entry

def isDirectory : Entry → Bool
  | .directory _ => true
  | .file _ => false

def entries : Entry → List (String × Entry)
  | .directory es => es
  | .file _ => []

def find? (e : Entry) : List String → Option Entry
  | [] => some e
  | name :: names =>
    match e.entries.find? fun x => x.1 == name with
    | some x => x.2.find? names
    | none => none

def change (f : List (String × Entry) → List (String × Entry)) (e : Entry) :
    List String → Entry
  | [] =>
    match e with
    | .directory es => .directory (f es)
    | .file content => .file content
  | name :: names =>
    match e with
    | .directory es =>
      .directory (es.map fun x => if x.1 == name then (x.1, x.2.change f names) else x)
    | .file content => .file content

end Entry

/-- Everything inside the working directory. The directories around it are there, and nothing else
is known of them. -/
structure FileTree where
  root : Entry := .directory []
  deriving Inhabited

namespace FileTree

def isAround (place : List String) : Bool := place.all (· == Route.up)

def isOutside (place : List String) : Bool := place.head? == some Route.up

def find? (t : FileTree) (place : List String) : Option Entry :=
  if place.isEmpty then some t.root
  else if isAround place then some (.directory [])
  else t.root.find? place

def isDirectoryAt (t : FileTree) (place : List String) : Bool :=
  (t.find? place).any Entry.isDirectory

def put (t : FileTree) (place : List String) (e : Entry) : FileTree :=
  match place.getLast? with
  | some name =>
    ⟨t.root.change (fun es => (name, e) :: es.filter fun x => x.1 != name) place.dropLast⟩
  | none => t

def erase (t : FileTree) (place : List String) : FileTree :=
  match place.getLast? with
  | some name => ⟨t.root.change (List.filter fun x => x.1 != name) place.dropLast⟩
  | none => t

def next? (place : List String) (part : String) : Option (List String) :=
  if part == Route.up then some (if isAround place then place ++ [part] else place.dropLast)
  else if isLongName part then none
  else some (place ++ [part])

def goto? (t : FileTree) (place : List String) : List String → Option (List String)
  | [] => some place
  | part :: parts =>
    if t.isDirectoryAt place then next? place part >>= fun p => t.goto? p parts else none

def route? (t : FileTree) (path : String) : Option (List String × PathEnd) := do
  let r ← Route.ofText? path
  return (← t.goto? [] r.parts, r.ending)

def at? (t : FileTree) (path : String) : Option Entry := do
  let (place, ending) ← t.route? path
  let e ← t.find? place
  if ending = .name || e.isDirectory then some e else none

def isDirectory (t : FileTree) (path : String) : Bool := (t.at? path).any Entry.isDirectory

def makeWay (t : FileTree) (place : List String) : List String → Bool × FileTree
  | [] => (true, t)
  | part :: parts =>
    match next? place part with
    | none => (false, t)
    | some p =>
      match t.find? p with
      | some (.directory _) => t.makeWay p parts
      | some (.file _) => (false, t)
      | none => if isOutside p then (false, t) else (t.put p (.directory [])).makeWay p parts

def makeDirectory (t : FileTree) (path : String) : Bool × FileTree :=
  match Route.ofText? path with
  | none => (path == "", t)
  | some r =>
    if r.ending = .dot then
      let (_, t) := t.makeWay [] r.parts.dropLast
      (t.isDirectory path, t)
    else t.makeWay [] r.parts

def writeFile (t : FileTree) (path : String) (content : List UInt8) : Bool × FileTree :=
  match t.route? path with
  | some (place, .name) =>
    if isOutside place || t.isDirectoryAt place then (false, t)
    else (true, t.put place (.file content))
  | _ => (false, t)

def placeFile (t : FileTree) (path : String) (content : List UInt8) : FileTree :=
  match Route.ofText? path with
  | some r => ((t.makeWay [] r.parts.dropLast).2.writeFile path content).2
  | none => t

def removeFile (t : FileTree) (path : String) : Bool × FileTree :=
  match t.route? path, t.at? path with
  | some (place, _), some (.file _) => (true, t.erase place)
  | _, _ => (false, t)

/-- Names in the working directory, sorted. -/
def names (t : FileTree) : List String :=
  (t.root.entries.map Prod.fst).mergeSort fun a b => !(b < a)

end FileTree

end SccDispatch
