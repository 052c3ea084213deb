import SccDispatch.Files.Tree

namespace SccDispatch

inductive Place
  | directory
  | file
  | nothing
  deriving DecidableEq, Repr

inductive Found
  | nothing
  | unreadable
  | content (bytes : List UInt8)
  deriving DecidableEq, Repr

class FileStore (m : Type → Type) where
  /-- Makes a directory, with those around it, if nothing stands at the path; tells what stands
  there then. -/
  settle : String → m Place
  read : String → m Found
  write : String → List UInt8 → m Bool

namespace FileTree

def settle (t : FileTree) (path : String) : Place × FileTree :=
  match t.at? path with
  | some (.directory _) => (.directory, t)
  | some (.file _) => (.file, t)
  | none =>
    let (made, t) := t.makeDirectory path
    (if made then .directory else .nothing, t)

def read (t : FileTree) (path : String) : Found :=
  match t.at? path with
  | some (.directory _) => .unreadable
  | some (.file content) => .content content
  | none => .nothing

end FileTree

instance : FileStore (StateM FileTree) where
  settle path := fun t => t.settle path
  read path := fun t => (t.read path, t)
  write path content := fun t => t.writeFile path content

def Found.text? : Found → Option String
  | .content bytes => Text.decode? bytes
  | _ => none

end SccDispatch
