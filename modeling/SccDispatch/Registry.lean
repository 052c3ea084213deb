import SccDispatch.NameMap

namespace SccDispatch

structure Installed where
  name : String
  path : String
  deriving DecidableEq, Repr, Inhabited

namespace Installed

def text (p : Installed) : String := p.name ++ " (" ++ p.path ++ ")"

end Installed

def foldName (name : String) : List Char := name.toList.map Char.toLower

/-- Two names mean the same provider. -/
def sameName (a b : String) : Bool := foldName a == foldName b

structure Registry where
  entries : List Installed := []
  deriving DecidableEq, Repr, Inhabited

namespace Registry

def empty : Registry := {}

def ofMap (m : NameMap) : Registry := ⟨m.entries.map fun e => ⟨e.1, e.2⟩⟩

def hasName (r : Registry) (name : String) : Bool := r.entries.any fun p => sameName p.name name

/-- Adds a provider unless its name is taken. -/
def add (r : Registry) (p : Installed) : Registry :=
  if r.hasName p.name then r else ⟨r.entries ++ [p]⟩

/-- Adds the entries of a map in order; names already present keep their entry. -/
def merge (r : Registry) (m : NameMap) : Registry :=
  m.entries.foldl (fun r e => r.add ⟨e.1, e.2⟩) r

def passedOver (r : Registry) : List (String × String) → List String
  | [] => []
  | e :: es =>
    let rest := passedOver (r.add ⟨e.1, e.2⟩) es
    if r.hasName e.1 then e.1 :: rest else rest

def size (r : Registry) : Nat := r.entries.length

def isEmpty (r : Registry) : Bool := r.entries.isEmpty

def get? (r : Registry) (index : Nat) : Option Installed := r.entries[index]?

def name? (r : Registry) (index : Nat) : Option String := (r.get? index).map Installed.name

def find? (r : Registry) (name : String) : Option Installed :=
  r.entries.find? fun p => sameName p.name name

end Registry

end SccDispatch
