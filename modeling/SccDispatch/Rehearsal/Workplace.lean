import SccDispatch.Dispatcher
import SccDispatch.Files.Tree
import SccDispatch.Native.Provider

namespace SccDispatch.Rehearsal

open Native

def modules : List (String × List EntryPoint) :=
  [("full", EntryPoint.all),
    ("initfail", EntryPoint.all),
    ("warninit", EntryPoint.all),
    ("minimal", EntryPoint.required),
    ("noexcap", EntryPoint.required ++ [.properties]),
    ("no_many", EntryPoint.all.filter fun e => !([.checkIn, .remove, .queryInfo].contains e))] ++
  EntryPoint.all.map fun e => ("no_" ++ e.symbol, EntryPoint.all.filter (· != e))

def providersDirectory : String := "providers"

def moduleEnding : String := ".so"

def moduleContent : List UInt8 := [0x7F, 0x45, 0x4C, 0x46, 0xFF]

def notAModule : String := "not a provider module"

/-- The files of the providers' directory: the modules, and a text named like one. -/
def providerFiles : List (String × List UInt8) :=
  ("text" ++ moduleEnding, Text.bytes (notAModule ++ "\n")) ::
    modules.map fun m => (m.1 ++ moduleEnding, moduleContent)

/-- What is there before anything is done. -/
def workplace : FileTree where
  root := .directory
    [(providersDirectory, .directory (providerFiles.map fun f => (f.1, .file f.2)))]

/-- A path without the zero character that ends it, if it brings one. -/
def withoutZero (path : String) : String :=
  if path.endsWith "\x00" then (path.dropEnd 1).copy else path

def systemLibraries : List String :=
  ["libc.so.6", "libm.so.6", "libdl.so.2", "libpthread.so.0", "librt.so.1", "libgcc_s.so.1",
    "ld-linux-x86-64.so.2"]

inductive Loadable
  /-- The running program or a library of the system; neither exports an entry point. -/
  | foreign
  | module (name : String)
  deriving DecidableEq, Repr

/-- What a path stands for among the files of a tree. The empty path stands for the running
program. Only a path with a slash is looked up as a file. -/
def loadable? (t : FileTree) (path : String) : Option Loadable :=
  let path := withoutZero path
  if path == "" || systemLibraries.contains path then some .foreign
  else if !path.toList.contains '/' then none
  else
    match t.route? path, t.at? path with
    | some ([directory, file], _), some (.file _) =>
      if directory == providersDirectory && file.endsWith moduleEnding then
        some (.module (file.dropEnd moduleEnding.length).copy)
      else none
    | _, _ => none

def Loadable.exports? : Loadable → Option (List EntryPoint)
  | .foreign => some []
  | .module name => (modules.find? fun m => m.1 == name).map Prod.snd

inductive LoadError
  | unreadable
  | missing (entry : EntryPoint)
  deriving DecidableEq

def LoadError.bindError (path : String) : LoadError → BindError
  | .unreadable => .load path notAModule
  | .missing e => .missingEntryPoint path e.symbol

def load {μ : Type} (t : FileTree) (path : String) (code : μ) :
    Except LoadError (NativeProvider μ) :=
  match loadable? t path >>= Loadable.exports? with
  | none => .error .unreadable
  | some exported =>
    match resolve exported code with
    | .ok p => .ok p
    | .error e => .error (.missing e)

end SccDispatch.Rehearsal
