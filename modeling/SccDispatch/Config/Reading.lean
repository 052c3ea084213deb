import SccDispatch.Config.Settings
import SccDispatch.Yaml.Fields

namespace SccDispatch

open Yaml

def Project.ofFields? (d : Document) (fs : List Field) : Option Project := do
  let user ← fieldOr? fs "User" "" d.text?
  let name ← fieldOr? fs "Project Name" "" d.text?
  let localPath ← fieldOr? fs "Local Path" "" d.text?
  let auxPath ← fieldOr? fs "Aux Project Path" "" d.text?
  return { user, name, localPath, auxPath }

def Project.ofNode? (d : Document) (n : Node) : Option Project :=
  d.fields? n >>= Project.ofFields? d

/-- Each key has a default of its own. -/
def Settings.ofFields? (d : Document) (fs : List Field) : Option Settings := do
  let provider ← fieldOr? fs "Provider" "" d.text?
  let caller ← fieldOr? fs "Caller Name" defaultCaller d.text?
  let createMissing ← fieldOr? fs "Create Missing Projects" true d.flag?
  let concurrentQueries ← fieldOr? fs "Concurrent Status Queries" true d.flag?
  let logDirectory ← fieldOr? fs "Log Directory" defaultLogDirectory d.text?
  let debug ← fieldOr? fs "Debug Mode" false d.flag?
  let project ← fieldOr? fs "Project" {} (Project.ofNode? d)
  let extraProviders ← fieldOr? fs "Extra Providers" .empty d.nameMap?
  return { provider, caller, createMissing, concurrentQueries, logDirectory, debug, project,
           extraProviders }

def Settings.ofNode? (d : Document) (n : Node) : Option Settings := do
  let fs ← d.fields? n
  let settings ← fieldOr? fs "Source_Control" none fun n =>
    (d.fields? n >>= Settings.ofFields? d).map some
  settings

def Settings.ofText? (text : String) : Option Settings := do
  let d ← Document.read? text
  Settings.ofNode? d d.root

def Project.ofText? (text : String) : Option Project := do
  let d ← Document.read? text
  Project.ofNode? d d.root

def manifestOfText? (text : String) : Option NameMap := do
  let d ← Document.read? text
  let fs ← d.fields? d.root
  fieldOr? fs "Providers" .empty d.nameMap?

end SccDispatch
