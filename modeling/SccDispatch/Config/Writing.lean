import SccDispatch.Config.Settings
import SccDispatch.Yaml.Layout

namespace SccDispatch

open Yaml

def Project.entries (indent : Nat) (p : Project) : List (List Char) :=
  [textEntry indent "User" p.user,
   textEntry indent "Project Name" p.name,
   textEntry indent "Local Path" p.localPath,
   textEntry indent "Aux Project Path" p.auxPath]

def NameMap.written (indent : Nat) (m : NameMap) : List (List Char) :=
  m.entries.map fun e => textEntry indent e.1 e.2

def Settings.entries (indent : Nat) (s : Settings) : List (List Char) :=
  [textEntry indent "Provider" s.provider,
   textEntry indent "Caller Name" s.caller,
   flagEntry indent "Create Missing Projects" s.createMissing,
   flagEntry indent "Concurrent Status Queries" s.concurrentQueries,
   textEntry indent "Log Directory" s.logDirectory,
   flagEntry indent "Debug Mode" s.debug,
   mappingEntry indent "Project" (s.project.entries (indent + step)),
   mappingEntry indent "Extra Providers" (s.extraProviders.written (indent + step))]

def Settings.toText (s : Settings) : String :=
  String.ofList (mappingEntry 0 "Source_Control" (s.entries step))

def Project.toText (p : Project) : String := String.ofList (p.entries 0).flatten

def manifestText (m : NameMap) : String :=
  String.ofList (mappingEntry 0 "Providers" (m.written step))

end SccDispatch
