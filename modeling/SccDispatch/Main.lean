import SccDispatch.CommandLine.Run
import SccDispatch.Rehearsal.Echo

namespace SccDispatch

/-- Files of the system the program runs on. -/
instance : FileStore IO where
  settle path := do
    try
      if path != "" then IO.FS.createDirAll path
      return .directory
    catch _ =>
      try
        let _ ← IO.FS.readBinFile path
        return .file
      catch _ => return .nothing
  read path := do
    try return .content (← IO.FS.readBinFile path).toList
    catch e =>
      match e with
      | .noFileOrDirectory .. => return .nothing
      | _ => return .unreadable
  write path content := do
    try
      IO.FS.writeBinFile path (ByteArray.mk content.toArray)
      return true
    catch _ => return false

/-- Names the manifest of the installed providers. -/
def manifestVariable : String := "DECODA_SCC_PROVIDERS"

end SccDispatch

open SccDispatch SccDispatch.Rehearsal in
def main (args : List String) : IO UInt32 := do
  let manifest ← IO.getEnv manifestVariable
  let ended ← CommandLine.run (pure (Echo.loader workplace)) manifest args
  IO.print ended.output
  IO.eprint ended.errors
  return UInt32.ofNat ended.exit
