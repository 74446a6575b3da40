import InputRelay.CommandLine.Run

namespace InputRelay.CommandLine

/-- The causes are told apart by the number of the system's error. -/
def readErrorOf : IO.Error → ReadError
  | .noFileOrDirectory .. => .notFound
  | .inappropriateType _ 20 _ => .notDirectory
  | .inappropriateType _ 21 _ => .isDirectory
  | e => .other (toString e)

def readText (path : String) : IO (Except ReadError String) := do
  try
    match String.fromUTF8? (← IO.FS.readBinFile path) with
    | some text => return .ok text
    | none => return .error .invalidText
  catch e => return .error (readErrorOf e)

def readDisk (paths : List String) : IO Disk := do
  let files ← paths.mapM fun path ↦ return (path, ← readText path)
  return ⟨fun path ↦ (files.lookup path).getD (.error .notFound)⟩

end InputRelay.CommandLine

open InputRelay CommandLine in
def main (args : List String) : IO UInt32 := do
  let home := (← IO.getEnv "HOME").getD "~"
  let defaultPath := Config.defaultPath home (← IO.getEnv "XDG_CONFIG_HOME")
  let paths := match Invocation.read args with
    | .ok i => i.paths defaultPath
    | .error _ => []
  let outcome := run (← readDisk paths) defaultPath args
  match outcome with
  | .printed lines => lines.forM IO.println
  | .failed e => IO.eprintln e.headline
  | .misused => usage.forM IO.eprintln
  return outcome.exitCode.toUInt32
