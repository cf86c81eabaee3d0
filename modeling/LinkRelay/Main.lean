import LinkRelay.Server.Startup
import Std.Time.DateTime.Timestamp
set_option autoImplicit false

/-!
# The command line

The first argument names the configuration file; a second and a third name content to be added and
its root. The server runs until its input ends. Providers are out of reach here: every request
goes without an answer.
-/

namespace LinkRelay.Main

def readWall : IO Time := do
  return (← Std.Time.Timestamp.now).toNanosecondsSinceUnixEpoch.val

def readTarget (path : String) : IO Target := do
  try
    return .file (← IO.FS.readBinFile path).toList
  catch
    | .noFileOrDirectory .. => return .absent
    | _ => return .folder

def textOf : Target → Option String
  | .file content => Utf8.decode? content
  | _ => none

def folderOf (path : String) : Option String :=
  (Text.splitLast '/' path.toList).map fun (folder, _) => String.ofList folder

def writeBack (d : Disk) : IO Unit := do
  if let .file content := d.target then
    if let some folder := folderOf d.path then IO.FS.createDirAll folder
    IO.FS.writeBinFile d.path ⟨content.toArray⟩

def showLog (log : List (LogLevel × String)) : IO Unit :=
  log.forM fun (level, text) => IO.println s!"{level.name} {text}"

partial def waitForEnd (input : IO.FS.Stream) : IO Unit := do
  if !(← input.getLine).isEmpty then waitForEnd input

def surroundings (arguments : List String) : IO Surroundings := do
  let config := textOf (← readTarget (Server.configPath arguments))
  let state := (Config.ofFile .common config).toOption.bind (·.stateFile)
  let target ← match state with
    | some path => readTarget path
    | none => pure .absent
  let now ← readWall
  return { arguments, readFile := fun _ => config, diskAt := fun path => ⟨path, .folder, target, []⟩
           calendar := fun n => now + n, wire := ⟨[], [], .common⟩ }

def run (arguments : List String) : IO UInt32 := do
  let (result, server) := Server.start (← surroundings arguments)
  if let some s := server then
    showLog s.log
    if let some d := s.world.store.backend.disk then writeBack d
  match result, server with
  | .error report, _ =>
    report.lines.forM IO.eprintln
    return 1
  | .ok (), some s =>
    waitForEnd (← IO.getStdin)
    showLog (s.stop.log.drop s.log.length)
    return 0
  | .ok (), none => return 0

end LinkRelay.Main

def main (arguments : List String) : IO UInt32 := LinkRelay.Main.run arguments
