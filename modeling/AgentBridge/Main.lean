import AgentBridge.CommandLine.Run

/-
  AgentBridge.Main — the program as an executable.

  This layer only fetches what a run depends on and carries out what it says: it reads the
  environment and the files that the arguments could name, prints the two streams and exits.
  It starts no process itself. Whoever calls it runs the backend, with the same program,
  script, action and payload, and pipes what it writes into the standard input, which is read
  only if the command line starts a backend at all.
-/

namespace AgentBridge.Main

/-- The environment variables that matter. -/
def variableNames : List String :=
  ["NODE_BINARY", "XRAY_DESKTOP_BRIDGE_TIMEOUT", "XRAY_DESKTOP_DEBUG", "XRAY_ADMIN_API_KEY", "TERM"]

/-- The variables that are set. -/
def environment : IO Environment := do
  let mut env := Environment.empty
  for name in variableNames do
    if let some value ← IO.getEnv name then env := env.set name value
  return env

/-- The paths that an argument could give: all of it, or what follows an equals sign. -/
def paths (argument : String) : List (List Char) :=
  let whole := argument.toList
  [whole, (cutAt '=' whole).2].filter (· != [])

def entry? (path : String) : IO (Option Entry) := do
  let full := (← IO.currentDir) / path
  if ← full.isDir then return some .folder
  try return some (.file (← IO.FS.readBinFile full).toList)
  catch _ => return none

/-- The files that the arguments could name. -/
def files (arguments : List String) : IO Files := do
  let mut entries := []
  for path in arguments.flatMap paths do
    if let some e ← entry? (String.ofList path) then entries := (path, e) :: entries
  return fun path => entries.lookup path

def input : IO (List UInt8) := do return (← (← IO.getStdin).readBinToEnd).toList

/-- The system that starts no process. -/
def idle : Runner := fun _ => .exited 0 none none

def lastWords : CommandLine.Fatal → String
  | .limit l => l.message
  | .unwritable e => e.message
  | .undecodable f => f.message
  | .unencodable s => s.message
  | .noPath => "embedded null byte"

/-- Run a command line and carry out what comes of it. -/
def run (arguments : List String) : IO UInt32 := do
  let env ← environment
  let directory := Text.ofString (← IO.appDir).toString
  let found ← files arguments
  let runWith (runner : Runner) : CommandLine.Run :=
    CommandLine.run ⟨env, directory, found, runner⟩ (arguments.map String.toList)
  let mut r := runWith idle
  unless r.spawns.isEmpty do
    let bytes ← input
    r := runWith fun _ => .exited 0 (some bytes) none
  let out ← IO.getStdout
  let err ← IO.getStderr
  let onTerminal := (← out.isTty) && (← err.isTty)
  let f := r.finish onTerminal
  out.putStr (String.ofList f.output)
  err.putStr (String.ofList f.errors)
  match f.status with
  | .ok status => return status.toUInt32
  | .error f =>
    err.putStrLn (lastWords f)
    return 1

end AgentBridge.Main

def main (arguments : List String) : IO UInt32 := AgentBridge.Main.run arguments
