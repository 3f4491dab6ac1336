import AgentBridge.CommandLine.Scan
import AgentBridge.Environment
import AgentBridge.Folder

/-
  AgentBridge.CommandLine.Invocation — what a command line asks for.

  A command line either asks for a page of help, for the version, or for a task with all that
  the task needs. The faults of a command line are found in this order: those of its options
  by themselves, the path of a file that is given, the positional argument, the required
  options in their order, and arguments that are too many. A switch that asks for help or the
  version comes before all but the first.
-/

namespace AgentBridge.CommandLine

/-- Where the disguise of a server comes from; exactly one of these should be given. -/
structure DisguiseSources where
  domain : Option (List Char)
  text : Option (List Char)
  file : Option (List UInt8)

inductive Task where
  | connect
  | disconnect
  | status
  | importToken (baseUrl token : List Char)
  | openLink (urls : List (List Char))
  | setMode (mode : Mode)
  | updateDisguise (baseUrl serverId adminApiKey : List Char) (sources : DisguiseSources)

inductive Invocation where
  | help (command : Option Command)
  | version
  | task (t : Task) (json : Bool)

/-- The value of an option, or of the environment variable that stands in for it; a variable
that is empty counts as none. -/
def valueOf (env : Environment) (s : Scanned) (o : Opt) : Option (List Char) :=
  match s.value? o with
  | some v => some v
  | none =>
    match o.environmentName?.bind env.get? with
    | some v => if v = "" then none else some v.toList
    | none => none

def required (env : Environment) (s : Scanned) (o : Opt) : Except UsageError (List Char) :=
  match valueOf env s o with
  | some v => .ok v
  | none => .error (.missingOption o)

/-- The contents of the file that an option names, if it is given. -/
def fileOf (files : Files) (s : Scanned) (o : Opt) : Except UsageError (Option (List UInt8)) :=
  match s.value? o with
  | none => .ok none
  | some path =>
    if '\x00' ∈ path then .error (.noPath o path)
    else match files path with
      | some (.file bytes) => .ok (some bytes)
      | some .folder => .error (.isFolder o path)
      | none => .error (.noSuchFile o path)

def noMore : List (List Char) → Except UsageError Unit
  | [] => .ok ()
  | arguments => .error (.extraArguments arguments)

def takeMode : List (List Char) → Except UsageError (Mode × List (List Char))
  | [] => .error (.missingArgument .mode)
  | typed :: rest =>
    match Mode.ofName? typed with
    | some mode => .ok (mode, rest)
    | none => .error (.noSuchMode typed)

/-- Some addresses, at least one. -/
def takeUrls : List (List Char) → Except UsageError (List (List Char))
  | [] => .error (.missingArgument .urls)
  | urls => .ok urls

/-- The task of a command with the given options and arguments. -/
def taskOf (env : Environment) (files : Files) (s : Scanned) : Command → Except UsageError Task
  | .connect => do
    noMore s.rest
    return .connect
  | .disconnect => do
    noMore s.rest
    return .disconnect
  | .status => do
    noMore s.rest
    return .status
  | .importToken => do
    let baseUrl ← required env s .baseUrl
    let token ← required env s .token
    noMore s.rest
    return .importToken baseUrl token
  | .openLink => do return .openLink (← takeUrls s.rest)
  | .setMode => do
    let (mode, rest) ← takeMode s.rest
    noMore rest
    return .setMode mode
  | .updateDisguise => do
    let file ← fileOf files s .disguiseFile
    let baseUrl ← required env s .baseUrl
    let serverId ← required env s .serverId
    let adminApiKey ← required env s .adminApiKey
    noMore s.rest
    return .updateDisguise baseUrl serverId adminApiKey
      ⟨s.value? .domain, s.value? .disguise, file⟩

/-- What a command asks for with the arguments behind its name. -/
def Command.invocation (env : Environment) (files : Files) (c : Command)
    (arguments : List (List Char)) : Except UsageError Invocation := do
  let s ← scan c.options true arguments
  if s.has .help then return .help (some c)
  else return .task (← taskOf env files s c) (s.has .json)

end AgentBridge.CommandLine
