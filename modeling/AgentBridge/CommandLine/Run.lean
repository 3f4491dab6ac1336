import AgentBridge.CommandLine.Help
import AgentBridge.CommandLine.Invocation
import AgentBridge.Disguise
import AgentBridge.Link
import AgentBridge.Operation
import AgentBridge.StatusPage
import AgentBridge.Text.Blank

/-
  AgentBridge.CommandLine.Run — what a command line does.

  A run prints, starts at most one backend process, and ends with exit status 0 or 1; or it
  is cut short, by a reader's limit, a value without JSON text, a file that is not UTF-8, a
  path that cannot be looked up or a line that cannot be written. Every failure is printed
  once: as a line on the error stream, or, with `--json`, as an object on the output stream.
  Faults of the command line itself are always lines.

  A `Run` says what is printed; `Run.finish` puts it on the streams and says how it ended.

  The configuration is taken from the environment, afresh for every run.
-/

namespace AgentBridge.CommandLine

/-- Everything outside the program that a run depends on. -/
structure World where
  env : Environment
  /-- The directory where the application is installed. -/
  directory : Text
  files : Files
  runner : Runner

inductive Fatal where
  | limit (l : Json.Limit)
  | unwritable (e : Json.WriteError)
  | undecodable (f : Utf8.Fault)
  | unencodable (s : Utf8.Surrogates)
  | noPath
  deriving DecidableEq

/-- What a run does: its exit status, what it prints and what it starts, all before it prints
its outcome. -/
structure Run where
  status : Except Fatal Nat
  printed : List Printed
  spawns : List Spawn

/-- What is seen of a run that has ended. -/
structure Finish where
  status : Except Fatal Nat
  output : List Char
  errors : List Char
  spawns : List Spawn

namespace Run

/-- What is seen of a run, on a terminal or not. A line that cannot be written cuts it short. -/
def finish (terminal : Bool) (r : Run) : Finish :=
  let s := Terminal.write terminal r.printed
  ⟨match s.fault with
    | some f => .error (.unencodable f)
    | none => r.status,
    s.output, s.errors, r.spawns⟩

/-- Put what was printed and started earlier in front. -/
def after (printed : List Printed) (spawns : List Spawn) (r : Run) : Run :=
  ⟨r.status, printed ++ r.printed, spawns ++ r.spawns⟩

def page (text : String) : Run := ⟨.ok 0, [.result text], []⟩

def json (status : Nat) (v : Json) : Run :=
  match Json.write v with
  | .ok line => ⟨.ok status, [.result (Text.ofChars line)], []⟩
  | .error e => ⟨.error (.unwritable e), [], []⟩

def lines : Except Json.WriteError (List Text) → Run
  | .ok ls => ⟨.ok 0, ls.map .result, []⟩
  | .error e => ⟨.error (.unwritable e), [], []⟩

/-- End with a failure that is always a line. -/
def failure (message : Text) : Run := ⟨.ok 1, [.failure ("Error: " ++ message)], []⟩

def failed (asJson : Bool) (message : Text) : Run :=
  if asJson then json 1 (Envelope.refusal message) else failure message

def outcome (v : Json) : Json := .object [("ok", .bool true), ("data", v)]

def succeeded (label : String) (v : Json) : Run :=
  match v with
  | .null => ⟨.ok 0, [.result (label ++ " completed" : String)], []⟩
  | v => lines ((Json.writeIndented v).map fun text => [Text.ofChars text])

end Run

/-! ## Operations -/

def logged (log : List LogEntry) : List Printed := log.map .log

def operate (w : World) (op : Operation) (args : Members Empty) (asJson : Bool)
    (present : Json → Run) : Run :=
  let t := op.run (Config.ofEnvironment w.directory w.env) w.env.debug w.runner args
  match t.result with
  | .ok v => (if asJson then Run.json 0 (Run.outcome v) else present v).after (logged t.log) t.spawns
  | .error (.limit l) => ⟨.error (.limit l), logged t.log, t.spawns⟩
  | .error (.reported e) =>
    let remark := Log.debug w.env.debug (op.name ++ " failed: " ++ e.kind.name : String)
    (Run.failed asJson e.message).after (logged (t.log ++ remark)) t.spawns

def runImport (w : World) (baseUrl token : List Char) (asJson : Bool) : Run :=
  operate w .importToken
    [("base_url", .str (Text.ofChars baseUrl)), ("token", .str (Text.ofChars token))]
    asJson (Run.succeeded "Import")

/-! ## Links -/

/-- The message when none of several links is valid. -/
def noValidLink : Text := "Deep link ignored: invalid format. Expected xraycp://import?..."

/-- The message when no link is valid: the reason of a single one, or a general message. -/
def rejection : List (List Char × LinkError) → Text
  | [(_, reason)] => reason.message
  | _ => noValidLink

def skipped (url : List Char) (reason : LinkError) : LogEntry :=
  .warning ("Skipping deep link " ++ Text.ofChars url ++ ": " ++ reason.message)

def runLinks (w : World) (urls : List (List Char)) (asJson : Bool) : Run :=
  match Link.firstValid urls with
  | (none, rejected) => Run.failed asJson (rejection rejected)
  | (some link, rejected) =>
    (runImport w link.baseUrl link.token asJson).after
      (logged (rejected.map fun (url, reason) => skipped url reason)) []

/-! ## Disguises -/

inductive DisguiseError where
  | notOneSource
  | notDomain
  | malformed (f : Json.Fault) (place : Json.Position)
  | notObject
  deriving DecidableEq, Repr

/-- The wording of the reason why there is no disguise. -/
def DisguiseError.message : DisguiseError → Text
  | .notOneSource => "Pass exactly one of --domain, --disguise or --disguise-file"
  | .notDomain => "Invalid value for --domain: " ++ Domain.malformed
  | .malformed f place =>
    "Invalid value for disguise: not valid JSON: " ++ Json.faultMessage f place
  | .notObject => "Invalid value for disguise: must be a JSON object"

/-- Why no disguise could be had: a reason to report, or one that cuts the run short. -/
inductive NoDisguise where
  | reported (e : DisguiseError)
  | fatal (f : Fatal)

def disguiseOfText (text : List Char) : Except NoDisguise (Members Empty) :=
  match Json.read text with
  | .ok (.object m) => .ok m
  | .ok _ => .error (.reported .notObject)
  | .error (.malformed f place) => .error (.reported (.malformed f place))
  | .error (.limit l) => .error (.fatal (.limit l))

/-- The disguise in a file. That a text file is UTF-8 is not said by the file: it is how the host
is set up. -/
def disguiseOfFile (bytes : List UInt8) : Except NoDisguise (Members Empty) :=
  match Utf8.decode? bytes with
  | .ok text => disguiseOfText (Newline.unify text)
  | .error f => .error (.fatal (.undecodable f))

/-- The disguise as a domain that the user has typed. -/
def disguiseOfDomain (typed : List Char) : Except NoDisguise (Members Empty) :=
  match Domain.read? typed with
  | some domain => .ok (Disguise.ofDomain domain)
  | none => .error (.reported .notDomain)

/-- The disguise from the one source that is given. -/
def DisguiseSources.load : DisguiseSources → Except NoDisguise (Members Empty)
  | ⟨some typed, none, none⟩ => disguiseOfDomain typed
  | ⟨none, some text, none⟩ => disguiseOfText text
  | ⟨none, none, some bytes⟩ => disguiseOfFile bytes
  | _ => .error (.reported .notOneSource)

def trimmed (cs : List Char) : Json := .str (Text.ofChars (Blank.trim cs))

def runDisguise (w : World) (baseUrl serverId adminApiKey : List Char)
    (sources : DisguiseSources) (asJson : Bool) : Run :=
  match sources.load with
  | .error (.reported e) => Run.failed asJson e.message
  | .error (.fatal f) => ⟨.error f, [], []⟩
  | .ok disguise =>
    operate w .updateDisguise
      [("base_url", trimmed baseUrl), ("server_id", trimmed serverId),
       ("admin_api_key", trimmed adminApiKey), ("disguise", .object disguise)]
      asJson (Run.succeeded "Apply disguise")

/-! ## The command line -/

def Task.run (w : World) (asJson : Bool) : Task → Run
  | .connect => operate w .connect [] asJson (Run.succeeded "Connect")
  | .disconnect => operate w .disconnect [] asJson (Run.succeeded "Disconnect")
  | .status => operate w .status [] asJson fun v => Run.lines (StatusPage.lines w.env v)
  | .importToken baseUrl token => runImport w (Blank.trim baseUrl) (Blank.trim token) asJson
  | .openLink urls => runLinks w urls asJson
  | .setMode mode =>
    operate w .setMode [("mode", .str mode.name)] asJson (Run.succeeded "Mode change")
  | .updateDisguise baseUrl serverId adminApiKey sources =>
    runDisguise w baseUrl serverId adminApiKey sources asJson

/-- The line that tells the version. -/
def versionLine : String := programName ++ ", version " ++ version

def Invocation.run (w : World) : Except UsageError Invocation → Run
  | .error (.noPath _ _) => ⟨.error .noPath, [], []⟩
  | .error e => Run.failure e.message
  | .ok (.help none) => Run.page Help.programPage
  | .ok (.help (some c)) => Run.page (Help.commandPage c)
  | .ok .version => Run.page versionLine
  | .ok (.task t asJson) => t.run w asJson

/-- Run a command with the arguments behind its name. -/
def Command.run (w : World) (c : Command) (arguments : List (List Char)) : Run :=
  Invocation.run w (c.invocation w.env w.files arguments)

def aliasRemark (typed : List Char) (c : Command) : Text :=
  "Alias '" ++ Text.ofChars typed ++ "' -> '" ++ c.name ++ "' with args []"

/-- Run the command that was typed, by its name or its short name. -/
def runTyped (w : World) (typed : List Char) (arguments : List (List Char)) : Run :=
  match Command.ofAlias? typed with
  | some c =>
    (c.run w arguments).after (logged (Log.debug w.env.debug (aliasRemark typed c))) []
  | none =>
    match Command.ofName? typed with
    | some c => c.run w arguments
    | none => Run.failure (UsageError.noSuchCommand typed).message

def run (w : World) (arguments : List (List Char)) : Run :=
  match scan programOptions false arguments with
  | .error e => Invocation.run w (.error e)
  | .ok s =>
    match s.given, s.rest with
    | ⟨.version, _⟩ :: _, _ => Invocation.run w (.ok .version)
    | _ :: _, _ | [], [] => Invocation.run w (.ok (.help none))
    | [], typed :: rest => runTyped w typed rest

end AgentBridge.CommandLine
