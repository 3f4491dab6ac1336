/-
  AgentBridge.CommandLine.Command — the commands of the program and their options.

  The program has seven commands, and short names for three of them. A command has options,
  in the order in which its help lists them, and at most one positional argument. Everything
  that the scanner and the help pages know about them is said here.
-/

namespace AgentBridge.CommandLine

def programName : String := "xray-desktop"

def version : String := "0.1.0"

/-! ## Options -/

/-- An option of the program or of one of its commands. -/
inductive Opt where
  | baseUrl
  | token
  | serverId
  | adminApiKey
  | domain
  | disguise
  | disguiseFile
  | json
  | version
  | help
  deriving DecidableEq, Repr

namespace Opt

/-- The name of an option, as it is typed. -/
def name : Opt → String
  | .baseUrl => "--base-url"
  | .token => "--token"
  | .serverId => "--server-id"
  | .adminApiKey => "--admin-api-key"
  | .domain => "--domain"
  | .disguise => "--disguise"
  | .disguiseFile => "--disguise-file"
  | .json => "--json"
  | .version => "--version"
  | .help => "--help"

/-- What the value of an option is called; an option without one is a switch. -/
def label? : Opt → Option String
  | .disguiseFile => some "FILE"
  | .json | .version | .help => none
  | _ => some "TEXT"

def takesValue (o : Opt) : Bool := o.label?.isSome

/-- Whether the commands that have an option need a value for it. -/
def isRequired : Opt → Bool
  | .baseUrl | .token | .serverId | .adminApiKey => true
  | _ => false

/-- The environment variable that an option takes its value from when it is not given. -/
def environmentName? : Opt → Option String
  | .adminApiKey => some "XRAY_ADMIN_API_KEY"
  | _ => none

def about : Opt → String
  | .baseUrl => "Control panel base URL"
  | .token => "Share token issued by the panel"
  | .serverId => "Server identifier"
  | .adminApiKey => "Admin API key (or XRAY_ADMIN_API_KEY)"
  | .domain => "Domain to impersonate"
  | .disguise => "Disguise object as JSON"
  | .disguiseFile => "File containing the disguise object"
  | .json => "Output as JSON"
  | .version => "Show the version and exit."
  | .help => "Show this message and exit."

/-- The option with a name, among those that are known. -/
def find? (known : List Opt) (typed : List Char) : Option Opt :=
  known.find? fun o => o.name.toList = typed

end Opt

def programOptions : List Opt := [.version, .help]

/-! ## Positional arguments -/

inductive Mode where
  | proxy
  | vpn
  deriving DecidableEq, Repr

namespace Mode

def all : List Mode := [.proxy, .vpn]

def name : Mode → String
  | .proxy => "proxy"
  | .vpn => "vpn"

def ofName? (typed : List Char) : Option Mode := all.find? fun m => m.name.toList = typed

end Mode

inductive Positional where
  | mode
  | urls
  deriving DecidableEq, Repr

def Positional.label : Positional → String
  | .mode => "\x7b" ++ "|".intercalate (Mode.all.map Mode.name) ++ "\x7d"
  | .urls => "URLS..."

/-! ## Commands -/

inductive Command where
  | connect
  | disconnect
  | importToken
  | openLink
  | setMode
  | status
  | updateDisguise
  deriving DecidableEq, Repr

namespace Command

/-- All commands, in the order of their names. -/
def all : List Command :=
  [.connect, .disconnect, .importToken, .openLink, .setMode, .status, .updateDisguise]

def name : Command → String
  | .connect => "connect"
  | .disconnect => "disconnect"
  | .importToken => "import-token"
  | .openLink => "open-link"
  | .setMode => "set-mode"
  | .status => "status"
  | .updateDisguise => "update-disguise"

def ofName? (typed : List Char) : Option Command := all.find? fun c => c.name.toList = typed

def aliases : List (String × Command) :=
  [("import", .importToken), ("up", .connect), ("down", .disconnect)]

def ofAlias? (typed : List Char) : Option Command :=
  (aliases.find? fun a => a.1.toList = typed).map (·.2)

/-- The options of a command, in order. -/
def options : Command → List Opt
  | .importToken => [.baseUrl, .token, .json, .help]
  | .updateDisguise =>
    [.baseUrl, .serverId, .adminApiKey, .domain, .disguise, .disguiseFile, .json, .help]
  | _ => [.json, .help]

def positional? : Command → Option Positional
  | .openLink => some .urls
  | .setMode => some .mode
  | _ => none

/-- What help says about a command, by paragraphs. -/
def about : Command → List String
  | .connect => ["Connect using the imported configuration."]
  | .disconnect => ["Disconnect and restore system proxy settings."]
  | .importToken => ["Import connection settings from a share token."]
  | .openLink =>
    ["Import the token carried by the first valid deep link URL.",
     "The operating system may hand over several URLs at once; invalid ones are skipped " ++
      "with a warning."]
  | .setMode => ["Set the connection mode (proxy or vpn)."]
  | .status => ["Show connection status reported by the backend."]
  | .updateDisguise => ["Apply a disguise configuration to a server."]

theorem ofName?_name (c : Command) : ofName? c.name.toList = some c := by cases c <;> decide

end Command

end AgentBridge.CommandLine
