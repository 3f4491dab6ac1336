import AgentBridge.Config
import AgentBridge.Json.Reader
import AgentBridge.Text.Quoted
import AgentBridge.Text.Utf8

/-
  AgentBridge.Error — what can go wrong, by cause.

  An error says what happened; its kind and its wording are functions of that. Kinds form a
  small hierarchy, so that a caller can ask for "any failed call" or for one kind. A reader's
  limit is not an error of these kinds: whoever exceeds it is cut short, which `Failure`
  keeps apart.
-/

namespace AgentBridge

/-! ## Kinds -/

inductive ErrorKind where
  | desktop
  | validation
  | bridge
  | serialization
  | spawn
  | timeout
  | outputDecode
  | emptyResponse
  | diagnostic
  | envelopeParse
  | backend
  deriving DecidableEq, Repr

namespace ErrorKind

def all : List ErrorKind :=
  [.desktop, .validation, .bridge, .serialization, .spawn, .timeout, .outputDecode,
   .emptyResponse, .diagnostic, .envelopeParse, .backend]

def name : ErrorKind → String
  | .desktop => "DesktopError"
  | .validation => "ValidationError"
  | .bridge => "BridgeError"
  | .serialization => "SerializationError"
  | .spawn => "SpawnError"
  | .timeout => "BridgeTimeoutError"
  | .outputDecode => "OutputDecodeError"
  | .emptyResponse => "EmptyResponseError"
  | .diagnostic => "DiagnosticError"
  | .envelopeParse => "EnvelopeParseError"
  | .backend => "BackendError"

def ofName? (name : String) : Option ErrorKind := all.find? (·.name = name)

/-- The kind itself and the wider kinds that it belongs to, narrowest first. -/
def chain : ErrorKind → List ErrorKind
  | .desktop => [.desktop]
  | .validation => [.validation, .desktop]
  | .bridge => [.bridge, .desktop]
  | kind => [kind, .bridge, .desktop]

/-- Whether errors of a kind carry the exit status of the backend. -/
def carriesStatus (kind : ErrorKind) : Bool := kind == .backend

/-- Every kind belongs to the widest one. -/
theorem desktop_mem_chain (kind : ErrorKind) : .desktop ∈ kind.chain := by
  cases kind <;> simp [chain]

end ErrorKind

/-! ## Failed calls -/

/-- Why a process could not be started: the number and wording of the system's error, and
the file that it names. -/
structure StartFailure where
  number : Int
  reason : String
  file : Option String
  deriving DecidableEq, Repr

def StartFailure.message (f : StartFailure) : Text :=
  ("[Errno " ++ toString f.number ++ "] " ++ f.reason : String) ++
    match f.file with
    | some file => Text.ofChars (':' :: ' ' :: (Text.ofString file).quoted)
    | none => []

inductive CallError where
  /-- The payload has no JSON text. -/
  | unwritable (e : Json.WriteError)
  /-- The backend could not be started. -/
  | notStarted (f : StartFailure)
  /-- The backend did not end before the deadline. -/
  | expired (deadline : Option Deadline) (action : Text)
  /-- What the backend wrote is not UTF-8. -/
  | undecodable (f : Utf8.Fault)
  /-- The backend wrote nothing at all. -/
  | silent
  /-- The backend wrote no reply, but a complaint. -/
  | diagnostic (complaint : List Char)
  /-- The reply is not JSON. -/
  | notJson (f : Json.Fault) (place : Json.Position)
  /-- The reply is not an envelope. -/
  | notEnvelope (v : Violation)
  /-- The backend refused, with a message and its exit status. -/
  | refused (message : Text) (status : Option Int)

/-- The wording of a violation, with its field in front if it has one. -/
def Violation.describe (v : Violation) : Text :=
  if v.place.isEmpty then Text.ofString v.wrong.message
  else v.place ++ (": " ++ v.wrong.message : String)

namespace CallError

def kind : CallError → ErrorKind
  | .unwritable _ => .serialization
  | .notStarted _ => .spawn
  | .expired .. => .timeout
  | .undecodable _ => .outputDecode
  | .silent => .emptyResponse
  | .diagnostic _ => .diagnostic
  | .notJson .. => .envelopeParse
  | .notEnvelope _ => .envelopeParse
  | .refused .. => .backend

/-- The message when the backend refuses without giving a reason. -/
def unknownReason : String := "Unknown bridge error"

def message : CallError → Text
  | .unwritable e => ("Cannot serialize bridge payload: " ++ e.message : String)
  | .notStarted f => "Failed to run bridge: " ++ f.message
  | .expired deadline action =>
    let after := (deadline.map Deadline.text).getD "None".toList
    "Bridge timed out after " ++ Text.ofChars after ++ "s running " ++ action
  | .undecodable f => ("Bridge output is not valid UTF-8: " ++ f.message : String)
  | .silent => "Bridge returned empty response"
  | .diagnostic complaint => Text.ofChars complaint
  | .notJson f place => ("Invalid bridge JSON: " ++ Json.faultMessage f place : String)
  | .notEnvelope v => "Invalid bridge JSON: " ++ v.describe
  | .refused message _ => message

/-- Every failed call is a kind of bridge error. -/
theorem bridge_mem_chain (e : CallError) : .bridge ∈ e.kind.chain := by
  cases e <;> simp [kind, ErrorKind.chain]

end CallError

/-! ## Rejected input -/

/-- Why an operation was not even tried. -/
inductive ArgumentError where
  | unknownOperation (name : String)
  | missing (names : List Text)
  | invalid (v : Violation)

def ArgumentError.message : ArgumentError → Text
  | .unknownOperation name => ("Unknown operation: " ++ name : String)
  | .missing names => "Missing required argument: " ++ joinWith ", " names
  | .invalid v => "Invalid argument " ++ v.place ++ (": " ++ v.wrong.message : String)

inductive OperationError where
  | argument (e : ArgumentError)
  | call (e : CallError)

namespace OperationError

def kind : OperationError → ErrorKind
  | .argument _ => .validation
  | .call e => e.kind

def message : OperationError → Text
  | .argument e => e.message
  | .call e => e.message

end OperationError

/-- A failure that is reported, or a reader's limit that cuts everything short. -/
inductive Failure (ε : Type) where
  | reported (e : ε)
  | limit (l : Json.Limit)

def Failure.map {ε ε' : Type} (f : ε → ε') : Failure ε → Failure ε'
  | .reported e => .reported (f e)
  | .limit l => .limit l

end AgentBridge
