import AgentBridge.Reply

/-
  AgentBridge.Call — one call of the backend.

  A call is an action name with a payload. It starts one process,
  `program script action payload`, with the payload as JSON text, waits for its outcome and
  reads the reply. A payload that JSON cannot say is refused before anything is started or
  logged. A process is a function from what is started to how it ends, so two calls share
  nothing.
-/

namespace AgentBridge

/-- The kinds of objects that a caller may hold and JSON cannot say. -/
inductive ForeignKind where
  | set
  | object
  | bytes
  | complex
  deriving DecidableEq, Repr

def ForeignKind.name : ForeignKind → String
  | .set => "set"
  | .object => "object"
  | .bytes => "bytes"
  | .complex => "complex"

/-- What a caller hands over with a call. -/
abbrev Payload := Value ForeignKind

namespace Payload

/-- The style of payloads: strict, on one line. -/
def style : Json.Style ForeignKind := ⟨true, .oneLine, ForeignKind.name⟩

def encode (p : Payload) : Except CallError (List Char) :=
  match Json.writeAt style 0 p with
  | .ok text => .ok text
  | .error e => .error (.unwritable e)

end Payload

structure Call where
  action : Text
  payload : Payload

/-- The fields of a request that came as JSON. -/
structure CallFields where
  action : Text
  payload : Json

namespace CallFields

/-- The fields of a request from a JSON value; the payload may be left out. -/
def ofJson : Json → Checked CallFields :=
  Shape.record "BridgeCall" fun m =>
    CallFields.mk <$> Shape.required m "action" Rule.text
      <*> Shape.withDefault m "payload" .null Rule.anything

def toJson (c : CallFields) : Json :=
  .object [("action", .str c.action), ("payload", c.payload)]

def toCall (c : CallFields) : Call := ⟨c.action, .ofJson c.payload⟩

end CallFields

/-- What is started: a program with its arguments, and the time it is given. -/
structure Spawn where
  argv : List Text
  deadline : Option Deadline
  deriving DecidableEq

/-- How a process ends, if it was started at all. A stream that was not captured is none. -/
inductive Outcome where
  | exited (status : Int) (stdout stderr : Option (List UInt8))
  | expired
  | notStarted (f : StartFailure)

abbrev Runner := Spawn → Outcome

/-- The result of some work, with what it logged and which processes it started. -/
structure Traced (α : Type) where
  result : α
  log : List LogEntry
  spawns : List Spawn

/-- The value of a call, or why there is none. -/
abbrev Answer := Except (Failure CallError) Json

namespace Config

def argv (c : Config) (call : Call) : Except CallError (List Text) := do
  let payload ← call.payload.encode
  return [c.program, c.script, call.action, Text.ofChars payload]

def reply (status : Int) (stdout stderr : Option (List UInt8)) : Reply :=
  ⟨stdout.getD [], stderr.getD [], some status⟩

/-- What the outcome of a process means, with what is logged about it. -/
def settle (c : Config) (debug : Bool) (action : Text) : Outcome → Answer × List LogEntry
  | .expired => (.error (.reported (.expired c.deadline action)), [])
  | .notStarted f => (.error (.reported (.notStarted f)), [])
  | .exited status stdout stderr =>
    let r := reply status stdout stderr
    (r.result,
      Log.debug debug ("bridge " ++ action ++ (": exit " ++ toString status : String)) ++
        r.remarks action debug)

def call (c : Config) (debug : Bool) (run : Runner) (call : Call) : Traced Answer :=
  match c.argv call with
  | .error e => ⟨.error (.reported e), [], []⟩
  | .ok argv =>
    let spawn : Spawn := ⟨argv, c.deadline⟩
    let (answer, log) := c.settle debug call.action (run spawn)
    ⟨answer,
      Log.debug debug ("bridge " ++ call.action ++ ": " ++ c.program ++ " " ++ c.script) ++ log,
      [spawn]⟩

end Config

end AgentBridge
