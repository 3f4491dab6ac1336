import AgentBridge.Backend
import AgentBridge.Json.Writer

/-
  AgentBridge.Backend.Handlers — handlers for the simplest backends.

  They give back their payload, a fixed value, or one field of the payload; they leave with
  an exit status, or they fail. A failure has a kind and arguments. Its message is empty
  without arguments, the argument itself if there is one (a missing key is shown quoted), and
  the list of them otherwise. A failure of the system is worded from its number, its reason
  and the file it is about. A backend error needs exactly one argument, and to ask for one
  with more or less is a failure of its own.
-/

namespace AgentBridge.Handler

def echo : Handler := fun payload => .returned (.ofJson payload)

def constant (v : Json) : Handler := fun _ => .returned (.ofJson v)

/-- Give a thing that JSON cannot say. -/
def foreign : Handler := fun _ => .returned (.foreign .object)

def leave (status : Int) : Handler := fun _ => .left status none

/-- The kind of failure for a key that is not there. -/
def missingKey : String := "KeyError"

/-- The kinds of failure that come from the system. -/
def systemKinds : List String :=
  ["OSError", "BlockingIOError", "BrokenPipeError", "ChildProcessError", "ConnectionError",
   "ConnectionAbortedError", "ConnectionRefusedError", "ConnectionResetError",
   "FileExistsError", "FileNotFoundError", "InterruptedError", "IsADirectoryError",
   "NotADirectoryError", "PermissionError", "ProcessLookupError", "TimeoutError"]

/-- The message of a failure of the system, if it has a number and a reason. -/
def systemMessage : List Json → Option Text
  | [number, reason] | [number, reason, .null] =>
    some ("[Errno " ++ Json.display number ++ "] " ++ Json.display reason)
  | [number, reason, file] =>
    some ("[Errno " ++ Json.display number ++ "] " ++ Json.display reason ++ ": " ++
      Text.ofChars (Json.inspect file))
  | _ => none

/-- The message of a failure that is no more than its arguments. -/
def plainMessage (kind : String) : List Json → Text
  | [] => []
  | [v] => if kind = missingKey then Text.ofChars (Json.inspect v) else Json.display v
  | vs => Text.ofChars ('(' :: Json.commaSeparated (Json.inspectItems vs) ++ [')'])

/-- The message of a failure with the given arguments. -/
def failureMessage (kind : String) (args : List Json) : Text :=
  if kind ∈ systemKinds then (systemMessage args).getD (plainMessage kind args)
  else plainMessage kind args

/-- The kind of failure for a thing that cannot be done with what is given. -/
def misuse : String := "TypeError"

/-- The message when a backend error is asked for with a number of arguments that is not one. -/
def miscounted : Nat → String
  | 0 => "BackendError.__init__() missing 1 required positional argument: 'message'"
  | n => "BackendError.__init__() takes 2 positional arguments but " ++ toString (n + 1) ++
    " were given"

def fail (kind : String) (args : List Json) : Handler := fun _ =>
  if kind = ErrorKind.backend.name ∧ args.length ≠ 1 then
    .failed misuse (miscounted args.length)
  else .failed kind (failureMessage kind args)

/-- What a value without fields is called when a field of it is asked for. -/
def kindName : Json → String
  | .null => "NoneType"
  | .bool _ => "bool"
  | .int _ => "int"
  | .float _ => "float"
  | .str _ => "str"
  | .array _ => "list"
  | .object _ => "dict"
  | .foreign x => nomatch x

/-- Why a value has no field at all. -/
def withoutFields : Json → String
  | .array _ => "list indices must be integers or slices, not str"
  | .str _ => "string indices must be integers, not 'str'"
  | v => "'" ++ kindName v ++ "' object is not subscriptable"

def field (key : Text) : Handler
  | .object members =>
    match Members.get? key members with
    | some v => .returned (.ofJson v)
    | none => .failed missingKey (failureMessage missingKey [.str key])
  | payload => .failed misuse (withoutFields payload)

end AgentBridge.Handler
