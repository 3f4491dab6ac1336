import AgentBridge.Call
import AgentBridge.Envelope
import AgentBridge.Json.Reader
import AgentBridge.Json.Writer

/-
  AgentBridge.Backend — the other side of the bridge.

  A backend is a table of handlers, by action. It is started with an action and a payload as
  JSON text, runs the handler of the action on the payload, and ends in one of four ways: it
  answers or refuses, each with one line that holds an envelope; its handler leaves with an
  exit status of its own, and nothing is written but what it complains of itself; or it
  crashes, and nothing is written but, while debugging is on, a complaint. Answers, refusals
  and crashes have the exit statuses 0, 1 and 2.

  A handler's result is written leniently: a number that is not finite has a word. There may
  be as many brackets inside each other as a reader takes, with those of the envelope.

  What handlers do besides ending is left open: they run in any monad, so a backend says when
  its handler is run and on what. `run` is the case of handlers that do nothing else.
-/

namespace AgentBridge

/-- How a handler ends. -/
inductive Handled where
  | returned (v : Payload)
  | failed (kind : String) (message : Text)
  /-- It failed, and asking for the message failed as well, with a last line. -/
  | unspeakable (complaint : String)
  /-- It ended the whole process, maybe with a last line. -/
  | left (status : Int) (complaint : Option String)

/-- What handles the payloads of an action, with effects in `m`. -/
abbrev HandlerIn (m : Type → Type) := Json → m Handled

/-- What handles the payloads of an action without effects. -/
abbrev Handler := HandlerIn Id

/-- What a backend was given to find its handlers. -/
inductive DispatchIn (m : Type → Type) where
  /-- A table of handlers by action; an entry may be void. -/
  | table (entries : List (Text × Option (HandlerIn m)))
  /-- Something else. -/
  | other

/-- What a backend was given to find handlers without effects. -/
abbrev Dispatch := DispatchIn Id

namespace Backend

inductive Crash where
  /-- The result of a handler has no JSON text. -/
  | unwritable (e : Json.WriteError)
  /-- The result of a handler has too many brackets inside each other. -/
  | tooDeep
  /-- The payload exceeds a limit of the reader. -/
  | limit (l : Json.Limit)
  /-- The failure of a handler has no message. -/
  | unspeakable (complaint : String)
  deriving DecidableEq, Repr

/-- The last line of the complaint about a crash. -/
def Crash.complaint : Crash → String
  | .unwritable (.foreign kind) => "TypeError: " ++ (Json.WriteError.foreign kind).message
  | .unwritable e => "ValueError: " ++ e.message
  | .tooDeep => "RecursionError: maximum recursion depth exceeded while encoding a JSON object"
  | .limit (.digits n) => "ValueError: " ++ (Json.Limit.digits n).message
  | .limit (.nesting b) => "RecursionError: " ++ (Json.Limit.nesting b).message
  | .unspeakable complaint => complaint

/-- How a backend ends, with the envelope that it writes. -/
inductive Ending where
  | answered (envelope : List Char)
  | refused (envelope : List Char)
  | left (status : Int) (complaint : Option String)
  | crashed (c : Crash)

/-- The handler of an action; a void entry is none. -/
def handler? {m : Type → Type} (entries : List (Text × Option (HandlerIn m))) (action : Text) :
    Option (HandlerIn m) :=
  (entries.find? (·.1 = action)).bind (·.2)

def defaultPayload : List Char := ['\x7b', '\x7d']

/-- The text of the payload among the arguments after the action. -/
def payloadText : List Text → List Char
  | [] => defaultPayload
  | payload :: _ => payload.toCharsLossy

/-- The style of envelopes: lenient, on one line. -/
def style : Json.Style ForeignKind := ⟨false, .oneLine, ForeignKind.name⟩

/-- End with an envelope, if it has a JSON text that is not too deep. -/
def endWith (ending : List Char → Ending) (envelope : Payload) : Ending :=
  match Json.writeAt style 0 envelope with
  | .ok text => if envelope.depth ≤ Json.nestingLimit then ending text else .crashed .tooDeep
  | .error e => .crashed (.unwritable e)

def answer (data : Payload) : Ending := endWith .answered (Envelope.success data)

def refuse (message : Text) : Ending := endWith .refused (Envelope.refusal message)

/-- What the end of a handler means for its backend. -/
def settle : Handled → Ending
  | .returned data => answer data
  | .failed kind message => refuse (if message.isEmpty then Text.ofString kind else message)
  | .unspeakable complaint => .crashed (.unspeakable complaint)
  | .left status complaint => .left status complaint

section

variable {m : Type → Type} [Monad m]

def handle (handler : HandlerIn m) (payload : List Char) : m Ending :=
  match Json.read payload with
  | .ok v => settle <$> handler v
  | .error (.malformed f p) => pure (refuse ("Invalid payload JSON: " ++ Json.faultMessage f p : String))
  | .error (.limit l) => pure (.crashed (.limit l))

def ending : DispatchIn m → (argv : List Text) → m Ending
  | .other, _ | .table [], _ => pure (refuse "Dispatch table must be a non-empty dictionary")
  | .table (_ :: _), [] => pure (refuse "No action specified (expected: action [payload])")
  | .table entries, action :: rest =>
    match handler? entries action with
    | some handler => handle handler (payloadText rest)
    | none => pure (refuse ("Unsupported bridge action: " ++ action))

end

/-- What is seen of a backend that has ended: its exit status, what it wrote, and the last
line of its complaint if it made one. -/
structure Finish where
  status : Int
  stdout : List Char
  complaint : Option String
  deriving DecidableEq, Repr

def Ending.finish (debug : Bool) : Ending → Finish
  | .answered envelope => ⟨0, envelope ++ ['\n'], none⟩
  | .refused envelope => ⟨1, envelope ++ ['\n'], none⟩
  | .left status complaint => ⟨status, [], complaint⟩
  | .crashed c => ⟨2, [], if debug then some c.complaint else none⟩

def runIn {m : Type → Type} [Monad m] (d : DispatchIn m) (debug : Bool) (argv : List Text) : m Finish :=
  (·.finish debug) <$> ending d argv

def run (d : Dispatch) (debug : Bool) (argv : List Text) : Finish := Id.run (runIn d debug argv)

end Backend

end AgentBridge
