import AgentBridge.Error
import AgentBridge.Json.Writer
import AgentBridge.Shape

/-
  AgentBridge.Envelope — the reply that a backend writes.

  An envelope says whether the call went well, and carries data or an error message. On the
  wire it is a JSON object; members other than `ok`, `data` and `error` are ignored, and the
  order of the members means nothing. Exactly one envelope makes up a reply.
-/

namespace AgentBridge

structure Envelope where
  ok : Bool
  data : Json
  error : Option Text

namespace Envelope

def ofMembers (m : Members Empty) : Checked Envelope :=
  Envelope.mk <$> Shape.required m "ok" Rule.flag
    <*> Shape.withDefault m "data" .null Rule.anything
    <*> Shape.withDefault m "error" none (Rule.orNull Rule.text)

def ofJson : Json → Checked Envelope := Shape.record "BridgeResponse" ofMembers

def toJson (e : Envelope) : Json :=
  .object [("ok", .bool e.ok), ("data", e.data),
    ("error", match e.error with
      | some message => .str message
      | none => .null)]

/-- The only envelope in a text. Of several violations the first is reported. -/
def read (cs : List Char) : Except (Failure CallError) Envelope :=
  match Json.read cs with
  | .error (.malformed f place) => .error (.reported (.notJson f place))
  | .error (.limit l) => .error (.limit l)
  | .ok v =>
    match ofJson v with
    | .ok e => .ok e
    | .error v _ => .error (.reported (.notEnvelope v))

/-! ## The backend's side -/

/-- The envelope of a result; nothing at all is left out. -/
def success {F : Type} : Value F → Value F
  | .null => .object [("ok", .bool true)]
  | data => .object [("ok", .bool true), ("data", data)]

def refusal {F : Type} (message : Text) : Value F :=
  .object [("ok", .bool false), ("error", .str message)]

end Envelope

end AgentBridge
