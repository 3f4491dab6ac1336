import AgentBridge.Json.Writer
import AgentBridge.Terminal

/-
  AgentBridge.StatusPage — the connection status as lines for people.

  A status object becomes a headline and one line per field; a field that is null or not
  there is shown as a dash. The last line names the domain that the connection is disguised
  as. A status that is no object is shown as JSON text.
-/

namespace AgentBridge.StatusPage

def dash : Text := "-"

def shown : Json → Text
  | .null => dash
  | v => v.display

def keyValue (key : Text) (value : Json) : Text := "  " ++ key ++ ": " ++ shown value

/-- The value of a field; null if it is not there. -/
def fieldOf (status : Members Empty) (key : Text) : Json := (Members.get? key status).getD .null

/-- The members of a value, if it is an object. -/
def members? : Json → Option (Members Empty)
  | .object m => some m
  | _ => none

def disguise? (status : Members Empty) : Option Json := do
  let imported ← members? (fieldOf status "importedConfig")
  let reality ← members? (fieldOf imported "reality")
  let name := fieldOf reality "serverName"
  if name.isTruthy then some name else none

def disguiseLine (status : Members Empty) : Text :=
  "  Disguised as traffic from " ++ ((disguise? status).map Json.display).getD dash

def headline (status : Members Empty) : Text :=
  if (fieldOf status "connected").isTruthy then "Status: Connected" else "Status: Disconnected"

def page (env : Environment) (status : Members Empty) : List Text :=
  [Terminal.bold env (headline status),
   keyValue "Mode" (fieldOf status "mode"),
   keyValue "Imported" (.str (if (fieldOf status "imported").isTruthy then "yes" else "no")),
   keyValue "PID" (fieldOf status "pid"),
   keyValue "Supervisor PID" (fieldOf status "supervisorPid"),
   keyValue "Last error" (fieldOf status "lastError"),
   keyValue "Logs" (fieldOf status "logsPath"),
   disguiseLine status]

def lines (env : Environment) : Json → Except Json.WriteError (List Text)
  | .object status => .ok (page env status)
  | v => do return [Text.ofChars (← Json.writeIndented v)]

end AgentBridge.StatusPage
