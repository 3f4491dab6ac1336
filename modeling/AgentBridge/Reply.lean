import AgentBridge.Envelope
import AgentBridge.Log
import AgentBridge.Text.Blank

/-
  AgentBridge.Reply — what a finished backend has written, and what it means.

  A reply is the two streams of the process and its exit status. The output stream has to be
  UTF-8 and to hold one envelope, with blanks around it at most. The error stream is read
  leniently and matters only when there is no envelope, or when the envelope refuses without
  giving a reason. The exit status never decides anything; it is handed on with a refusal.
-/

namespace AgentBridge

/-- The streams of a finished process, and its exit status if it is known. -/
structure Reply where
  stdout : List UInt8
  stderr : List UInt8
  status : Option Int

namespace Reply

/-- The text of the error stream, without blanks around it. -/
def complaint (r : Reply) : List Char := Blank.trim (Utf8.decodeLossy r.stderr)

/-- What an envelope means, next to a complaint and an exit status. -/
def verdict (e : Envelope) (complaint : List Char) (status : Option Int) :
    Except (Failure CallError) Json :=
  if e.ok then .ok e.data
  else
    let message := match e.error with
      | some message => message
      | none =>
        if complaint.isEmpty then Text.ofString CallError.unknownReason
        else Text.ofChars complaint
    .error (.reported (.refused message status))

/-- The value that a reply carries, or why there is none. -/
def result (r : Reply) : Except (Failure CallError) Json :=
  match Utf8.decode? r.stdout with
  | .error f => .error (.reported (.undecodable f))
  | .ok out =>
    let out := Blank.trim out
    if out.isEmpty then
      if r.complaint.isEmpty then .error (.reported .silent)
      else .error (.reported (.diagnostic r.complaint))
    else do verdict (← Envelope.read out) r.complaint r.status

/-- The remark about a complaint that a successful reply leaves unused. -/
def remarks (r : Reply) (action : Text) (debug : Bool) : List LogEntry :=
  match r.result with
  | .ok _ =>
    if r.complaint.isEmpty then []
    else Log.debug debug
      ("bridge " ++ action ++ ": discarded stderr on success: " ++ Text.ofChars r.complaint)
  | .error _ => []

end Reply

end AgentBridge
