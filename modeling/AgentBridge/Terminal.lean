import AgentBridge.Environment
import AgentBridge.Log
import AgentBridge.Text.Utf8

/-
  AgentBridge.Terminal — what the program prints, and what a terminal changes about it.

  Results go to the output stream, failures and log entries to the error stream. Terminals
  understand escape sequences: an escape character, a bracket, parameters, intermediate marks
  and a final letter or mark. Where a stream is no terminal they are taken out of everything
  that is printed, but log entries are written as they are.

  `write` puts what was printed on the two streams and keeps the order on each
  (`write_append`). A line goes onto a stream as UTF-8; one with a surrogate that has no
  partner cannot, and then nothing of it and nothing behind it is written.
-/

namespace AgentBridge

inductive Printed where
  /-- A line of the output stream. -/
  | result (line : Text)
  /-- A line of the error stream. -/
  | failure (line : Text)
  /-- An entry of the log. -/
  | log (entry : LogEntry)
  deriving DecidableEq

namespace Terminal

/-! ## Escape sequences -/

def escape : CodePoint := .char '\x1b'

/-- Whether a code point may stand among the parameters of an escape sequence: a digit, a mark
between parameters (`:` and `;`) or a mark of private use (`<`, `=`, `>`, `?`). -/
def isParameter : CodePoint → Bool
  | .char c => '0' ≤ c && c ≤ '?'
  | _ => false

/-- Whether a code point may stand between the parameters of an escape sequence and its end: a
space or one of the marks up to `/`. -/
def isIntermediate : CodePoint → Bool
  | .char c => ' ' ≤ c && c ≤ '/'
  | _ => false

/-- Whether a code point may end an escape sequence: an ASCII letter or one of the marks around
the letters. -/
def isFinal : CodePoint → Bool
  | .char c => '@' ≤ c && c ≤ '~'
  | _ => false

/-- The number of code points after the escape character that belong to its sequence; none if
there is no sequence. -/
def sequenceRest : Text → Nat
  | .char '[' :: rest =>
    let closing := rest.dropWhile isParameter
    match closing.dropWhile isIntermediate with
    | c :: _ =>
      if isFinal c then
        (rest.takeWhile isParameter).length + (closing.takeWhile isIntermediate).length + 2
      else 0
    | [] => 0
  | _ => 0

/-- Take out the escape sequences, after passing over `skip` code points. -/
def plainFrom : (skip : Nat) → Text → Text
  | _, [] => []
  | skip + 1, _ :: rest => plainFrom skip rest
  | 0, c :: rest =>
    match if c = escape then sequenceRest rest else 0 with
    | 0 => c :: plainFrom 0 rest
    | n + 1 => plainFrom (n + 1) rest

def plain (t : Text) : Text := plainFrom 0 t

/-- Whether the kind of terminal that the environment names can show bold text. -/
def showsBold (env : Environment) : Bool :=
  match env.get? "TERM" with
  | some kind => kind != "" && kind != "dumb"
  | none => false

/-- A text in bold, where the terminal can show it. -/
def bold (env : Environment) (t : Text) : Text :=
  if showsBold env then
    escape :: Text.ofString "[1m" ++ t ++ escape :: Text.ofString "[0m"
  else t

/-! ## Streams -/

/-- What is on the two streams, and the surrogates that nothing could be written behind. -/
structure Streams where
  output : List Char
  errors : List Char
  fault : Option Utf8.Surrogates
  deriving DecidableEq

/-- Put in front what was written earlier, on the stream that it belongs to. -/
def Streams.after (item : Printed) (written : List Char) (s : Streams) : Streams :=
  match item with
  | .result _ => { s with output := written ++ s.output }
  | .failure _ | .log _ => { s with errors := written ++ s.errors }

def lineOn (terminal : Bool) (line : Text) : Text :=
  (if terminal then line else plain line) ++ [.char '\n']

def textOn (terminal : Bool) : Printed → Text
  | .result line | .failure line => lineOn terminal line
  | .log entry => entry.line

/-- Write items one after the other, up to the first line that cannot be written. A log entry
that cannot be written is passed over.

Both streams are strict UTF-8, because the host sets them up so. An error stream that it leaves
alone escapes a surrogate without a partner by its number and fails at nothing. -/
def write (terminal : Bool) : List Printed → Streams
  | [] => ⟨[], [], none⟩
  | item :: rest =>
    match Utf8.characters (textOn terminal item), item with
    | .ok written, item => (write terminal rest).after item written
    | .error _, .log _ => write terminal rest
    | .error s, _ => ⟨[], [], some s⟩

/-- What is written behind items that can all be written. -/
theorem write_append {terminal : Bool} {a : List Printed} (b : List Printed)
    (h : (write terminal a).fault = none) :
    write terminal (a ++ b) =
      ⟨(write terminal a).output ++ (write terminal b).output,
        (write terminal a).errors ++ (write terminal b).errors,
        (write terminal b).fault⟩ := by
  induction a with
  | nil => rfl
  | cons item rest ih =>
    cases hw : Utf8.characters (textOn terminal item) <;> cases item <;>
      simp_all [write, Streams.after]

/-- A text without an escape character stays as it is. -/
theorem plain_of_not_mem {t : Text} (h : escape ∉ t) : plain t = t := by
  unfold plain
  induction t with
  | nil => rfl
  | cons c rest ih =>
    have hc : c ≠ escape := fun e => h (by simp [e])
    have hr : escape ∉ rest := fun e => h (by simp [e])
    simp [plainFrom, hc, ih hr]

end Terminal

end AgentBridge
