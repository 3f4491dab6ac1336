import AgentBridge.Json.Value
import AgentBridge.Number.Decimal
import AgentBridge.Text.Pieces
import AgentBridge.Text.Quoted

/-
  AgentBridge.Json.Writer — values as JSON text, and as they are shown in messages.

  The text is ASCII without control characters: everything outside the printable ASCII
  range is escaped in units of sixteen bits. One writer serves two layouts: on one line with
  a blank after each comma and colon, and over several lines with an indentation per level.

  What JSON cannot say is refused at the first place where it occurs, from left to right: a
  foreign part, a whole number longer than the digit limit, and, on the strict side, a number
  that is not finite. The lenient side writes the latter as `NaN`, `Infinity` and
  `-Infinity`, which the reader takes back.

  In messages and status lines a text by itself is shown as it is; inside an array or an object
  it is quoted. Yes, no and nothing are the words `True`, `False` and `None`; numbers are in
  decimal.
-/

namespace AgentBridge.Json

/-- The most decimal digits that a whole number is read from or written with. -/
def digitLimit : Nat := 4300

inductive WriteError where
  | notFinite
  | tooManyDigits
  | foreign (kind : String)
  deriving DecidableEq, Repr

def WriteError.message : WriteError → String
  | .notFinite => "Out of range float values are not JSON compliant"
  | .tooManyDigits =>
    "Exceeds the limit (4300 digits) for integer string conversion; " ++
      "use sys.set_int_max_str_digits() to increase the limit"
  | .foreign kind => "Object of type " ++ kind ++ " is not JSON serializable"

/-- The name of the failure that is given as the cause: a type without a text, or a number without one. -/
def WriteError.cause : WriteError → String
  | .foreign _ => "TypeError"
  | .notFinite | .tooManyDigits => "ValueError"

/-- How lines are broken: not at all, or with so many blanks per level. -/
inductive Layout where
  | oneLine
  | indented (width : Nat)
  deriving DecidableEq, Repr

/-- The break after an opening bracket and before a closing one, at a level. -/
def Layout.newline (level : Nat) : Layout → List Char
  | .oneLine => []
  | .indented width => '\n' :: List.replicate (width * level) ' '

/-- What stands between two items at a level. -/
def Layout.comma (level : Nat) : Layout → List Char
  | .oneLine => [',', ' ']
  | .indented width => ',' :: Layout.newline level (.indented width)

/-- How to write: whether to refuse what is not finite, the layout, and the names of the
foreign kinds. -/
structure Style (F : Type) where
  strict : Bool
  layout : Layout
  kind : F → String

def escapeUnit (n : Nat) : List Char := '\\' :: 'u' :: Hex.padded 4 n

def escape : CodePoint → List Char
  | .char '"' => ['\\', '"']
  | .char '\\' => ['\\', '\\']
  | .char '\n' => ['\\', 'n']
  | .char '\r' => ['\\', 'r']
  | .char '\t' => ['\\', 't']
  | .char '\x08' => ['\\', 'b']
  | .char '\x0c' => ['\\', 'f']
  | .char c => if ' ' ≤ c ∧ c ≤ '~' then [c] else (CodePoint.char c).units.flatMap escapeUnit
  | p => escapeUnit p.val

def writeText (t : Text) : List Char := '"' :: t.flatMap escape ++ ['"']

def integerText (n : Int) : List Char :=
  let ds := Nat.toDigits 10 n.natAbs
  if n < 0 then '-' :: ds else ds

/-- A whole number, unless it has too many digits. -/
def writeInteger (n : Int) : Except WriteError (List Char) :=
  if Nat.pow 10 digitLimit ≤ n.natAbs then .error .tooManyDigits else .ok (integerText n)

/-- A floating-point number, unless it is not finite and the style is strict. -/
def writeFloat (strict : Bool) (x : Binary64) : Except WriteError (List Char) :=
  if strict && !x.isFinite then .error .notFinite else .ok (x.text "NaN" "Infinity")

variable {F : Type}

mutual

def writeAt (s : Style F) (level : Nat) : Value F → Except WriteError (List Char)
  | .null => .ok "null".toList
  | .bool true => .ok "true".toList
  | .bool false => .ok "false".toList
  | .int n => writeInteger n
  | .float x => writeFloat s.strict x
  | .str t => .ok (writeText t)
  | .array [] => .ok ['[', ']']
  | .array (v :: rest) => do
    let first ← writeAt s (level + 1) v
    let others ← writeItems s (level + 1) rest
    return '[' :: s.layout.newline (level + 1) ++ first ++ others ++ s.layout.newline level ++ [']']
  | .object [] => .ok ['\x7b', '\x7d']
  | .object ((k, v) :: rest) => do
    let first ← writeAt s (level + 1) v
    let others ← writeMembers s (level + 1) rest
    return '\x7b' :: s.layout.newline (level + 1) ++ writeText k ++ [':', ' '] ++ first ++ others ++
      s.layout.newline level ++ ['\x7d']
  | .foreign x => .error (.foreign (s.kind x))

/-- The items after the first, each behind a comma. -/
def writeItems (s : Style F) (level : Nat) : List (Value F) → Except WriteError (List Char)
  | [] => .ok []
  | v :: rest => do
    let first ← writeAt s level v
    let others ← writeItems s level rest
    return s.layout.comma level ++ first ++ others

/-- The members after the first, each behind a comma. -/
def writeMembers (s : Style F) (level : Nat) :
    List (Text × Value F) → Except WriteError (List Char)
  | [] => .ok []
  | (k, v) :: rest => do
    let first ← writeAt s level v
    let others ← writeMembers s level rest
    return s.layout.comma level ++ writeText k ++ [':', ' '] ++ first ++ others

end

/-- The style for JSON values, on one line, with words for what is not finite. -/
def plain : Style Empty := ⟨false, .oneLine, nofun⟩

def write (v : Json) : Except WriteError (List Char) := writeAt plain 0 v

/-- The JSON text of a value with two blanks per level. -/
def writeIndented (v : Json) : Except WriteError (List Char) :=
  writeAt { plain with layout := .indented 2 } 0 v

/-! ## In messages -/

def commaSeparated (items : List (List Char)) : List Char := joinWith [',', ' '] items

mutual

def inspect : Json → List Char
  | .null => "None".toList
  | .bool true => "True".toList
  | .bool false => "False".toList
  | .int n => (toString n).toList
  | .float x => x.display
  | .str s => s.quoted
  | .array items => '[' :: commaSeparated (inspectItems items) ++ [']']
  | .object members => '\x7b' :: commaSeparated (inspectMembers members) ++ ['\x7d']
  | .foreign x => nomatch x

def inspectItems : List Json → List (List Char)
  | [] => []
  | v :: rest => inspect v :: inspectItems rest

def inspectMembers : List (Text × Json) → List (List Char)
  | [] => []
  | (k, v) :: rest => (k.quoted ++ ':' :: ' ' :: inspect v) :: inspectMembers rest

end

def display : Json → Text
  | .str s => s
  | v => Text.ofChars (inspect v)

end AgentBridge.Json
